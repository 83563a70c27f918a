import LogDesk.Api.Resource
import Mathlib.Data.List.DropRight

/-! What becomes of the path of a URL when a slash is put behind its text: it is closed, unless its last
slash has been written as a backslash, which is then followed by an empty segment. -/

namespace LogDesk.Url

variable (f : Family)

/-- Whether a text ends in a slash, in whichever way that is written. -/
def slashed (cs : List Char) : Bool := (cs.getLast?.map (isSlash f)).getD false

theorem cutSegments_ne_nil (cs : List Char) : cutSegments f cs ≠ [] := by
  cases cs with
  | nil => simp [cutSegments]
  | cons c cs =>
    rw [cutSegments]
    split
    · simp
    · split <;> simp

theorem cutSegments_concat (cs : List Char) {c : Char} (hc : isSlash f c = true) :
    cutSegments f (cs ++ [c]) = cutSegments f cs ++ [[]] := by
  induction cs with
  | nil => simp [cutSegments, hc]
  | cons d cs ih =>
    rw [List.cons_append, cutSegments, cutSegments, ih]
    split
    · rfl
    · cases h : cutSegments f cs with
      | nil => exact absurd h (cutSegments_ne_nil f cs)
      | cons piece rest => rfl

/-- The last piece is never empty behind a character that is no slash. -/
theorem cutSegments_name (cs : List Char) {c : Char} (hc : isSlash f c = false) :
    (cutSegments f (cs ++ [c])).getLast? ≠ some [] := by
  induction cs with
  | nil => simp [cutSegments, hc]
  | cons d cs ih =>
    rw [List.cons_append, cutSegments]
    cases h : cutSegments f (cs ++ [c]) with
    | nil => exact absurd h (cutSegments_ne_nil f _)
    | cons piece rest =>
      rw [h] at ih
      split
      · simpa using ih
      · cases rest with
        | nil => simp
        | cons next rest => simpa using ih

theorem cutSegments_last (cs : List Char) :
    (cutSegments f cs).getLast? = some [] ↔ cs = [] ∨ slashed f cs = true := by
  rcases cs.eq_nil_or_concat with rfl | ⟨cs, c, rfl⟩
  · simp [cutSegments]
  · cases hc : isSlash f c with
    | true => simp [cutSegments_concat f cs hc, slashed, hc]
    | false => simp [cutSegments_name f cs hc, slashed, hc]

def enter (path : List (List Char)) (folders : List (List Char)) : List (List Char) :=
  folders.foldl (fun path s => addSegment f path s false) path

theorem addSegments_concat (path folders : List (List Char)) (s : List Char) :
    addSegments f path (folders ++ [s]) = addSegment f (enter f path folders) s true := by
  induction folders generalizing path with
  | nil => rfl
  | cons folder folders ih =>
    rw [List.cons_append, addSegments]
    · exact ih _
    · simp

theorem addSegment_empty (path : List (List Char)) : addSegment f path [] true = path ++ [[]] := by
  have hd : isDriveLetter [] = false := rfl
  simp [addSegment, isDoubleDot, isSingleDot, lowerAscii, hd, encode]

theorem encodeChar_ne_nil (set : Char → Bool) (c : Char) : encodeChar set c ≠ [] := by
  unfold encodeChar
  split
  · have hc := c.utf8Size_pos
    simp [Text.charBytes, percentByte, ← List.length_eq_zero_iff, String.length_utf8EncodeChar]
    omega
  · simp

/-- A last segment made of dots leaves the path closed. Any other is a name unless it is empty. -/
theorem addSegment_true (path : List (List Char)) (s : List Char) :
    (s ≠ [] ∧ addSegment f path s true = addSegment f path s false ++ [[]]) ∨
      (addSegment f path s true = addSegment f path s false ∧
        ∃ x, addSegment f path s false = path ++ [x] ∧ (x = [] ↔ s = [])) := by
  have henc : encode inPathSet s = [] ↔ s = [] := by
    cases s with
    | nil => simp [encode]
    | cons c cs => simp [encode, encodeChar_ne_nil]
  unfold addSegment
  split
  next h => exact .inl ⟨by rintro rfl; simp [isDoubleDot, lowerAscii] at h, by simp⟩
  next =>
    split
    next h => exact .inl ⟨by rintro rfl; simp [isSingleDot, lowerAscii] at h, by simp⟩
    next =>
      split
      next h =>
        refine .inr ⟨rfl, _, rfl, ?_⟩
        cases s with
        | nil => simp [isDriveLetter] at h
        | cons c cs => simp
      next => exact .inr ⟨rfl, _, rfl, henc⟩

/-- Empty segments are dropped up to the last segment. -/
theorem dropEmpty_concat (path : List (List Char)) (s : List Char) :
    dropEmpty (path ++ [s]) = path.dropWhile (·.isEmpty) ++ [s] := by
  induction path with
  | nil => cases s <;> rfl
  | cons first path ih =>
    cases first with
    | cons c cs => rfl
    | nil =>
      have hne : path ++ [s] ≠ [] := by simp
      obtain ⟨next, rest, hr⟩ := List.exists_cons_of_ne_nil hne
      rw [List.cons_append, hr, dropEmpty, ← hr, ih]
      rfl

/-- How a path is closed: it is so already, or an empty segment is put behind it. `bare` says that the
text ends in no name. -/
inductive Closing (bare : Bool) (path : List (List Char)) : (closed : List (List Char)) → Prop where
  | already (last : path.getLast? = some []) (root : bare = true → f = .file ∧ path = [[]]) :
    Closing bare path path
  | behind (ne : path ≠ []) (last : path.getLast? = some [] ↔ bare = true)
    (root : ¬(f = .file ∧ path = [[]])) : Closing bare path (path ++ [[]])

namespace Closing

variable {f} {bare : Bool} {path closed : List (List Char)}

theorem getLast? (h : Closing f bare path closed) : closed.getLast? = some [] := by
  cases h with
  | already last => exact last
  | behind => simp

theorem head? (h : Closing f bare path closed) : closed.head? = path.head? := by
  cases h with
  | already => rfl
  | behind ne => exact List.head?_append_of_ne_nil path ne

/-- A name stays as it is, and no empty segment is doubled but behind a bare slash. -/
theorem dropLast_iff (h : Closing f bare path closed) :
    closed.dropLast = withoutLastSlash path ↔ (bare = true → f = .file ∧ path = [[]]) := by
  unfold withoutLastSlash
  cases h with
  | already last root => simpa [last] using root
  | behind ne last root =>
    have hne : path ≠ path.dropLast := fun heq => by
      have hlen := congrArg List.length heq
      rw [List.length_dropLast] at hlen
      have := List.length_pos_iff.mpr ne
      omega
    rw [List.dropLast_concat, ← last]
    split
    next h => simp [hne, h, root]
    next h => simp [h]

end Closing

def rooted (path : List (List Char)) : List (List Char) := if f == .file then dropEmpty path else path

theorem rooted_concat (path : List (List Char)) (s : List Char) :
    ∃ front, rooted f (path ++ [s]) = front ++ [s] := by
  cases f with
  | file => exact ⟨_, dropEmpty_concat path s⟩
  | web | other => exact ⟨path, rfl⟩

theorem rooted_closing (path : List (List Char)) {s : List Char} {bare : Bool} (hs : s = [] ↔ bare = true) :
    Closing f bare (rooted f (path ++ [s])) (rooted f (path ++ [s] ++ [[]])) := by
  have behind {front : List (List Char)} (root : ¬(f = .file ∧ front ++ [s] = [[]])) :
      Closing f bare (front ++ [s]) (front ++ [s] ++ [[]]) :=
    .behind (by simp) (by simpa using hs) root
  cases f with
  | file =>
    have hp : rooted .file (path ++ [s]) = path.dropWhile (·.isEmpty) ++ [s] := dropEmpty_concat path s
    have hc : rooted .file (path ++ [s] ++ [[]]) = (path ++ [s]).dropWhile (·.isEmpty) ++ [[]] :=
      dropEmpty_concat (path ++ [s]) []
    rw [hp, hc, List.dropWhile_append]
    cases hd : path.dropWhile (·.isEmpty) with
    | cons first rest => exact behind (by simp)
    | nil =>
      cases s with
      | nil => exact .already rfl (by simp)
      | cons c cs => exact behind (by simp)
  | web | other => exact behind (by simp)

theorem closing_segments (cs : List Char) {bare : Bool}
    (hb : (cutSegments f cs).getLast? = some [] ↔ bare = true) :
    Closing f bare (rooted f (addSegments f [] (cutSegments f cs)))
      (rooted f (addSegments f [] (cutSegments f (cs ++ ['/'])))) := by
  obtain ⟨folders, s, hs⟩ := (List.eq_nil_or_concat' _).resolve_left (cutSegments_ne_nil f cs)
  have hs' : s = [] ↔ bare = true := by simpa [hs] using hb
  have he : enter f [] (folders ++ [s]) = addSegment f (enter f [] folders) s false := by simp [enter]
  rw [cutSegments_concat f cs (by simp [isSlash]), hs, addSegments_concat, addSegments_concat,
    addSegment_empty, he]
  rcases addSegment_true f (enter f [] folders) s with ⟨hne, ht⟩ | ⟨ht, x, hx, hxs⟩
  · obtain ⟨front, hf⟩ := rooted_concat f (addSegment f (enter f [] folders) s false) []
    rw [ht, hf]
    exact .already (by simp) fun hbare => absurd (hs'.mpr hbare) hne
  · rw [ht, hx]
    exact rooted_closing f _ (hxs.trans hs')

/-- A slash behind a text closes its path. -/
theorem readPath_closing (cs : List Char) :
    Closing f (slashed f cs) (readPath f cs) (readPath f (cs ++ ['/'])) := by
  cases cs with
  | nil => cases f <;> exact .already rfl (by simp [slashed])
  | cons c cs =>
    have read (cs : List Char) : readPath f (c :: cs) =
      rooted f (addSegments f [] (cutSegments f (if isSlash f c then cs else c :: cs))) := rfl
    rw [List.cons_append, read, read]
    split
    next hc =>
      apply closing_segments
      rw [cutSegments_last]
      cases cs <;> simp [slashed, hc]
    next hc =>
      apply closing_segments
      rw [cutSegments_last]
      simp

end LogDesk.Url
