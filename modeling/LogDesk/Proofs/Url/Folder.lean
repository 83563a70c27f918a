import LogDesk.Proofs.Url.Slash

/-! The folder that a URL names, and what becomes of it when a slash is put behind the URL's text. -/

namespace LogDesk.Url

/-- The segments of the folder that a URL names, be its last slash written or not. -/
def folder (u : Url) : List (List Char) :=
  match u.path with
  | .segments path => withoutLastSlash path
  | .plain _ => []

def IsRoot (u : Url) : Prop := u.family = .file ∧ u.path = .segments [[]]

/-- The URL of a text with a slash behind it. Where that is the first, its folder is that of the text alone
but for a backslash that was one. -/
inductive Followed (cs : List Char) (own : Url) : Url → Prop where
  | closed (path : List (List Char)) (last : path.getLast? = some [])
    (folder : cs.getLast? ≠ some '/' → (path.dropLast = own.folder ↔
      (cs.getLast? = some '\\' → own.family = .other ∨ own.IsRoot))) :
    Followed cs own { own with path := .segments path }

section
variable {f : Family}

theorem slashed_iff {cs : List Char} (h : cs.getLast? ≠ some '/') :
    slashed f cs = true ↔ cs.getLast? = some '\\' ∧ f ≠ .other := by
  unfold slashed
  cases hl : cs.getLast? with
  | none => simp
  | some c =>
    have hc : c ≠ '/' := fun hc => h (by rw [hl, hc])
    simp [isSlash, hc, Family.isSpecial, and_comm]

theorem slashed_dropWhile (cs : List Char) :
    slashed f (cs.dropWhile (!isSlash f ·)) = slashed f cs := by
  induction cs with
  | nil => rfl
  | cons c cs ih =>
    rw [List.dropWhile_cons]
    cases hc : isSlash f c with
    | true => rfl
    | false =>
      refine ih.trans ?_
      cases cs with
      | nil => simp [slashed, hc]
      | cons d cs => simp [slashed]

theorem getLast?_dropWhile {p : Char → Bool} {cs : List Char} (h : cs.dropWhile p ≠ []) :
    (cs.dropWhile p).getLast? = cs.getLast? := by
  obtain ⟨front, hcs⟩ := List.dropWhile_suffix (p := p) (l := cs)
  have hlast := List.getLast?_append_of_ne_nil front h
  rw [hcs] at hlast
  exact hlast.symm

theorem takeWhile_concat {p : Char → Bool} {c : Char} (hc : p c = false) (cs : List Char) :
    (cs ++ [c]).takeWhile p = cs.takeWhile p := by
  induction cs with
  | nil => simp [hc]
  | cons d cs ih => rw [List.cons_append, List.takeWhile_cons, List.takeWhile_cons, ih]

theorem dropWhile_concat {p : Char → Bool} {c : Char} (hc : p c = false) (cs : List Char) :
    (cs ++ [c]).dropWhile p = cs.dropWhile p ++ [c] := by
  induction cs with
  | nil => simp [hc]
  | cons d cs ih =>
    rw [List.cons_append, List.dropWhile_cons, List.dropWhile_cons, ih]
    split <;> rfl

end

variable {scheme cs all : List Char} {own u : Url}

theorem Closing.followed (own : Url) {path closed : List (List Char)} {bare : Bool}
    (h : Closing own.family bare path closed) (hp : own.path = .segments path)
    (hb : ¬own.IsRoot → bare = slashed own.family all) :
    Followed all own { own with path := .segments closed } := by
  refine .closed closed h.getLast? fun hs => ?_
  have hf : own.folder = withoutLastSlash path := by rw [Url.folder, hp]
  have hroot : own.IsRoot ↔ own.family = .file ∧ path = [[]] := by simp [IsRoot, hp]
  rw [hf, h.dropLast_iff, ← hroot]
  by_cases hr : own.IsRoot
  · simp [hr]
  · rw [hb hr, slashed_iff hs]
    by_cases ho : own.family = .other <;> simp [ho]

/-- A URL whose path is but a root has no folder to lose. -/
theorem Followed.root (own : Url) (hf : own.folder = []) (ho : own.family = .other ∨ own.IsRoot) :
    Followed all own { own with path := .segments [[]] } :=
  .closed [[]] rfl (by simp [hf, ho])

theorem readAuthority_scheme (h : readAuthority scheme cs = some u) : u.scheme = scheme := by
  unfold readAuthority at h
  simp only [Option.bind_eq_bind, Option.pure_def] at h
  split at h
  · cases h
  · split at h
    all_goals
      obtain ⟨host, -, h⟩ := Option.bind_eq_some_iff.mp h
      obtain ⟨port, -, h⟩ := Option.bind_eq_some_iff.mp h
      cases h
      rfl

theorem readHosted_followed {f : Family} (hf : familyOf scheme = f)
    (h : readHosted f scheme (cs ++ ['/']) = some u)
    (hall : cs.getLast? = all.getLast? ∨ cs = [] ∧ f = .other) :
    ∃ own, readHosted f scheme cs = some own ∧ Followed all own u := by
  unfold readHosted at h ⊢
  dsimp only at h ⊢
  rw [takeWhile_concat (by simp [isSlash]), dropWhile_concat (by simp [isSlash])] at h
  obtain ⟨v, hv, rfl⟩ := Option.map_eq_some_iff.mp h
  rw [hv]
  refine ⟨_, rfl, ?_⟩
  have hfam (path : Path) : ({ v with path } : Url).family = f := by
    rw [family, readAuthority_scheme hv, hf]
  have hend : ((cs.dropWhile (!isSlash f ·) ++ ['/']).isEmpty && f == .other) = false := by simp
  rw [hend]
  by_cases hr : (cs.dropWhile (!isSlash f ·)).isEmpty && f == .other
  · rw [if_pos hr]
    obtain ⟨hnil, hother⟩ : cs.dropWhile (!isSlash f ·) = [] ∧ f = .other := by simpa using hr
    rw [hnil]
    subst hother
    exact Followed.root { v with path := .segments [] } rfl (.inl (hfam _))
  · rw [if_neg hr]
    refine Closing.followed { v with path := .segments (readPath f _) }
      (by rw [hfam]; exact readPath_closing f (cs.dropWhile (!isSlash f ·))) rfl ?_
    have hall := hall.resolve_right fun h => hr (by simp [h.1, h.2])
    rw [slashed_dropWhile, hfam, slashed, hall]
    exact fun _ => rfl

theorem readFile_followed (hf : familyOf scheme = .file) (h : readFile scheme (cs ++ ['/']) = some u) :
    ∃ own, readFile scheme cs = some own ∧ Followed cs own u := by
  have followed (host : Host) (rest : List Char)
      (hrest : rest.getLast? = cs.getLast? ∨ readPath .file rest = [[]]) :
      Followed cs { scheme, host := some host, path := .segments (readPath .file rest) }
        { scheme, host := some host, path := .segments (readPath .file (rest ++ ['/'])) } := by
    have hfam : ({ scheme, host := some host, path := .segments (readPath .file rest) } : Url).family =
      .file := hf
    refine Closing.followed { scheme, host := some host, path := .segments (readPath .file rest) }
      (by rw [hfam]; exact readPath_closing .file rest) rfl fun hroot => ?_
    have hrest := hrest.resolve_right fun hr => hroot ⟨hfam, by rw [hr]⟩
    rw [hfam, slashed, hrest]
    rfl
  unfold readFile at h ⊢
  rcases cs with _ | ⟨a, _ | ⟨b, rest⟩⟩
  · cases h
    exact ⟨_, rfl, followed _ [] (.inl rfl)⟩
  · dsimp only [List.cons_append, List.nil_append] at h ⊢
    split at h
    next hab =>
      have ha : isSlash .file a = true := (Bool.and_eq_true_iff.mp hab).1
      cases h
      have hroot : readPath .file [a] = [[]] := by
        unfold readPath
        dsimp only
        rw [if_pos ha]
        rfl
      rw [hroot]
      exact ⟨_, rfl, Followed.root _ rfl (.inr ⟨hf, rfl⟩)⟩
    next hab =>
      cases h
      exact ⟨_, rfl, followed _ [a] (.inl rfl)⟩
  · dsimp only [List.cons_append] at h ⊢
    split at h
    next hab =>
      rw [if_pos hab]
      rw [takeWhile_concat (by simp [isSlash]), dropWhile_concat (by simp [isSlash])] at h
      split at h
      next hdrive =>
        have hne : rest ≠ [] := fun hnil => by simp [hnil, isDriveLetter] at hdrive
        rw [if_pos hdrive]
        cases h
        refine ⟨_, rfl, followed _ ('/' :: rest) (.inl ?_)⟩
        obtain ⟨c, cs, rfl⟩ := List.exists_cons_of_ne_nil hne
        simp
      next hdrive =>
        rw [if_neg hdrive]
        obtain ⟨host, hhost, rfl⟩ := Option.map_eq_some_iff.mp h
        rw [(readPath_closing .file (rest.dropWhile (!isSlash .file ·))).head?, hhost]
        refine ⟨_, rfl, followed _ _ ?_⟩
        by_cases hd : rest.dropWhile (!isSlash .file ·) = []
        · exact .inr (by rw [hd]; rfl)
        · refine .inl ((getLast?_dropWhile hd).trans ?_)
          have hne : rest ≠ [] := fun hnil => hd (by rw [hnil]; rfl)
          obtain ⟨c, cs, rfl⟩ := List.exists_cons_of_ne_nil hne
          simp
    next hab =>
      rw [if_neg hab]
      cases h
      exact ⟨_, rfl, followed _ (a :: b :: rest) (.inl rfl)⟩

theorem readHierarchy_path (hf : familyOf scheme = .other) {b : Char} (hb : b ≠ '/') (rest : List Char) :
    readHierarchy scheme ('/' :: b :: rest) =
      some { scheme, path := .segments (readPath .other ('/' :: b :: rest)) } := by
  simp [readHierarchy, hf, hb]

theorem readHierarchy_plain (hf : familyOf scheme = .other) {a : Char} (ha : a ≠ '/') (rest : List Char) :
    readHierarchy scheme (a :: rest) =
      some { scheme, path := .plain (encode inControlSet (a :: rest)) } := by
  simp [readHierarchy, hf, ha]

theorem readOther_followed (hf : familyOf scheme = .other) (h : readHierarchy scheme (cs ++ ['/']) = some u)
    (hp : ∃ path, u.path = .segments path) (hc : cs ≠ ['/']) :
    ∃ own, readHierarchy scheme cs = some own ∧ Followed cs own u := by
  obtain ⟨path, hp⟩ := hp
  have plain {a : Char} (ha : a ≠ '/') (rest : List Char) :
      readHierarchy scheme (a :: rest) ≠ some u := by
    rw [readHierarchy_plain hf ha]
    rintro ⟨⟩
    cases hp
  rcases cs with _ | ⟨a, _ | ⟨b, rest⟩⟩
  · simp only [List.nil_append, readHierarchy, hf] at h ⊢
    cases h
    exact ⟨_, rfl, Followed.root { scheme, path := .plain [] } rfl (.inl hf)⟩
  · by_cases ha : a = '/'
    · exact absurd (by rw [ha]) hc
    · exact absurd h (plain ha _)
  · by_cases ha : a = '/'
    · subst ha
      by_cases hb : b = '/'
      · subst hb
        simp only [List.cons_append, readHierarchy, hf] at h ⊢
        refine readHosted_followed hf h ?_
        cases rest with
        | nil => exact .inr ⟨rfl, rfl⟩
        | cons c cs => exact .inl (by simp)
      · rw [List.cons_append, List.cons_append, readHierarchy_path hf hb] at h
        cases h
        have hfam : ({ scheme, path := .segments (readPath .other ('/' :: b :: rest)) } : Url).family =
          .other := hf
        exact ⟨_, readHierarchy_path hf hb rest,
          Closing.followed { scheme, path := .segments (readPath .other ('/' :: b :: rest)) }
            (by rw [hfam]; exact readPath_closing .other _) rfl fun _ => by rw [hfam]⟩
    · exact absurd h (plain ha _)

theorem readHierarchy_followed (h : readHierarchy scheme (cs ++ ['/']) = some u)
    (hp : ∃ path, u.path = .segments path) (hc : familyOf scheme = .other → cs ≠ ['/']) :
    ∃ own, readHierarchy scheme cs = some own ∧ Followed cs own u := by
  cases hf : familyOf scheme with
  | file =>
    simp only [readHierarchy, hf] at h ⊢
    exact readFile_followed hf h
  | web =>
    simp only [readHierarchy, hf, List.dropWhile_append] at h ⊢
    split at h
    next hnil =>
      have hnone : readHosted .web scheme [] = none := by
        simp [readHosted, readAuthority, splitUser, splitPort, hf, Family.isSpecial]
      change readHosted .web scheme [] = _ at h
      rw [hnone] at h
      cases h
    next hne =>
      exact readHosted_followed hf h (.inl (getLast?_dropWhile (by simpa using hne)))
  | other => exact readOther_followed hf h hp (hc hf)

end LogDesk.Url
