import LogDesk.Proofs.Api.Endpoint
import LogDesk.Proofs.Url.Text

/-! Where the log resource of a server is: in the folder that the server's URL names, but for a query or
fragment behind a path that is not closed, and for a slash that was written as a backslash. -/

namespace LogDesk

namespace Url

variable (f : Family) (path : List (List Char))

/-- Whether the path of a URL is that of a folder as it stands: it has no last segment, an empty one, or
one that is a file's drive. -/
def IsFolder (u : Url) : Prop :=
  ∀ path s, u.path = .segments (path ++ [s]) → s = [] ∨ u.family = .file ∧ path = [] ∧ isDrive s = true

/-- The URL of what the names lead to from the folder that a URL names. -/
def inside (u : Url) (names : List (List Char)) : Url :=
  { u with path := .segments (u.folder ++ names), query := none, fragment := none }

theorem shorten_closed (h : path.getLast? = some []) : shorten f path = path.dropLast := by
  unfold shorten
  split
  next only =>
    cases h
    simp [isDrive, isDriveLetter]
  next => rfl

theorem shorten_long (s : List Char) (h : path ≠ []) : shorten f (path ++ [s]) = path := by
  unfold shorten
  split
  next only hp =>
    cases path with
    | nil => exact absurd rfl h
    | cons first path => simp at hp
  next => exact List.dropLast_concat

/-- A name that is put behind another leaves alone what is before that. -/
theorem putName_grows (s name : List Char) (h : path ≠ []) :
    ∃ more, putName f (path ++ [s]) name = path ++ more := by
  unfold putName
  dsimp only
  split_ifs
  · exact ⟨[s], rfl⟩
  · exact ⟨[[]], by rw [shorten_long f path s h]⟩
  · exact ⟨[s, []], by simp⟩
  · exact ⟨[s, _], by simp; rfl⟩

theorem isFolder_iff {u : Url} {path : List (List Char)} {s : List Char}
    (h : u.path = .segments (path ++ [s])) : u.IsFolder ↔ s = [] ∨ u.family = .file ∧ path = [] ∧ isDrive s = true := by
  constructor
  · intro hf
    exact hf path s h
  · intro hs path' s' h'
    rw [h] at h'
    obtain ⟨rfl, hlast⟩ := List.append_inj' (Path.segments.inj h') rfl
    cases hlast
    exact hs

/-- To put a name in the place of the last segment loses nothing just where the path is a folder's. -/
theorem shorten_iff {u : Url} {path : List (List Char)} (h : u.path = .segments path) :
    shorten u.family path = u.folder ↔ u.IsFolder := by
  have hf : u.folder = withoutLastSlash path := by rw [folder, h]
  rw [hf]
  rcases path.eq_nil_or_concat' with rfl | ⟨path, s, rfl⟩
  · refine iff_of_true rfl fun path s hp => ?_
    rw [h] at hp
    simp at hp
  · rw [isFolder_iff h]
    by_cases hs : s = []
    · simp [hs, shorten_closed, withoutLastSlash]
    · have hw : withoutLastSlash (path ++ [s]) = path ++ [s] := by simp [withoutLastSlash, hs]
      rw [hw]
      by_cases hp : path = []
      · subst hp
        simp [shorten, hs]
      · simp [shorten_long, hs, hp]

end Url

namespace Api

open Url (inside)

variable {server : String} {base own u : Url} {text : List Char}

/-- The URL of a server is that of a folder, also with a slash put behind its text. -/
structure NamesFolder (text : List Char) (own : Url) : Prop where
  tail : '?' ∈ text ∨ '#' ∈ text → own.IsFolder
  path : '?' ∉ text → '#' ∉ text → text.getLast? = some '\\' → own.family = .other ∨ own.IsRoot

/-- The log resource, and all below it, are in the folder that the URL of a server names. -/
structure Kept (own base : Url) : Prop where
  place : base = own.inside resourceNames
  below (c : Call) : ∃ names, endpoint base c = own.inside ("rest".toList :: "log".toList :: names)

theorem addSegments_resource (f : Url.Family) (path : List (List Char)) :
    Url.addSegments f path resourceNames = path ++ resourceNames := by
  have plain (path : List (List Char)) {s : List Char} (hd : Url.isDoubleDot s = false)
      (hs : Url.isSingleDot s = false) (hl : Url.isDriveLetter s = false) (he : Url.encode Url.inPathSet s = s) (last : Bool) :
      Url.addSegment f path s last = path ++ [s] := by
    simp [Url.addSegment, hd, hs, hl, he]
  change Url.addSegment f (Url.addSegment f (Url.addSegment f path "rest".toList false) "log".toList false)
    [] true = _
  rw [plain _ rfl rfl rfl rfl, plain _ rfl rfl rfl rfl, plain _ rfl rfl rfl rfl]
  simp [resourceNames]

theorem replaceLast_resource (h : u.replaceLast resourceNames = some base) :
    ∃ path, u.path = .segments path ∧ base = { u.bare with path := .segments (Url.shorten u.family path ++ resourceNames) } := by
  unfold Url.replaceLast at h
  split at h
  · cases h
  next path hp =>
    rw [addSegments_resource] at h
    exact ⟨path, hp, (Option.some.inj h).symm⟩

/-- The log resource is in the folder just where that is what is left of the path. -/
theorem base_iff {path : List (List Char)} :
    ({ own.bare with path := .segments (path ++ resourceNames) } : Url) = own.inside resourceNames ↔
      path = own.folder := by
  simp [inside, Url.bare]

theorem inside_below (names : List (List Char)) : (own.inside resourceNames).below names =
    { own.bare with
      path := .segments
        (names.foldl (Url.putName own.family) (own.folder ++ ["rest".toList, "log".toList])) } := by
  have hw : Url.withoutLastSlash (own.folder ++ resourceNames) =
      own.folder ++ ["rest".toList, "log".toList] := by
    have hr : own.folder ++ resourceNames = (own.folder ++ ["rest".toList, "log".toList]) ++ [[]] := by
      simp [resourceNames]
    rw [hr, Url.withoutLastSlash, if_pos (by simp), List.dropLast_concat]
  rw [Url.below_segments rfl, hw]
  rfl

/-- Whatever a job is called, its URL is in the folder. -/
theorem below_inside (c : Call) :
    ∃ names, endpoint (own.inside resourceNames) c =
      own.inside ("rest".toList :: "log".toList :: names) := by
  have inside {path : List (List Char)} {more : List (List Char)}
      (h : path = own.folder ++ ["rest".toList, "log".toList] ++ more) :
      ∃ names, ({ own.bare with path := .segments path } : Url) =
        own.inside ("rest".toList :: "log".toList :: names) :=
    ⟨more, by rw [h]; simp [Url.inside, Url.bare]⟩
  have word (w : List Char) (hw : Text.IsWord w) (hdot : w ≠ ['.']) (hdots : w ≠ ['.', '.']) :
      ∃ names, (own.inside resourceNames).below [w] =
        own.inside ("rest".toList :: "log".toList :: names) := by
    rw [inside_below]
    exact inside (Url.putName_word _ _ hw hdot hdots)
  have words (w name : List Char) (hw : Text.IsWord w) (hdot : w ≠ ['.']) (hdots : w ≠ ['.', '.']) :
      ∃ names, (own.inside resourceNames).below [w, name] =
        own.inside ("rest".toList :: "log".toList :: names) := by
    rw [inside_below, List.foldl_cons, Url.putName_word _ _ hw hdot hdots]
    obtain ⟨more, hm⟩ := Url.putName_grows own.family (own.folder ++ ["rest".toList, "log".toList])
      (Url.encode (Url.inSegmentSet own.family.isSpecial) w) name (by simp)
    exact inside hm
  cases c with
  | createEntry | listRecords | listRaw => exact ⟨[[]], rfl⟩
  | stopAll => exact word _ (by decide) (by decide) (by decide)
  | triggerError => exact word _ (by decide) (by decide) (by decide)
  | listJobs => exact word _ (by decide) (by decide) (by decide)
  | startJob seconds => exact words _ _ (by decide) (by decide) (by decide)
  | stopJob id => exact words _ _ (by decide) (by decide) (by decide)

theorem namesFolder_tail (ht : ∃ t ∈ text, Url.beginsTail t = true) :
    NamesFolder text own ↔ own.IsFolder := by
  have hmem : '?' ∈ text ∨ '#' ∈ text := by
    obtain ⟨t, htt, htb⟩ := ht
    simp only [Url.beginsTail, Bool.or_eq_true, beq_iff_eq] at htb
    rcases htb with rfl | rfl
    · exact .inl htt
    · exact .inr htt
  exact ⟨fun h => h.tail hmem, fun h => ⟨fun _ => h, fun hq hf => (hmem.elim hq hf).elim⟩⟩

theorem namesFolder_path (ht : ∀ t ∈ text, Url.beginsTail t = false) :
    NamesFolder text own ↔ (text.getLast? = some '\\' → own.family = .other ∨ own.IsRoot) := by
  have hq : '?' ∉ text := fun h => by cases ht _ h
  have hf : '#' ∉ text := fun h => by cases ht _ h
  exact ⟨fun h => h.path hq hf, fun h => ⟨fun hmem => (hmem.elim hq hf).elim, fun _ _ => h⟩⟩

theorem kept_iff {front : List (List Char)} (h : front = own.folder ↔ NamesFolder text own)
    (hb : base = { own.bare with path := .segments (front ++ resourceNames) }) :
    base = { own with path := base.path, query := none, fragment := none } ∧
      (Kept own base ↔ NamesFolder text own) := by
  subst hb
  refine ⟨rfl, ?_⟩
  rw [← h]
  constructor
  · intro hk
    exact base_iff.mp hk.place
  · intro hf
    have hin := base_iff.mpr hf
    exact ⟨hin, hin ▸ below_inside⟩

/-- Of a server whose text no control ends, the base keeps all but the path. It keeps the path, and what is
below it is in the folder of the server, just where the server's text names a folder. -/
theorem resolve?_kept_iff (h : resolve? server = some base)
    (hc : ∀ c, (Text.trim server.toList).getLast? = some c → 0x20 < c.toNat) :
    ∃ own, Url.parse? (Text.trim server.toList) = some own ∧
      base = { own with path := base.path, query := none, fragment := none } ∧
        (Kept own base ↔ NamesFolder (Text.trim server.toList) own) := by
  obtain ⟨root, hroot, hbase⟩ := Option.bind_eq_some_iff.mp h
  obtain ⟨path, hp, hb⟩ := replaceLast_resource hbase
  unfold folderText at hroot
  dsimp only at hroot
  generalize Text.trim server.toList = text at hroot hc ⊢
  have tails : (∃ t ∈ text, Url.beginsTail t = true) ∨ ∀ t ∈ text, Url.beginsTail t = false := by
    by_cases ht : ∃ t ∈ text, Url.beginsTail t = true
    · exact .inl ht
    · exact .inr (by simpa using ht)
  split at hroot
  next hl =>
    refine ⟨root, hroot, kept_iff ((Url.shorten_iff hp).trans ?_) hb⟩
    rcases tails with ht | ht
    · exact (namesFolder_tail ht).symm
    · rw [namesFolder_path ht]
      refine iff_of_true (fun front s hs => ?_) (by simp [hl])
      rcases Url.parse?_closed hl hroot ht hs with hnil | hlast
      · simp at hnil
      · exact .inl (by simpa using hlast)
  next hl =>
    cases hlast : text.getLast? with
    | none =>
      rw [List.getLast?_eq_none_iff.mp hlast] at hroot
      cases hroot
    | some c =>
      have outer : Url.isOuter c = false := by simpa [Url.isOuter] using hc c hlast
      rcases tails with ht | ht
      · obtain ⟨own, hown, hbare⟩ := Url.parse?_tail outer hlast hroot ht
        have hpath : own.path = .segments path :=
          (congrArg Url.path hbare : own.bare.path = root.bare.path).trans hp
        have hfam : own.family = root.family :=
          (congrArg Url.family hbare : own.bare.family = root.bare.family)
        refine ⟨own, hown, kept_iff ((Url.shorten_iff hpath).trans (namesFolder_tail ht).symm) ?_⟩
        rw [hb, hbare, hfam]
      · obtain ⟨own, hown, hf⟩ :=
          Url.parse?_followed outer hlast (fun hs => hl (hs ▸ hlast)) hroot ht ⟨path, hp⟩
        generalize hroot : root.bare = bare at hf hb
        cases hf with
        | closed path' closed folder =>
          have hpath : Url.Path.segments path = .segments path' :=
            hp.symm.trans (congrArg Url.path hroot : root.bare.path = _)
          cases hpath
          rw [Url.shorten_closed _ _ closed] at hb
          refine ⟨own, hown, kept_iff ?_ hb⟩
          rw [namesFolder_path ht]
          exact folder hl

/-- The folder `/app` goes where a query follows it, and stays where none does. A backslash behind it is
doubled, and a control, which is no part of the server's own URL, becomes part of the name. -/
theorem resolve?_kept_query :
    let site (path : List (List Char)) : Url :=
      { scheme := "http".toList, host := some (.name "logs.example".toList), path := .segments path }
    let query : Url := { site ["app".toList] with query := some "x=1".toList }
    resolve? "http://logs.example/app?x=1" = some (site resourceNames) ∧
      ¬Kept query (site resourceNames) ∧
      Kept (site ["app".toList]) (site ("app".toList :: resourceNames)) ∧
      resolve? "http://logs.example/app\\" = some (site ("app".toList :: [] :: resourceNames)) ∧
      ¬Kept (site ["app".toList, []]) (site ("app".toList :: [] :: resourceNames)) ∧
      Url.parse? "http://logs.example/app\x01".toList = some (site ["app".toList]) ∧
      resolve? "http://logs.example/app\x01" = some (site ("app%01".toList :: resourceNames)) := by
  intro site query
  have hquery : resolve? "http://logs.example/app?x=1" = some (site resourceNames) := by decide +kernel
  have happ : resolve? "http://logs.example/app" = some (site ("app".toList :: resourceNames)) := by
    decide +kernel
  have hback : resolve? "http://logs.example/app\\" = some (site ("app".toList :: [] :: resourceNames)) := by
    decide +kernel
  have ends {text : List Char} {last : Char} (hl : text.getLast? = some last) (h : 0x20 < last.toNat) :
      ∀ c, text.getLast? = some c → 0x20 < c.toNat := fun c hc => by
    rw [hl] at hc
    cases hc
    exact h
  refine ⟨hquery, fun hkept => ?_, ?_, hback, fun hkept => ?_, by decide +kernel, by decide +kernel⟩
  · obtain ⟨own, hown, -, hk⟩ := resolve?_kept_iff hquery (ends rfl (by decide))
    obtain rfl : own = query := Option.some.inj (hown.symm.trans (by decide +kernel))
    have hf := (hk.mp hkept).tail (by decide) [] "app".toList rfl
    revert hf
    decide
  · obtain ⟨own, hown, -, hk⟩ := resolve?_kept_iff happ (ends rfl (by decide))
    obtain rfl : own = site ["app".toList] := Option.some.inj (hown.symm.trans (by decide +kernel))
    exact hk.mpr ⟨fun h => absurd h (by decide), fun _ _ h => absurd h (by decide)⟩
  · obtain ⟨own, hown, -, hk⟩ := resolve?_kept_iff hback (ends rfl (by decide))
    obtain rfl : own = site ["app".toList, []] := Option.some.inj (hown.symm.trans (by decide +kernel))
    rcases (hk.mp hkept).path (by decide) (by decide) (by decide) with ho | ⟨hf, -⟩
    · revert ho
      decide
    · revert hf
      decide

end Api

end LogDesk
