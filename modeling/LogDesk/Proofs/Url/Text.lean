import LogDesk.Proofs.Url.Folder

/-! The text of a URL as its scheme, its hierarchy, and the query and fragment behind that, and where a
slash goes that is put behind the text. -/

namespace LogDesk.Url

def isOuter (c : Char) : Bool := c.toNat ≤ 0x20

def isInner (c : Char) : Bool := c != '\t' && c != '\n' && c != '\r'

theorem clean_eq (cs : List Char) :
    clean cs = ((cs.dropWhile isOuter).rdropWhile isOuter).filter isInner := rfl

theorem isInner_of_outer {c : Char} (h : isOuter c = false) : isInner c = true := by
  have hne (d : Char) (hd : isOuter d = true) : c ≠ d := fun hc => by
    rw [hc, hd] at h
    cases h
  simp [isInner, hne '\t' rfl, hne '\n' rfl, hne '\r' rfl]

theorem mem_dropWhile {p : Char → Bool} {c : Char} (hc : p c = false) (cs : List Char) :
    c ∈ cs.dropWhile p ↔ c ∈ cs := by
  induction cs with
  | nil => rfl
  | cons d cs ih =>
    rw [List.dropWhile_cons]
    split
    next hd =>
      have hne : c ≠ d := fun h => by rw [h, hd] at hc; cases hc
      simp [ih, hne]
    next => rfl

/-- Only controls and spaces are cleaned away. -/
theorem mem_clean {c : Char} (hc : isOuter c = false) (cs : List Char) : c ∈ clean cs ↔ c ∈ cs := by
  rw [clean_eq, List.mem_filter, List.rdropWhile, List.mem_reverse, mem_dropWhile hc, List.mem_reverse,
    mem_dropWhile hc]
  exact and_iff_left (isInner_of_outer hc)

theorem clean_concat {cs : List Char} {c : Char} (hc : isOuter c = false) (hcs : cs.getLast? = some c) :
    clean (cs ++ ['/']) = clean cs ++ ['/'] ∧ (clean cs).getLast? = some c := by
  have hmem : cs.dropWhile isOuter ≠ [] :=
    List.ne_nil_of_mem ((mem_dropWhile hc cs).mpr (List.mem_of_getLast? hcs))
  obtain ⟨front, hf⟩ := List.getLast?_eq_some_iff.mp ((getLast?_dropWhile hmem).trans hcs)
  have hr (c : Char) (hc : isOuter c = false) (cs : List Char) :
      (cs ++ [c]).rdropWhile isOuter = cs ++ [c] :=
    List.rdropWhile_concat_neg _ _ _ (by simp [hc])
  rw [clean_eq, clean_eq, List.dropWhile_append, if_neg (by simpa using hmem), hr '/' rfl, hf, hr c hc]
  simp [isInner_of_outer hc, isInner_of_outer (c := '/') rfl]

theorem readScheme_concat {cs rest : List Char} {scheme : List Char}
    (h : readScheme (cs ++ ['/']) = some (scheme, rest)) :
    ∃ rest', readScheme cs = some (scheme, rest') ∧ rest = rest' ++ ['/'] := by
  have hs : isSchemeChar '/' = false := by decide
  unfold readScheme at h ⊢
  rw [takeWhile_concat hs, dropWhile_concat hs] at h
  cases hd : cs.dropWhile isSchemeChar with
  | nil => simp [hd] at h
  | cons c rest' =>
    by_cases hc : c = ':'
    · subst hc
      simp only [hd, List.cons_append] at h ⊢
      split at h
      next hl =>
        obtain ⟨rfl, rfl⟩ := Prod.mk.inj (Option.some.inj h)
        exact ⟨rest', by rw [if_pos hl], rfl⟩
      next => cases h
    · simp [hd, hc] at h

/-- What precedes the hierarchy is a scheme and a colon. -/
theorem readScheme_eq {cs rest : List Char} {scheme : List Char}
    (h : readScheme cs = some (scheme, rest)) :
    ∃ name : List Char, cs = name ++ ':' :: rest ∧ ∀ c ∈ name, isSchemeChar c = true := by
  unfold readScheme at h
  split at h
  next rest' hd =>
    dsimp only at h
    split at h
    · obtain ⟨-, rfl⟩ := Prod.mk.inj (Option.some.inj h)
      refine ⟨cs.takeWhile isSchemeChar, ?_, fun c hc => List.mem_takeWhile_imp hc⟩
      rw [← hd, List.takeWhile_append_dropWhile]
    · cases h
  next => cases h

def bare (u : Url) : Url := { u with query := none, fragment := none }

def beginsTail (c : Char) : Bool := c == '?' || c == '#'

def hierarchy (rest : List Char) : List Char := rest.takeWhile (!beginsTail ·)

theorem cutAt_fst (sep : Char) (cs : List Char) : (cutAt sep cs).1 = cs.takeWhile (· != sep) := by
  unfold cutAt
  split
  next h =>
    have hcs := List.takeWhile_append_dropWhile (p := (· != sep)) (l := cs)
    rw [h, List.append_nil] at hcs
    exact hcs.symm
  next => rfl

theorem cutAt_hierarchy (rest : List Char) : (cutAt '?' (cutAt '#' rest).1).1 = hierarchy rest := by
  rw [cutAt_fst, cutAt_fst, List.takeWhile_takeWhile, hierarchy]
  congr 1
  funext c
  by_cases hq : c = '?' <;> by_cases hf : c = '#' <;> simp [beginsTail, hq, hf]

/-- Only the hierarchy bears on what a URL is without its query and fragment. -/
theorem parse?_bare (text : List Char) :
    (parse? text).map bare = (readScheme (clean text)).bind fun x =>
      (readHierarchy x.1 (hierarchy x.2)).map bare := by
  unfold parse?
  cases readScheme (clean text) with
  | none => rfl
  | some x =>
    simp only [Option.bind_eq_bind, Option.bind_some, cutAt_hierarchy]
    cases readHierarchy x.1 (hierarchy x.2) <;> rfl

theorem hierarchy_self {rest : List Char} (h : ∀ c ∈ rest, beginsTail c = false) : hierarchy rest = rest :=
  List.takeWhile_eq_self_iff.mpr fun c hc => by simp [h c hc]

/-- What is put behind a query or a fragment is part of that. -/
theorem hierarchy_tail {rest : List Char} {c : Char} (h : c ∈ rest) (hc : beginsTail c = true)
    (more : List Char) : hierarchy (rest ++ more) = hierarchy rest := by
  unfold hierarchy
  rw [List.takeWhile_append, if_neg]
  intro hlen
  have hall := (List.takeWhile_prefix (p := (!beginsTail ·)) (l := rest)).eq_of_length hlen
  have := List.takeWhile_eq_self_iff.mp hall c h
  simp [hc] at this

variable {text : List Char} {c : Char} {u : Url}

/-- A scheme, and a hierarchy that goes on to the end of the text or to its query or fragment. -/
theorem readScheme_tail {scheme rest : List Char} (hs : readScheme (clean text) = some (scheme, rest)) :
    (∃ c ∈ text, beginsTail c = true) ↔ ∃ c ∈ rest, beginsTail c = true := by
  obtain ⟨name, hclean, hname⟩ := readScheme_eq hs
  have outer {c : Char} (hc : beginsTail c = true) : isOuter c = false := by
    simp only [beginsTail, Bool.or_eq_true, beq_iff_eq] at hc
    rcases hc with rfl | rfl <;> rfl
  have early {c : Char} (hc : beginsTail c = true) : c ∉ name ∧ c ≠ ':' := by
    simp only [beginsTail, Bool.or_eq_true, beq_iff_eq] at hc
    rcases hc with rfl | rfl
    all_goals exact ⟨fun h => by have := hname _ h; revert this; decide, by decide⟩
  refine exists_congr fun c => and_congr_left fun hc => ?_
  rw [← mem_clean (outer hc), hclean]
  simp [early hc]

theorem readScheme_last {scheme rest : List Char} (hs : readScheme (clean text) = some (scheme, rest))
    (hl : (clean text).getLast? = some c) : rest = [] ∧ c = ':' ∨ rest.getLast? = some c := by
  obtain ⟨name, hclean, -⟩ := readScheme_eq hs
  rw [hclean] at hl
  cases rest with
  | nil => simpa [eq_comm] using hl
  | cons d rest => simpa using hl

theorem parse?_read {scheme rest : List Char} {v : Url} (hs : readScheme (clean text) = some (scheme, rest))
    (hv : readHierarchy scheme (hierarchy rest) = some v) :
    ∃ own, parse? text = some own ∧ own.bare = v.bare := by
  apply Option.map_eq_some_iff.mp
  rw [parse?_bare, hs, Option.bind_some, hv]
  rfl

theorem read_of_parse? (h : parse? text = some u) : ∃ scheme rest v,
    readScheme (clean text) = some (scheme, rest) ∧ readHierarchy scheme (hierarchy rest) = some v ∧
      v.bare = u.bare := by
  have hu := congrArg (Option.map bare) h
  rw [parse?_bare] at hu
  obtain ⟨⟨scheme, rest⟩, hs, hu⟩ := Option.bind_eq_some_iff.mp hu
  obtain ⟨v, hv, hvu⟩ := Option.map_eq_some_iff.mp hu
  exact ⟨scheme, rest, v, hs, hv, hvu⟩

/-- Behind a text that no control ends, a slash stands behind what follows the scheme. -/
theorem read_slash (hc : isOuter c = false) (hl : text.getLast? = some c)
    (h : parse? (text ++ ['/']) = some u) : ∃ scheme rest v,
    readScheme (clean text) = some (scheme, rest) ∧
      readHierarchy scheme (hierarchy (rest ++ ['/'])) = some v ∧ v.bare = u.bare := by
  obtain ⟨scheme, rest', v, hs', hv, hvu⟩ := read_of_parse? h
  rw [(clean_concat hc hl).1] at hs'
  obtain ⟨rest, hs, rfl⟩ := readScheme_concat hs'
  exact ⟨scheme, rest, v, hs, hv, hvu⟩

/-- Behind a query or a fragment, a slash does nothing to the path. -/
theorem parse?_tail (hc : isOuter c = false) (hl : text.getLast? = some c)
    (h : parse? (text ++ ['/']) = some u) (ht : ∃ t ∈ text, beginsTail t = true) :
    ∃ own, parse? text = some own ∧ own.bare = u.bare := by
  obtain ⟨scheme, rest, v, hs, hv, hvu⟩ := read_slash hc hl h
  obtain ⟨t, htr, htb⟩ := (readScheme_tail hs).mp ht
  rw [hierarchy_tail htr htb] at hv
  obtain ⟨own, hown, hb⟩ := parse?_read hs hv
  exact ⟨own, hown, hb.trans hvu⟩

theorem Followed.bare {rest : List Char} {own : Url} (h : Followed rest own u)
    (hr : rest = [] ∧ text.getLast? ≠ some '\\' ∨ rest.getLast? = text.getLast?) :
    Followed text own.bare u.bare := by
  cases h with
  | closed path last folder =>
    refine .closed path last fun hs => ?_
    rcases hr with ⟨rfl, hn⟩ | hr
    · exact iff_of_true ((folder (by simp)).mpr (by simp)) fun h => absurd h hn
    · rw [← hr] at hs ⊢
      exact folder hs

theorem no_tail {scheme rest : List Char} (hs : readScheme (clean text) = some (scheme, rest))
    (ht : ∀ t ∈ text, beginsTail t = false) : hierarchy rest = rest := by
  refine hierarchy_self fun t htr => ?_
  by_contra htb
  obtain ⟨t, htt, htb⟩ := (readScheme_tail hs).mpr ⟨t, htr, by simpa using htb⟩
  rw [ht t htt] at htb
  cases htb

theorem hierarchy_concat {rest : List Char} (h : hierarchy rest = rest) :
    hierarchy (rest ++ ['/']) = rest ++ ['/'] := by
  refine hierarchy_self fun t ht => ?_
  rcases List.mem_append.mp ht with ht | ht
  · rw [hierarchy, List.takeWhile_eq_self_iff] at h
    simpa using h t ht
  · rw [List.mem_singleton.mp ht]
    rfl

/-- Behind a path, a slash closes it. -/
theorem parse?_followed (hc : isOuter c = false) (hl : text.getLast? = some c) (hne : c ≠ '/')
    (h : parse? (text ++ ['/']) = some u) (ht : ∀ t ∈ text, beginsTail t = false)
    (hp : ∃ path, u.path = .segments path) :
    ∃ own, parse? text = some own ∧ Followed text own.bare u.bare := by
  obtain ⟨scheme, rest, v, hs, hv, hvu⟩ := read_slash hc hl h
  have hrest := no_tail hs ht
  have hlast := readScheme_last hs (clean_concat hc hl).2
  rw [hierarchy_concat hrest] at hv
  have hpath : v.bare.path = u.bare.path := by rw [hvu]
  obtain ⟨own', hown', hf⟩ := readHierarchy_followed hv (hp.imp fun _ => hpath.trans) fun _ hslash => by
    simp [hslash, hne.symm] at hlast
  rw [← hrest] at hown'
  obtain ⟨own, hown, hb⟩ := parse?_read hs hown'
  refine ⟨own, hown, ?_⟩
  rw [hb, ← hvu]
  refine hf.bare ?_
  rcases hlast with ⟨hnil, rfl⟩ | hlast
  · exact .inl ⟨hnil, by simp [hl]⟩
  · exact .inr (hlast.trans hl.symm)

/-- A path that a slash ends is closed. -/
theorem parse?_closed (hl : text.getLast? = some '/') (h : parse? text = some u)
    (ht : ∀ t ∈ text, beginsTail t = false) {path : List (List Char)} (hp : u.path = .segments path) :
    path = [] ∨ path.getLast? = some [] := by
  obtain ⟨scheme, rest', v, hs, hv, hvu⟩ := read_of_parse? h
  have hpath : v.bare.path = u.bare.path := by rw [hvu]
  replace hpath : v.path = .segments path := hpath.trans hp
  rw [no_tail hs ht] at hv
  have hlast := (readScheme_last hs (clean_concat rfl hl).2).resolve_left (by simp)
  obtain ⟨rest, rfl⟩ := List.getLast?_eq_some_iff.mp hlast
  by_cases hc : familyOf scheme = .other ∧ rest = ['/']
  · obtain ⟨hother, rfl⟩ := hc
    unfold readHierarchy at hv
    rw [hother] at hv
    obtain ⟨w, -, rfl⟩ := Option.map_eq_some_iff.mp hv
    exact .inl (Path.segments.inj hpath).symm
  · obtain ⟨own, -, hf⟩ := readHierarchy_followed hv ⟨path, hpath⟩ fun ho hr => hc ⟨ho, hr⟩
    cases hf with
    | closed path' last =>
      cases hpath
      exact .inr last

end LogDesk.Url
