import LogDesk.Api.Call
import LogDesk.Proofs.Command

/-! The resources below the log resource, by the segments that their names put behind its path. The
names `.` and `..` put none, so that a job of such a name is stopped together with all others. -/

namespace LogDesk

namespace Url

theorem below_segments {u : Url} {path : List (List Char)} (h : u.path = .segments path)
    (names : List (List Char)) :
    u.below names = { u with path := .segments (names.foldl (putName u.family) (withoutLastSlash path)) } := by
  rw [below, h]

theorem putName_dots (f : Family) (path : List (List Char)) {name : List Char}
    (h : name = ['.'] ∨ name = ['.', '.']) : putName f path name = path := by
  rcases h with rfl | rfl <;> rfl

/-- A name without tabs and line ends that is not made of dots is one segment, encoded. -/
theorem putName_named (f : Family) (path : List (List Char)) {name : List Char}
    (h : ∀ c ∈ name, c ≠ '\t' ∧ c ≠ '\n' ∧ c ≠ '\r') (hdot : name ≠ ['.']) (hdots : name ≠ ['.', '.']) :
    putName f path name = path ++ [encode (inSegmentSet f.isSpecial) name] := by
  have hfilter : name.filter (fun c => c != '\t' && c != '\n' && c != '\r') = name := by
    refine List.filter_eq_self.mpr fun c hc => ?_
    obtain ⟨ht, hn, hr⟩ := h c hc
    simp [ht, hn, hr]
  have hname : (decide (name = ['.']) || decide (name = ['.', '.'])) = false := by simp [hdot, hdots]
  rw [putName, hname, hfilter]
  simp [hdot, hdots]

theorem putName_word (f : Family) (path : List (List Char)) {w : List Char} (h : Text.IsWord w)
    (hdot : w ≠ ['.']) (hdots : w ≠ ['.', '.']) :
    putName f path w = path ++ [encode (inSegmentSet f.isSpecial) w] := by
  refine putName_named f path (fun c hc => ?_) hdot hdots
  have hc : Text.isBlank c = false := h.2 c hc
  refine ⟨?_, ?_, ?_⟩ <;> rintro rfl <;> exact absurd hc (by decide)

theorem replaceLast_segments {u v : Url} {names : List (List Char)} (h : u.replaceLast names = some v) :
    ∃ path, v.path = .segments path := by
  unfold replaceLast at h
  split at h
  · cases h
  · cases h
    exact ⟨_, rfl⟩

end Url

namespace Api

theorem resolve?_segments {server : String} {base : Url} (h : resolve? server = some base) :
    ∃ path, base.path = .segments path := by
  obtain ⟨root, -, hr⟩ := Option.bind_eq_some_iff.mp h
  exact Url.replaceLast_segments hr

/-- The request of a call that has no body. -/
theorem request_plain (base : Url) {c : Call} (h : ∀ form, c ≠ .createEntry form) :
    request base c =
      { method := method c, url := withoutUser (endpoint base c),
        authorization := authorization? (endpoint base c) } := by
  cases c with
  | createEntry form => exact absurd rfl (h form)
  | _ => rfl

theorem stopAll_path {base : Url} {path : List (List Char)} (h : base.path = .segments path) :
    (request base .stopAll).url.path =
      .segments (Url.putName base.family (Url.withoutLastSlash path) "stop".toList) := by
  have hend : endpoint base .stopAll = base.below ["stop".toList] := rfl
  rw [request_plain base (by simp), hend, Url.below_segments h]
  rfl

/-- The request that stops a job goes to a segment of the job's own, below what stops all. -/
theorem stopJob_path {base : Url} {path : List (List Char)} (h : base.path = .segments path)
    {id : String} (hid : Text.IsWord id.toList) (hdot : id ≠ ".") (hdots : id ≠ "..") :
    (request base (.stopJob id)).url.path =
      .segments (Url.putName base.family (Url.withoutLastSlash path) "stop".toList ++
        [Url.encode (Url.inSegmentSet base.family.isSpecial) id.toList]) := by
  have hw : id.toList ≠ ['.'] := fun h' => hdot (String.toList_injective h')
  have hws : id.toList ≠ ['.', '.'] := fun h' => hdots (String.toList_injective h')
  have hend : endpoint base (.stopJob id) = base.below ["stop".toList, id.toList] := rfl
  rw [request_plain base (by simp), hend, Url.below_segments h, ← Url.putName_word _ _ hid hw hws]
  rfl

theorem stopJob_dots {base : Url} {path : List (List Char)} (h : base.path = .segments path)
    {id : String} (hid : id = "." ∨ id = "..") :
    request base (.stopJob id) = request base .stopAll := by
  have hend : endpoint base (.stopJob id) = endpoint base .stopAll := by
    have hdots : id.toList = ['.'] ∨ id.toList = ['.', '.'] := by
      rcases hid with rfl | rfl
      · exact .inl rfl
      · exact .inr rfl
    simp only [endpoint, names, Url.below_segments h, List.foldl_cons, List.foldl_nil,
      Url.putName_dots _ _ hdots]
  rw [request_plain base (by simp), request_plain base (by simp), hend]
  rfl

/-- A job that a typed line names is stopped together with all others just where its name is one dot
or two. -/
theorem stopJob_eq_stopAll_iff {line : List Char} {id server : String} {base : Url}
    (hl : Command.parse line = .ok (.event (.stopJob id))) (hb : resolve? server = some base) :
    request base (.stopJob id) = request base .stopAll ↔ id = "." ∨ id = ".." := by
  obtain ⟨path, hp⟩ := resolve?_segments hb
  obtain ⟨w, hw, rfl⟩ := Command.ofWords_stopJob hl
  have hid : Text.IsWord (String.ofList w).toList := by
    rw [String.toList_ofList]
    exact Text.isWord_of_mem_words hw
  constructor
  · intro h
    by_contra hne
    have hj := stopJob_path hp hid (fun h' => hne (.inl h')) (fun h' => hne (.inr h'))
    rw [h, stopAll_path hp] at hj
    simpa using congrArg List.length (Url.Path.segments.inj hj)
  · exact stopJob_dots hp

/-- To stop the job `.` stops every job, while the job `j` is stopped alone. -/
theorem stopJob_eq_stopAll_dot : ∃ base, resolve? "http://logs.example/" = some base ∧
    Command.parse "stop .".toList = .ok (.event (.stopJob ".")) ∧
    request base (.stopJob ".") = request base .stopAll ∧
    request base (.stopJob "j") ≠ request base .stopAll := by
  obtain ⟨base, hb⟩ : ∃ base, resolve? "http://logs.example/" = some base :=
    Option.isSome_iff_exists.mp (by decide +kernel)
  have hdot : Command.parse "stop .".toList = .ok (.event (.stopJob ".")) := rfl
  have hj : Command.parse "stop j".toList = .ok (.event (.stopJob "j")) := rfl
  exact ⟨base, hb, hdot, (stopJob_eq_stopAll_iff hdot hb).mpr (.inl rfl),
    fun h => absurd ((stopJob_eq_stopAll_iff hj hb).mp h) (by decide)⟩

end Api

end LogDesk
