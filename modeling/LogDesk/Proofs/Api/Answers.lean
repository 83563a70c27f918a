import LogDesk.Service
import LogDesk.Proofs.Text.Utf8

/-! What becomes of calls, whatever the server answers: `Remote.answered`. Each call sends one request and takes
one reply, and `Api.Told` says what it makes of it. -/

namespace LogDesk

namespace Api

variable {c : Call}

/-- The calls that have no result. -/
inductive Mute : Call → Prop
  | triggerError : Mute .triggerError
  | createEntry (form : EntryForm) : Mute (.createEntry form)
  | stopJob (id : String) : Mute (.stopJob id)

/-- A body that says the result of a call, of the type that it has. -/
def Decodes : (c : Call) → List UInt8 → c.Answer → Prop
  | .stopAll, body, jobs => parseMany StopOutcome.read body = .ok jobs
  | .startJob _, body, job => parseOne StartedJob.read body = .ok job
  | .listRecords, body, records => parseMany Record.read body = .ok records
  | .listRaw, body, v => Json.Value.parse body = .ok v
  | .listJobs, body, jobs => parseMany RunningJob.read body = .ok jobs
  | .triggerError, _, _ | .createEntry _, _, _ | .stopJob _, _, _ => False

def Fails (o : c.Outcome) (status : Nat) (word : String) : Prop :=
  ∃ e : ApiError, o = .error e ∧ e.report.status = status ∧ e.report.word = word

/-- A reply as it arrives. Some statuses have no body, so that nothing of it can be missing. -/
def Reply.arrived : Reply → Reply
  | .answer status body whole =>
    if status = 204 ∨ status = 304 then .answer status [] true else .answer status body whole
  | reply => reply

/-- The text of a body in an error. A text stands there as it is, but for a mark of its byte order. -/
inductive ErrorText : (body : List UInt8) → (whole : Bool) → String → Prop
  | broken {body} : ErrorText body false "<unreadable body>"
  | text {cs} : cs.head? ≠ some '\uFEFF' → ErrorText (Text.utf8 cs) true (String.ofList cs)
  | marked {cs} : ErrorText (Text.utf8 ('\uFEFF' :: cs)) true (String.ofList cs)
  | garbled {body} : (∀ cs, body ≠ Text.utf8 cs) → ErrorText body true (bodyText body)

inductive Told (c : Call) : Reply → c.Outcome → Prop
  | closed {o} : Fails o 0 "error" → Told c .closed o
  | hung {o} : Fails o 0 "timeout" → Told c .hung o
  | refused {status body whole text o} : ¬ (200 ≤ status ∧ status ≤ 299) → ErrorText body whole text →
      o = .error (.status status text) → Fails o status "error" → Told c (.answer status body whole) o
  | done {status body whole a} : 200 ≤ status ∧ status ≤ 299 → Mute c →
      Told c (.answer status body whole) (.ok a)
  | decoded {status body a} : 200 ≤ status ∧ status ≤ 299 → ¬ Mute c → Decodes c body a →
      Told c (.answer status body true) (.ok a)
  | undecodable {status body whole o} : 200 ≤ status ∧ status ≤ 299 → ¬ Mute c →
      ¬ (whole = true ∧ ∃ a, Decodes c body a) → Fails o 0 "parsererror" →
      Told c (.answer status body whole) o

variable {base : Url} {status : Nat}

theorem isSuccess_iff : isSuccess status = true ↔ 200 ≤ status ∧ status ≤ 299 := by
  simp [isSuccess]

theorem isBodyless_iff : isBodyless status = true ↔ status = 204 ∨ status = 304 := by
  simp [isBodyless]

theorem bodyText_utf8 {cs : List Char} (h : cs.head? ≠ some '\uFEFF') :
    bodyText (Text.utf8 cs) = String.ofList cs := by
  rw [bodyText, Text.ofUtf8Lossy_utf8]
  split
  · exact absurd rfl h
  · rfl

theorem errorText (body : List UInt8) (whole : Bool) :
    ErrorText body whole (if whole then bodyText body else "<unreadable body>") := by
  cases whole with
  | false => exact .broken
  | true =>
    by_cases h : ∃ cs, body = Text.utf8 cs
    · obtain ⟨cs, rfl⟩ := h
      by_cases hmark : cs.head? = some '\uFEFF'
      · obtain ⟨cs, rfl⟩ := List.head?_eq_some_iff.mp hmark
        have hb : bodyText (Text.utf8 ('\uFEFF' :: cs)) = String.ofList cs := by
          rw [bodyText, Text.ofUtf8Lossy_utf8]
          rfl
        rw [if_pos rfl, hb]
        exact .marked
      · rw [if_pos rfl, bodyText_utf8 hmark]
        exact .text hmark
    · exact .garbled fun cs he => h ⟨cs, he⟩

theorem readsBody_iff : readsBody c = true ↔ ¬ Mute c := by
  cases c with
  | triggerError => exact ⟨nofun, fun h => (h .triggerError).elim⟩
  | createEntry form => exact ⟨nofun, fun h => (h (.createEntry form)).elim⟩
  | stopJob id => exact ⟨nofun, fun h => (h (.stopJob id)).elim⟩
  | _ => exact ⟨fun _ => nofun, fun _ => rfl⟩

theorem undecodable_cases {α : Type} (x : Json.Reading α) :
    (∃ a, x = .ok a ∧ undecodable x = .ok a) ∨
      (∀ a, x ≠ .ok a) ∧ undecodable x = .error (.request .undecodable) := by
  cases x with
  | ok a => exact .inl ⟨a, rfl, rfl⟩
  | error e => exact .inr ⟨nofun, rfl⟩

/-- A call with a result reads the whole body, or fails. -/
theorem readBody_cases (h : ¬ Mute c) (body : List UInt8) :
    (∃ a, Decodes c body a ∧ readBody body c = .ok a) ∨
      (∀ a, ¬ Decodes c body a) ∧ readBody body c = .error (.request .undecodable) := by
  cases c with
  | triggerError => exact absurd .triggerError h
  | createEntry form => exact absurd (.createEntry form) h
  | stopJob id => exact absurd (.stopJob id) h
  | _ => exact undecodable_cases _

theorem told_answer (c : Call) (status : Nat) (body : List UInt8) (whole : Bool) :
    Told c (.answer status body whole) (readAnswer status body whole c) := by
  unfold readAnswer
  by_cases hs : isSuccess status = true
  · have hstatus := isSuccess_iff.mp hs
    rw [if_pos hs]
    by_cases hm : Mute c
    · have hreads : readsBody c = false := Bool.eq_false_iff.mpr fun hr => readsBody_iff.mp hr hm
      rw [hreads]
      cases hm <;> exact .done hstatus (by constructor)
    · rw [readsBody_iff.mpr hm]
      cases whole with
      | false => exact .undecodable hstatus hm (by simp) ⟨_, rfl, rfl, rfl⟩
      | true =>
        obtain ⟨a, hd, ho⟩ | ⟨hd, ho⟩ := readBody_cases hm body
        · simp only [Bool.not_true, Bool.and_false, Bool.false_eq_true, if_false, ho]
          exact .decoded hstatus hm hd
        · simp only [Bool.not_true, Bool.and_false, Bool.false_eq_true, if_false, ho]
          exact .undecodable hstatus hm (fun ⟨_, a, ha⟩ => hd a ha) ⟨_, rfl, rfl, rfl⟩
  · rw [if_neg hs]
    exact .refused (fun h => hs (isSuccess_iff.mpr h)) (errorText body whole) rfl ⟨_, rfl, rfl, rfl⟩

theorem isHttp_endpoint (base : Url) (c : Call) : isHttp (withoutUser (endpoint base c)) = isHttp base := by
  have hbelow (names : List (List Char)) : (base.below names).scheme = base.scheme := by
    unfold Url.below
    split <;> rfl
  have hscheme : (endpoint base c).scheme = base.scheme := by
    unfold endpoint
    split
    · rfl
    · exact hbelow _
  rw [isHttp, withoutUser, hscheme, isHttp]

/-- How a call ends, by the reply to its request. -/
theorem told_outcome (hb : isHttp base = true) (c : Call) (reply : Reply) :
    Told c reply.arrived (outcome base c reply) := by
  unfold outcome
  simp only [isHttp_endpoint, hb]
  cases reply with
  | closed => exact .closed ⟨_, rfl, rfl, rfl⟩
  | hung => exact .hung ⟨_, rfl, rfl, rfl⟩
  | answer status body whole =>
    dsimp only [Reply.arrived]
    by_cases hn : isBodyless status = true
    · rw [if_pos (isBodyless_iff.mp hn), hn]
      exact told_answer c status [] true
    · rw [if_neg fun h => hn (isBodyless_iff.mpr h), Bool.eq_false_iff.mpr hn]
      exact told_answer c status body whole

theorem outcome_unsent (hb : isHttp base = false) (c : Call) (reply : Reply) :
    Fails (outcome base c reply) 0 "error" := by
  unfold outcome
  simp only [isHttp_endpoint, hb]
  exact ⟨_, rfl, rfl, rfl⟩

end Api

namespace Remote

def askAll (s : Remote) : List Call → Remote × List ((c : Call) × c.Outcome)
  | [] => (s, [])
  | c :: cs =>
    let (s', o, _) := s.ask c
    let (s'', os) := s'.askAll cs
    (s'', ⟨c, o⟩ :: os)

/-- The reply to the request that is sent after `i` others. -/
def replyTo (s : Remote) (i : Nat) : Api.Reply := s.replies[i]?.getD s.otherwise

variable {s : Remote}

theorem send_base (s : Remote) (c : Call) : (s.send c).base = s.base := by
  unfold send
  split <;> rfl

theorem send_requests (hb : Api.isHttp s.base = true) (c : Call) :
    (s.send c).requests = Api.request s.base c :: s.requests := by
  rw [send, if_pos hb]

/-- A request takes one reply. -/
theorem send_replyTo (hb : Api.isHttp s.base = true) (c : Call) (i : Nat) :
    (s.send c).replyTo i = s.replyTo (i + 1) := by
  rw [send, if_pos hb, replyTo, replyTo, List.getElem?_drop, Nat.add_comm]

theorem answered_http (hb : Api.isHttp s.base = true) (cs : List Call) :
    (s.askAll cs).1.requests = (cs.map (Api.request s.base)).reverse ++ s.requests ∧
      ∀ i o, (s.askAll cs).2[i]? = some o → Api.Told o.1 (s.replyTo i).arrived o.2 := by
  induction cs generalizing s with
  | nil => exact ⟨rfl, nofun⟩
  | cons c cs ih =>
    -- The calls after the first find the server one reply further.
    have hbase := send_base s c
    obtain ⟨hrequests, htold⟩ := ih (s := s.send c) (hbase ▸ hb)
    constructor
    · rw [List.map_cons, List.reverse_cons, List.append_assoc, List.singleton_append, ← send_requests hb c,
        ← hbase]
      exact hrequests
    · intro i o ho
      cases i with
      | zero =>
        obtain rfl := Option.some.inj ho
        have hreply : s.replies.head?.getD s.otherwise = s.replyTo 0 := by
          rw [replyTo, List.head?_eq_getElem?]
        rw [← hreply]
        exact Api.told_outcome hb c _
      | succ i =>
        rw [← send_replyTo hb c]
        exact htold i o ho

theorem answered_unsent (hb : Api.isHttp s.base = false) (cs : List Call) :
    (s.askAll cs).1.requests = s.requests ∧ ∀ o ∈ (s.askAll cs).2, Api.Fails o.2 0 "error" := by
  have hsend (c : Call) : s.send c = s := if_neg (by simp [hb])
  induction cs with
  | nil => exact ⟨rfl, nofun⟩
  | cons c cs ih =>
    have hall : s.askAll (c :: cs) = ((s.askAll cs).1, ⟨c, (s.ask c).2.1⟩ :: (s.askAll cs).2) := by
      rw [askAll, ask, hsend]
    rw [hall]
    exact ⟨ih.1, List.forall_mem_cons.mpr ⟨Api.outcome_unsent hb c _, ih.2⟩⟩

theorem askAll_calls (s : Remote) (cs : List Call) : (s.askAll cs).2.map (·.1) = cs := by
  induction cs generalizing s with
  | nil => rfl
  | cons c cs ih => exact congrArg (c :: ·) (ih (s.send c))

/-- Every call to an HTTP server sends its request, once, and ends as the reply to that request says, whatever the
calls before it were told. To any other server no request is sent, and every call fails. -/
theorem answered (s : Remote) (cs : List Call) :
    (s.askAll cs).2.map (·.1) = cs ∧
      (Api.isHttp s.base = true →
        (s.askAll cs).1.requests = (cs.map (Api.request s.base)).reverse ++ s.requests ∧
          ∀ i o, (s.askAll cs).2[i]? = some o → Api.Told o.1 (s.replyTo i).arrived o.2) ∧
      (Api.isHttp s.base = false →
        (s.askAll cs).1.requests = s.requests ∧ ∀ o ∈ (s.askAll cs).2, Api.Fails o.2 0 "error") :=
  ⟨askAll_calls s cs, fun hb => answered_http hb cs, fun hb => answered_unsent hb cs⟩

end Remote

end LogDesk
