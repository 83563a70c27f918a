import LogDesk.Console
import LogDesk.Proofs.Json.Faithful

/-! The panel of raw JSON: what it shows is read as what the server sent, `Console.rawJson_faithful`. -/

namespace LogDesk.Console

open Json Text

variable {ς σ : Type} [LogService ς]

/-- The answer of an HTTP server whose body is read as a value is shown as the text of this value. -/
theorem listRaw_shown {text : List UInt8} {v : Value} (h : Value.parse text = .ok v) {base : Url}
    (hb : Api.isHttp base = true) {status : Nat} (hs : Api.isSuccess status = true)
    (hn : Api.isBodyless status = false) (t : Turn) (d : Desk ς σ) :
    onAnswer t d .listRaw (Api.outcome base .listRaw (.answer status text true)) =
      finish (d.display t (.showRawJson (v.pretty "\t"))) := by
  have hu : Api.isHttp (Api.withoutUser (Api.endpoint base .listRaw)) = true := hb
  have ho : Api.outcome base .listRaw (.answer status text true) = .ok v := by
    unfold Api.outcome
    simp only [hu, hn]
    unfold Api.readAnswer
    simp [hs, Api.readBody, h, Api.undecodable]
  rw [ho]
  rfl

/-- The text that is shown of a value whose numbers are integers is read as this value, with its members in
order, so it is the same text that is printed of what is read. -/
theorem rawJson_faithful {text : List UInt8} {v : Value} (h : Value.parse text = .ok v) (hi : Integral v) :
    Value.parse (utf8 (v.pretty "\t").toList) = .ok v ∧
      (Value.parse (utf8 (v.pretty "\t").toList)).map (·.pretty "\t") = .ok (v.pretty "\t") ∧
      ∀ base status, Api.isHttp base = true → Api.isSuccess status = true → Api.isBodyless status = false →
        ∀ (t : Turn) (d : Desk ς σ),
          onAnswer t d .listRaw (Api.outcome base .listRaw (.answer status text true)) =
            finish (d.display t (.showRawJson (v.pretty "\t"))) := by
  have hp : Value.parse (utf8 (v.pretty "\t").toList) = .ok v := by
    rw [Value.pretty, String.toList_ofList]
    exact parse_print h hi tab_blank
  exact ⟨hp, by rw [hp]; rfl, fun _ _ hb hs hn t d => listRaw_shown h hb hs hn t d⟩

/-- A name that comes twice is merged where it stood first, and then stays as it is. -/
theorem rawJson_faithful_merged :
    Value.parse (utf8 ((Value.object [("a", .string "\t"), ("b", .number (.int (-2)))]).pretty "\t").toList) =
      .ok (.object [("a", .string "\t"), ("b", .number (.int (-2)))]) := by
  have hsent := Prints.object (l := .compact) trivial (.cons (.mk "a" .null) (.cons (.mk "b" (.int (-2)))
    (.cons (.mk "a" (.string "\t")) .nil)))
  have hread : Value.parse (utf8 ((Value.object [("a", .null), ("b", .number (.int (-2))),
      ("a", .string "\t")]).print .compact 0)) =
      .ok (.object [("a", .string "\t"), ("b", .number (.int (-2)))]) := by
    have hnumber : (Numeral.ofInt (-2)).toNumber? = some (.int (-2)) :=
      toNumber?_ofInt (by decide) (by decide)
    rw [ok_iff_toOption, parse_wellFormed hsent.wellFormed]
    simp only [Tree.value?, depthLimit, memberValues?, hnumber]
    rfl
  have hintegral : Integral (.object [("a", .string "\t"), ("b", .number (.int (-2)))]) :=
    .object (List.forall_mem_cons.mpr ⟨.string "\t", List.forall_mem_singleton.mpr (.int (-2))⟩)
  exact (@rawJson_faithful Remote (List String) _ _ _ hread hintegral).1

end LogDesk.Console
