import LogDesk.Api.Call
import LogDesk.Proofs.Json.Faithful
import LogDesk.Proofs.Json.Texts

/-! What is sent of a form: each name once, where its first field stands and with the value of its last one,
in a text that is read as just this object: `posted`. -/

namespace LogDesk.EntryForm

open Json Text

def ofFields (fs : List (String × String)) : EntryForm :=
  fs.foldl (fun form field => form.add field.1 field.2) {}

theorem fields_ofFields (fs : List (String × String)) : (ofFields fs).fields = fs := by
  induction fs using List.reverseRecOn with
  | nil => rfl
  | append_singleton fs field ih =>
    rw [ofFields, List.foldl_append]
    exact congrArg (· ++ [field]) ih

/-- The texts that stand for fields: the names in the order of their first fields, and under each name the
value of its last field. -/
structure Merged (fs texts : List (String × String)) : Prop where
  names : texts.map (·.1) = (fs.map (·.1)).eraseDups
  values : ∀ name, texts.lookup name = fs.reverse.lookup name

theorem merged (fs : List (String × String)) : Merged fs (mergeMembers fs) where
  names := names_mergeMembers fs
  values := lookup_mergeMembers fs

example : mergeMembers [("level", "INFO"), ("message", ""), ("level", "WARN")] =
    [("level", "WARN"), ("message", "")] := by decide

theorem toJson_texts (f : EntryForm) : f.toJson = .object (ofTexts (mergeMembers f.fields)) :=
  congrArg Value.object (mergeMembers_map Value.string f.fields)

/-- Texts under names of their own are read of what is printed of them. -/
theorem parse_texts {texts : List (String × String)} (h : (texts.map (·.1)).Nodup) :
    Value.parse (utf8 (Value.object (ofTexts texts)).compact.toList) = .ok (.object (ofTexts texts)) := by
  have hnames : (ofTexts texts).map (·.1) = texts.map (·.1) := by
    rw [ofTexts, List.map_map]
    rfl
  have hfits : Fits depthLimit (.object (ofTexts texts)) := by
    refine .object (hnames ▸ h) fun m hm => ?_
    obtain ⟨text, -, rfl⟩ := List.mem_map.mp hm
    exact .string text.2
  have hintegral : Integral (.object (ofTexts texts)) := by
    refine .object fun m hm => ?_
    obtain ⟨text, -, rfl⟩ := List.mem_map.mp hm
    exact .string text.2
  rw [Value.compact, String.toList_ofList]
  exact hfits.parse_print hintegral (l := .compact) trivial

/-- Every field is kept in the form, in order. What is sent of them has each name once, where it came first,
with the value that came last, and is read as the same object. -/
theorem posted (fs : List (String × String)) (base : Url) :
    (ofFields fs).fields = fs ∧ ∃ texts, Merged fs texts ∧
      (ofFields fs).toJson = .object (ofTexts texts) ∧ ∃ body,
        Api.request base (.createEntry (ofFields fs)) =
          { method := .post, url := Api.withoutUser base, contentType := some "application/json",
            authorization := Api.authorization? base, body := some body } ∧
        Value.parse (utf8 body.toList) = .ok (.object (ofTexts texts)) := by
  have hjson : (ofFields fs).toJson = .object (ofTexts (mergeMembers fs)) := by
    rw [toJson_texts, fields_ofFields]
  refine ⟨fields_ofFields fs, mergeMembers fs, merged fs, hjson, _, rfl, ?_⟩
  rw [hjson]
  exact parse_texts (nodup_mergeMembers fs).1

end LogDesk.EntryForm
