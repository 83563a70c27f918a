import LogDesk.Json.Schema
import LogDesk.Proofs.Json.Printed

/-! An object of texts reads back from any of its printed forms: `readTextObject_print`. -/

namespace LogDesk.Json

open Text

variable {fuel : Nat} {rest : List UInt8}

theorem readText_quoted {s : String} {w t : List Char} (hw : Blanks w) (h : Quoted s.toList t)
    (r : List UInt8) : readText (utf8 w ++ 0x22 :: (utf8 t ++ 0x22 :: r)) = .ok (s, r) := by
  rw [readText, skipSpace_blanks hw, skipSpace_solid (by decide)]
  exact readString_quoted h r

def ofTexts (ms : List (String × String)) : List (String × Value) :=
  ms.map fun (n, v) => (n, .string v)

def textTrees (ms : List (String × String)) : List (String × Tree) :=
  ms.map fun (n, v) => (n, .string v)

theorem readTexts_written {first : Bool} {ms : List (String × String)} {t : List Char}
    (h : WrittenMembers first (textTrees ms) t) (hf : t.length < fuel) :
    readTexts fuel first (utf8 t ++ rest) = .ok (ms, rest) := by
  induction ms generalizing first t fuel with
  | nil =>
    obtain ⟨fuel, rfl⟩ := fuel_succ hf
    cases h with
    | close hw =>
      rw [utf8_brace, readTexts, nextName_close hw]
      rfl
  | cons m ms ih =>
    obtain ⟨fuel, rfl⟩ := fuel_succ hf
    cases h with
    | member hg hq hw hw' hv hms =>
      cases hv with
      | string hs =>
        simp only [List.length_append, List.length_cons] at hf
        have hr := ih hms (by omega : _ < fuel)
        rw [utf8_member, utf8_string, readTexts, nextName_gap hg]
        simp only [bind, Except.bind, readString_quoted hq, colon_blanks hw, readText_quoted hw' hs, hr]
        rfl

theorem prints_texts {l : Layout} (h : l.IsBlank) (ms : List (String × String)) :
    Prints l (.object (textTrees ms)) (.object (ofTexts ms)) := by
  refine .object h ?_
  induction ms with
  | nil => exact .nil
  | cons m ms ih => exact .cons (.mk m.1 (.string m.2)) ih

/-- What is printed of an object of texts reads back as these texts. -/
theorem readTextObject_print {l : Layout} (h : l.IsBlank) (depth : Nat) (ms : List (String × String))
    (hf : ((Value.object (ofTexts ms)).print l depth).length < fuel) (rest : List UInt8) :
    readTextObject fuel (utf8 ((Value.object (ofTexts ms)).print l depth) ++ rest) = .ok (ms, rest) := by
  have hp := prints_texts h ms depth
  generalize (Value.object (ofTexts ms)).print l depth = t at hp hf
  cases hp with
  | object hms =>
    have hbrace (t : List Char) : utf8 ('\x7b' :: t) = 0x7B :: utf8 t := rfl
    rw [hbrace, List.cons_append, readTextObject, skipSpace_solid (by decide)]
    exact readTexts_written hms (by simp only [List.length_cons] at hf; omega)

end LogDesk.Json
