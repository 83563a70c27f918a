import LogDesk.Markup
import LogDesk.Proofs.Text.Trim

/-! Entities and tags. The five replacements that escape a text work on each character by itself
(`escape_eq`): none of them takes up a character that an earlier one has put. The five that decode one do in
five passes what one pass from the left does (`unescape_eq`): none of them leaves a piece of an entity that
a later one would take up. So decoding undoes escaping. -/

namespace LogDesk.Markup

structure Entity where
  text : List Char
  char : Char
  deriving DecidableEq

namespace Entity

def lt : Entity := ⟨"&lt;".toList, '<'⟩

def gt : Entity := ⟨"&gt;".toList, '>'⟩

def quot : Entity := ⟨"&quot;".toList, '"'⟩

def apos : Entity := ⟨"&#39;".toList, '\x27'⟩

def amp : Entity := ⟨"&amp;".toList, '&'⟩

/-- The entity in every place of its character. -/
def encode (e : Entity) (cs : List Char) : List Char := replace [e.char] e.text 0 cs

def decode (e : Entity) (cs : List Char) : List Char := replace e.text [e.char] 0 cs

end Entity

/-- All entities, in the order in which they are decoded. -/
def entities : List Entity := [.lt, .gt, .quot, .apos, .amp]

/-- All entities, in the order in which they are put in. -/
def escapeOrder : List Entity := [.amp, .lt, .gt, .quot, .apos]

def encodeAll (es : List Entity) (cs : List Char) : List Char := es.foldl (fun ds e => e.encode ds) cs

def decodeAll (es : List Entity) (cs : List Char) : List Char := es.foldl (fun ds e => e.decode ds) cs

theorem escape_encodeAll (cs : List Char) : escape cs = encodeAll escapeOrder cs := rfl

theorem unescape_decodeAll (cs : List Char) : unescape cs = decodeAll entities cs := rfl

theorem mem_entities {e : Entity} (h : e ∈ escapeOrder) : e ∈ entities := by
  revert e
  decide

def escapeChar (c : Char) : List Char := ((entity? c).map String.toList).getD [c]

theorem escapeChar_plain {c : Char} (h : ∀ e ∈ entities, c ≠ e.char) : escapeChar c = [c] := by
  have hnone : entity? c = none := by
    have hall : c ≠ '<' ∧ c ≠ '>' ∧ c ≠ '"' ∧ c ≠ '\x27' ∧ c ≠ '&' :=
      ⟨h .lt (by decide), h .gt (by decide), h .quot (by decide), h .apos (by decide), h .amp (by decide)⟩
    simp [entity?, hall]
  rw [escapeChar, hnone]
  rfl

/-- A character is one of the five with an entity, or is written as it is. -/
theorem escapeChar_cases (c : Char) :
    (∃ e ∈ entities, c = e.char ∧ escapeChar c = e.text) ∨
      (escapeChar c = [c] ∧ ∀ e ∈ entities, c ≠ e.char) := by
  by_cases hc : ∃ e ∈ entities, c = e.char
  · obtain ⟨e, he, rfl⟩ := hc
    refine .inl ⟨e, he, rfl, ?_⟩
    revert e
    decide
  · have hne : ∀ e ∈ entities, c ≠ e.char := fun e he h => hc ⟨e, he, h⟩
    exact .inr ⟨escapeChar_plain hne, hne⟩

def encodeChar (es : List Entity) (c : Char) : List Char :=
  match es.find? (·.char == c) with
  | some e => e.text
  | none => [c]

namespace Entity

theorem encode_eq (e : Entity) (cs : List Char) :
    e.encode cs = cs.flatMap fun c => if c = e.char then e.text else [c] := by
  unfold encode
  induction cs with
  | nil => rfl
  | cons c cs ih =>
    rw [replace, List.flatMap_cons, ← ih]
    by_cases hc : c = e.char
    · simp [hc]
    · simp [hc, Ne.symm hc]

theorem encode_flatMap (e : Entity) (f : Char → List Char) (cs : List Char) :
    e.encode (cs.flatMap f) = cs.flatMap fun c => e.encode (f c) := by
  simp only [encode_eq, List.flatMap_assoc]

theorem encode_self {e : Entity} {cs : List Char} (h : e.char ∉ cs) : e.encode cs = cs := by
  rw [encode_eq]
  induction cs with
  | nil => rfl
  | cons c cs ih =>
    have hc : c ≠ e.char := fun hc => h (hc ▸ List.mem_cons_self)
    rw [List.flatMap_cons, if_neg hc, ih fun hm => h (List.mem_cons_of_mem c hm), List.singleton_append]

end Entity

/-- Where no entity holds a character that a later one is put for, to put them in one after the other is to
put them in for each character by itself. -/
theorem encodeAll_eq {es : List Entity} (h : es.Pairwise fun e later => later.char ∉ e.text) (cs : List Char) :
    encodeAll es cs = cs.flatMap (encodeChar es) := by
  induction es using List.reverseRecOn with
  | nil => exact (List.flatMap_singleton' cs).symm
  | append_singleton es e ih =>
    obtain ⟨hes, -, hlast⟩ := List.pairwise_append.mp h
    have hstep : encodeAll (es ++ [e]) cs = e.encode (encodeAll es cs) := List.foldl_append
    rw [hstep, ih hes, e.encode_flatMap]
    congr 1
    funext c
    unfold encodeChar
    rw [List.find?_append]
    cases hk : es.find? (·.char == c) with
    | some k =>
      -- The entity that stands there holds no character that is put now.
      exact Entity.encode_self (hlast k (List.mem_of_find?_eq_some hk) e (List.mem_singleton_self e))
    | none =>
      rw [Option.none_or, Entity.encode_eq, List.flatMap_singleton]
      by_cases hc : c = e.char
      · simp [hc]
      · simp [hc, Ne.symm hc]

/-- So the ampersand comes first. -/
theorem escapeOrder_pairwise : escapeOrder.Pairwise fun e later => later.char ∉ e.text := by decide

theorem encodeChar_escapeOrder (c : Char) : encodeChar escapeOrder c = escapeChar c := by
  rcases escapeChar_cases c with ⟨e, he, rfl, -⟩ | ⟨ht, hne⟩
  · revert e
    decide
  · have hnone : escapeOrder.find? (·.char == c) = none := by
      rw [List.find?_eq_none]
      intro e he hc
      exact hne e (mem_entities he) (eq_of_beq hc).symm
    rw [ht, encodeChar, hnone]

/-- The five replacements write each character by itself. -/
theorem escape_eq (cs : List Char) : escape cs = cs.flatMap escapeChar := by
  rw [escape_encodeAll, encodeAll_eq escapeOrder_pairwise, funext encodeChar_escapeOrder]

@[simp] theorem escape_nil : escape [] = [] := rfl

theorem escape_append (cs ds : List Char) : escape (cs ++ ds) = escape cs ++ escape ds := by
  rw [escape_eq, escape_eq, escape_eq, List.flatMap_append]

theorem escape_cons (c : Char) (cs : List Char) : escape (c :: cs) = escapeChar c ++ escape cs := by
  rw [escape_eq, escape_eq, List.flatMap_cons]

section
variable {old new : List Char}

theorem replace_skip (ds cs : List Char) : replace old new ds.length (ds ++ cs) = replace old new 0 cs := by
  induction ds with
  | nil => rfl
  | cons d ds ih => exact ih

theorem replace_found (h : old ≠ []) (cs : List Char) :
    replace old new 0 (old ++ cs) = new ++ replace old new 0 cs := by
  obtain ⟨c, old, rfl⟩ := List.exists_cons_of_ne_nil h
  have hp : (c :: old).isPrefixOf (c :: (old ++ cs)) = true := by simp
  rw [List.cons_append, replace, if_pos hp]
  exact congrArg (new ++ ·) (replace_skip old cs)

theorem replace_passed {c : Char} {cs : List Char} (h : ¬old <+: c :: cs) :
    replace old new 0 (c :: cs) = c :: replace old new 0 cs := by
  rw [replace, if_neg (by simpa using h)]

end

def entityAt? (known : List Entity) (cs : List Char) : Option Entity :=
  known.find? (·.text.isPrefixOf cs)

/-- Some entities back to characters, in one pass from the left. -/
def decodeOnce (known : List Entity) : (skip : Nat) → List Char → List Char
  | _, [] => []
  | 0, c :: cs =>
    match entityAt? known (c :: cs) with
    | some e => e.char :: decodeOnce known (e.text.length - 1) cs
    | none => c :: decodeOnce known 0 cs
  | skip + 1, _ :: cs => decodeOnce known skip cs

section
variable {known : List Entity} {e k : Entity} {c : Char} {cs : List Char}

theorem decodeOnce_skip (ds cs : List Char) :
    decodeOnce known ds.length (ds ++ cs) = decodeOnce known 0 cs := by
  induction ds with
  | nil => cases cs <;> rfl
  | cons d ds ih => exact ih

theorem decodeOnce_found (hne : e.text ≠ []) (h : entityAt? known (e.text ++ cs) = some e) :
    decodeOnce known 0 (e.text ++ cs) = e.char :: decodeOnce known 0 cs := by
  obtain ⟨d, ds, hd⟩ := List.exists_cons_of_ne_nil hne
  rw [hd] at h ⊢
  rw [List.cons_append] at h ⊢
  rw [decodeOnce, h]
  dsimp only
  rw [hd]
  exact congrArg (e.char :: ·) (decodeOnce_skip ds cs)

theorem decodeOnce_passed (h : entityAt? known (c :: cs) = none) :
    decodeOnce known 0 (c :: cs) = c :: decodeOnce known 0 cs := by
  rw [decodeOnce, h]

theorem decodeOnce_nil (cs : List Char) : decodeOnce [] 0 cs = cs := by
  induction cs with
  | nil => rfl
  | cons c cs ih => rw [decodeOnce_passed rfl, ih]

/-- What is found stands there. -/
theorem entityAt?_some (h : entityAt? known cs = some k) : k ∈ known ∧ ∃ rest, cs = k.text ++ rest := by
  obtain ⟨rest, hrest⟩ : k.text <+: cs := by simpa using List.find?_some h
  exact ⟨List.mem_of_find?_eq_some h, rest, hrest.symm⟩

/-- Entities begin with an ampersand. -/
theorem entityAt?_none (hk : ∀ k ∈ known, k.text.head? = some '&') (hc : c ≠ '&') :
    entityAt? known (c :: cs) = none := by
  refine List.find?_eq_none.mpr fun k hm hp => ?_
  obtain ⟨rest, hrest⟩ : k.text <+: c :: cs := by simpa using hp
  obtain ⟨ds, hd⟩ := List.head?_eq_some_iff.mp (hk k hm)
  rw [hd, List.cons_append] at hrest
  exact hc (List.cons.inj hrest).1.symm

theorem entityAt?_append (es : List Entity) :
    entityAt? (known ++ es) cs = (entityAt? known cs).or (entityAt? es cs) := List.find?_append

/-- A text is empty, or it begins with an entity, or with a character where no entity begins. -/
@[elab_as_elim]
theorem decode_induction (hne : ∀ k ∈ known, k.text ≠ []) {motive : List Char → Prop} (nil : motive [])
    (found : ∀ k rest, entityAt? known (k.text ++ rest) = some k → motive rest → motive (k.text ++ rest))
    (passed : ∀ c cs, entityAt? known (c :: cs) = none → motive cs → motive (c :: cs)) (cs : List Char) :
    motive cs := by
  induction hn : cs.length using Nat.strong_induction_on generalizing cs with
  | h n ih =>
    subst hn
    cases cs with
    | nil => exact nil
    | cons c cs =>
      cases hk : entityAt? known (c :: cs) with
      | none => exact passed c cs hk (ih cs.length (by simp) cs rfl)
      | some k =>
        obtain ⟨hm, rest, hrest⟩ := entityAt?_some hk
        have hshort : rest.length < (c :: cs).length := by
          have hp := List.length_pos_iff.mpr (hne k hm)
          rw [hrest, List.length_append]
          omega
        rw [hrest] at hk ⊢
        exact found k rest hk (ih rest.length hshort rest rfl)

theorem decodeOnce_plain (hk : ∀ k ∈ known, k.text.head? = some '&') {ds : List Char} (hd : '&' ∉ ds)
    (cs : List Char) : decodeOnce known 0 (ds ++ cs) = ds ++ decodeOnce known 0 cs := by
  induction ds with
  | nil => rfl
  | cons d ds ih =>
    have hne : d ≠ '&' := fun h => hd (h ▸ List.mem_cons_self)
    rw [List.cons_append, decodeOnce_passed (entityAt?_none hk hne),
      ih fun h => hd (List.mem_cons_of_mem d h), List.cons_append]

/-- What no entity stands for is at the front after a pass only if it was before. -/
theorem prefix_of_decodeOnce {ds : List Char} (hd : ∀ k ∈ known, k.char ∉ ds)
    (h : ds <+: decodeOnce known 0 cs) : ds <+: cs := by
  induction ds generalizing cs with
  | nil => exact List.nil_prefix
  | cons d ds ih =>
    cases cs with
    | nil => simp [decodeOnce] at h
    | cons c cs =>
      cases hk : entityAt? known (c :: cs) with
      | none =>
        rw [decodeOnce_passed hk, List.cons_prefix_cons] at h
        obtain ⟨rfl, h⟩ := h
        rw [List.cons_prefix_cons]
        exact ⟨rfl, ih (fun k hm hc => hd k hm (List.mem_cons_of_mem d hc)) h⟩
      | some k =>
        rw [decodeOnce, hk, List.cons_prefix_cons] at h
        exact absurd (h.1 ▸ List.mem_cons_self) (hd k (entityAt?_some hk).1)

/-- An entity that can be decoded after those that are known: what they stand for is no part of it. -/
structure Entity.Follows (e : Entity) (known : List Entity) : Prop where
  begins : ∀ k ∈ e :: known, k.text.head? = some '&'
  once : '&' ∉ e.text.tail
  apart : ∀ k ∈ known, k.char ∉ e.text

theorem Entity.Follows.ne_nil (h : e.Follows known) (hk : k ∈ e :: known) : k.text ≠ [] := by
  rw [List.eq_cons_of_mem_head? (h.begins k hk)]
  exact List.cons_ne_nil _ _

theorem Entity.Follows.text_eq (h : e.Follows known) : e.text = '&' :: e.text.tail :=
  List.eq_cons_of_mem_head? (h.begins e List.mem_cons_self)

/-- To decode one entity after others is to decode it along with them. -/
theorem replace_decodeOnce (h : e.Follows known) (cs : List Char) :
    replace e.text [e.char] 0 (decodeOnce known 0 cs) = decodeOnce (known ++ [e]) 0 cs := by
  have hknown : ∀ k ∈ known, k.text.head? = some '&' := fun k hm => h.begins k (List.mem_cons_of_mem e hm)
  have hne : ∀ k ∈ known ++ [e], k.text ≠ [] := fun k hm => h.ne_nil (by simpa [or_comm] using hm)
  induction cs using decode_induction hne with
  | nil => rfl
  | found k rest hall ih =>
    have hk := hall
    rw [entityAt?_append, Option.or_eq_some_iff] at hk
    have hkn := hne k (entityAt?_some hall).1
    rw [decodeOnce_found hkn hall, ← ih]
    rcases hk with hk | ⟨hk, he⟩
    · have hnot : ¬e.text <+: k.char :: decodeOnce known 0 rest := by
        rw [h.text_eq, List.cons_prefix_cons]
        exact fun hp => h.apart k (entityAt?_some hk).1 (hp.1 ▸ h.text_eq ▸ List.mem_cons_self)
      rw [decodeOnce_found hkn hk, replace_passed hnot]
    · obtain rfl : k = e := List.mem_singleton.mp (entityAt?_some he).1
      -- What is known passes over the whole entity, so that the replacement still finds it.
      have hpass : decodeOnce known 0 (k.text ++ rest) = k.text ++ decodeOnce known 0 rest := by
        rw [h.text_eq, List.cons_append] at hk ⊢
        rw [decodeOnce_passed hk, decodeOnce_plain hknown h.once, List.cons_append]
      rw [hpass, replace_found hkn, List.singleton_append]
  | passed c cs hall ih =>
    have hk := hall
    rw [entityAt?_append, Option.or_eq_none_iff] at hk
    obtain ⟨hk, he⟩ := hk
    -- A pass puts no entity together where there was none.
    have hnot : ¬e.text <+: c :: decodeOnce known 0 cs := by
      intro hp
      rw [h.text_eq, List.cons_prefix_cons] at hp
      have hthere : e.text <+: c :: cs := by
        rw [h.text_eq, List.cons_prefix_cons]
        exact ⟨hp.1, prefix_of_decodeOnce (fun k hm hc => h.apart k hm (List.mem_of_mem_tail hc)) hp.2⟩
      simp [entityAt?, hthere] at he
    rw [decodeOnce_passed hk, decodeOnce_passed hall, replace_passed hnot, ih]

end

structure Successive (es : List Entity) : Prop where
  begins : ∀ e ∈ es, e.text.head? = some '&'
  once : ∀ e ∈ es, '&' ∉ e.text.tail
  apart : es.Pairwise fun e later => e.char ∉ later.text

theorem Successive.init {es : List Entity} {e : Entity} (h : Successive (es ++ [e])) : Successive es where
  begins k hk := h.begins k (List.mem_append_left [e] hk)
  once k hk := h.once k (List.mem_append_left [e] hk)
  apart := (List.pairwise_append.mp h.apart).1

theorem Successive.follows {es : List Entity} {e : Entity} (h : Successive (es ++ [e])) : e.Follows es where
  begins k hk := h.begins k (by simpa [or_comm] using hk)
  once := h.once e (by simp)
  apart k hk := (List.pairwise_append.mp h.apart).2.2 k hk e (List.mem_singleton_self e)

/-- To decode them one after the other is to decode them all in one pass. -/
theorem decodeAll_eq {es : List Entity} (h : Successive es) (cs : List Char) :
    decodeAll es cs = decodeOnce es 0 cs := by
  induction es using List.reverseRecOn with
  | nil => exact (decodeOnce_nil cs).symm
  | append_singleton es e ih =>
    have hstep : decodeAll (es ++ [e]) cs = e.decode (decodeAll es cs) := List.foldl_append
    rw [hstep, ih h.init]
    exact replace_decodeOnce h.follows cs

/-- So the ampersand comes last. -/
theorem successive_entities : Successive entities := by
  constructor <;> decide

/-- The five replacements decode each entity once. -/
theorem unescape_eq (cs : List Char) : unescape cs = decodeOnce entities 0 cs := by
  rw [unescape_decodeAll, decodeAll_eq successive_entities]

theorem entityAt?_entity {e : Entity} (he : e ∈ entities) (cs : List Char) :
    entityAt? entities (e.text ++ cs) = some e := by
  fin_cases he <;> rfl

theorem entities_ne_nil : ∀ e ∈ entities, e.text ≠ [] := by decide

theorem unescape_entity {e : Entity} (he : e ∈ entities) (cs : List Char) :
    unescape (e.text ++ cs) = e.char :: unescape cs := by
  rw [unescape_eq, unescape_eq, decodeOnce_found (entities_ne_nil e he) (entityAt?_entity he cs)]

theorem unescape_passed {c : Char} {cs : List Char} (h : entityAt? entities (c :: cs) = none) :
    unescape (c :: cs) = c :: unescape cs := by
  rw [unescape_eq, unescape_eq, decodeOnce_passed h]

/-- A text comes back from its entities as it was. -/
theorem unescape_escape (cs : List Char) : unescape (escape cs) = cs := by
  induction cs with
  | nil => rfl
  | cons c cs ih =>
    rw [escape_cons]
    rcases escapeChar_cases c with ⟨e, he, hc, ht⟩ | ⟨ht, hne⟩
    · rw [ht, unescape_entity he, ih, hc]
    · have hnone : entityAt? entities (c :: escape cs) = none :=
        entityAt?_none successive_entities.begins (hne .amp (by decide))
      rw [ht, List.singleton_append, unescape_passed hnone, ih]

theorem escape_injective {cs ds : List Char} (h : escape cs = escape ds) : cs = ds := by
  have hu := congrArg unescape h
  rwa [unescape_escape, unescape_escape] at hu

theorem escapeChar_keepsEnd : Text.KeepsEnd escapeChar where
  blank c hc := by
    rcases escapeChar_cases c with ⟨e, he, rfl, -⟩ | ⟨ht, -⟩
    · have hall : ∀ e ∈ entities, Text.isBlank e.char = false := by decide
      rw [hall e he] at hc
      cases hc
    · exact ht
  solid c hc := by
    rcases escapeChar_cases c with ⟨e, he, -, ht⟩ | ⟨ht, -⟩
    · have hall : ∀ e ∈ entities, e.text = e.text.dropLast ++ [';'] := by decide
      exact ⟨_, _, ht.trans (hall e he), by decide⟩
    · exact ⟨[], c, ht, hc⟩

theorem trimEnd_escape (cs : List Char) : Text.trimEnd (escape cs) = escape (Text.trimEnd cs) := by
  rw [escape_eq, escape_eq]
  exact escapeChar_keepsEnd.trimEnd_flatMap cs

theorem not_mem_escape {d : Char} (hd : d = '<' ∨ d = '>') (cs : List Char) : d ∉ escape cs := by
  intro hm
  rw [escape_eq] at hm
  obtain ⟨c, -, hc⟩ := List.mem_flatMap.mp hm
  rcases escapeChar_cases c with ⟨e, he, -, ht⟩ | ⟨ht, hne⟩
  · have hall : ∀ e ∈ entities, '<' ∉ e.text ∧ '>' ∉ e.text := by decide
    rw [ht] at hc
    rcases hd with rfl | rfl
    · exact (hall e he).1 hc
    · exact (hall e he).2 hc
  · rw [ht, List.mem_singleton] at hc
    subst hc
    exact hd.elim (hne .lt (by decide)) (hne .gt (by decide))

/-- Each ampersand of a text begins an entity. -/
def Sound (cs : List Char) : Prop := ∀ rest, '&' :: rest <:+ cs → ∃ e ∈ entities, e.text <+: '&' :: rest

theorem sound_plain {cs : List Char} (h : '&' ∉ cs) : Sound cs :=
  fun _ hr => absurd (hr.subset List.mem_cons_self) h

theorem Sound.append {cs ds : List Char} (hc : Sound cs) (hd : Sound ds) : Sound (cs ++ ds) := by
  induction cs with
  | nil => exact hd
  | cons c cs ih =>
    intro rest hr
    rw [List.cons_append, List.suffix_cons_iff] at hr
    rcases hr with heq | hr
    · obtain ⟨rfl, rfl⟩ := List.cons.inj heq
      obtain ⟨e, he, hp⟩ := hc cs List.suffix_rfl
      exact ⟨e, he, hp.trans (List.prefix_append ('&' :: cs) ds)⟩
    · exact ih (fun rest hr => hc rest (hr.trans (List.suffix_cons c cs))) rest hr

theorem sound_entity : ∀ e ∈ entities, Sound e.text := by
  intro e he rest hr
  have hall : ∀ e ∈ entities, e.text = '&' :: e.text.tail ∧ '&' ∉ e.text.tail := by decide
  obtain ⟨ht, hn⟩ := hall e he
  rw [ht, List.suffix_cons_iff] at hr
  rcases hr with heq | hr
  · refine ⟨e, he, ?_⟩
    rw [heq, ← ht]
  · exact absurd (hr.subset List.mem_cons_self) hn

theorem sound_escape (cs : List Char) : Sound (escape cs) := by
  induction cs with
  | nil => exact sound_plain (by simp)
  | cons c cs ih =>
    rw [escape_cons]
    rcases escapeChar_cases c with ⟨e, he, -, ht⟩ | ⟨ht, hne⟩
    · exact (ht ▸ sound_entity e he).append ih
    · refine Sound.append (sound_plain ?_) ih
      rw [ht, List.mem_singleton]
      exact (hne .amp (by decide)).symm

theorem dropTags_text {cs : List Char} (h : '<' ∉ cs) (rest : List Char) :
    dropTags none (cs ++ rest) = cs ++ dropTags none rest := by
  induction cs with
  | nil => rfl
  | cons c cs ih =>
    have hc : c ≠ '<' := fun hc => h (hc ▸ List.mem_cons_self)
    rw [List.cons_append, dropTags, if_neg (by simpa using hc),
      ih fun hm => h (List.mem_cons_of_mem c hm), List.cons_append]

theorem dropTags_open {tag : List Char} (h : '>' ∉ tag) (seen rest : List Char) :
    dropTags (some seen) (tag ++ '>' :: rest) =
      if seen ++ tag = "/span".toList then ' ' :: dropTags none rest else dropTags none rest := by
  induction tag generalizing seen with
  | nil => simp [dropTags]
  | cons c tag ih =>
    have hc : c ≠ '>' := fun hc => h (hc ▸ List.mem_cons_self)
    rw [List.cons_append, dropTags, if_neg (by simpa using hc), ih fun hm => h (List.mem_cons_of_mem c hm)]
    simp

/-- A tag leaves nothing. -/
theorem dropTags_tag {tag name : List Char} (htag : tag = '<' :: (name ++ ['>'])) (h : '>' ∉ name)
    (hs : name ≠ "/span".toList) (rest : List Char) : dropTags none (tag ++ rest) = dropTags none rest := by
  rw [htag, List.cons_append, List.append_assoc, List.singleton_append, dropTags, if_pos (by simp),
    dropTags_open h, List.nil_append, if_neg hs]

/-- But for a space where a span ends. -/
theorem dropTags_close (rest : List Char) :
    dropTags none ("</span>".toList ++ rest) = ' ' :: dropTags none rest := by
  have htag : "</span>".toList = '<' :: ("/span".toList ++ ['>']) := by decide
  rw [htag, List.cons_append, List.append_assoc, List.singleton_append, dropTags, if_pos (by simp),
    dropTags_open (by decide), List.nil_append, if_pos rfl]

end LogDesk.Markup
