import LogDesk.Preferences.FileStore
import LogDesk.Proofs.Json.Texts
import LogDesk.Proofs.Preferences.Disk
import LogDesk.Proofs.Preferences.Entries

/-! A file store against its file, while others may change the disk as they like. What the store holds
depends on what was set in it only, and whatever it has just written opens as the same store. -/

namespace LogDesk

namespace Entries

abbrev layout : Json.Layout := .indented [' ', ' ']

theorem layout_blank : layout.IsBlank := by
  intro c hc
  obtain rfl : c = ' ' := by simpa using hc
  decide

theorem toText_toList (e : Entries) :
    e.toText.toList = (Json.Value.object (Json.ofTexts e)).print layout 0 :=
  String.toList_ofList

/-- The text of an object begins with its brace. -/
theorem toText_head (e : Entries) : ∃ cs, e.toText.toList = '\x7b' :: cs := by
  rw [toText_toList]
  cases e with
  | nil => exact ⟨_, rfl⟩
  | cons m rest => exact ⟨_, rfl⟩

/-- Entries read back from their text. -/
theorem ofText_toText {e : Entries} (h : e.InOrder) : ofText e.toText.toList = .ok e := by
  have hlen := Text.length_le_utf8 e.toText.toList
  have hread : Json.readTextObject ((Text.utf8 e.toText.toList).length + 1) (Text.utf8 e.toText.toList) =
      .ok (e, []) := by
    rw [toText_toList] at hlen ⊢
    have hprint := Json.readTextObject_print layout_blank 0 e (Nat.lt_succ_of_le hlen) []
    rwa [List.append_nil] at hprint
  have hsolid : e.toText.toList.all Text.isBlank = false := by
    obtain ⟨cs, hcs⟩ := e.toText_head
    rw [hcs, List.all_cons]
    rfl
  have hend : (Json.skipSpace []).isEmpty = true := rfl
  simp only [ofText, hsolid, Bool.false_eq_true, if_false, Json.readAll, hread, bind, Except.bind, hend,
    if_true, pure, Except.pure, ofList_eq h]

end Entries

namespace FileStore

/-- What a file holds that was written whole. -/
theorem readEntries_write {disk disk' : Node} {path : Path} {e : Entries} (h : e.InOrder)
    (hw : disk.write (Text.utf8 e.toText.toList) path = .ok disk') :
    readEntries disk' path = .ok e := by
  rw [readEntries, Node.read_write hw]
  simp only [Text.ofUtf8?_utf8]
  exact Entries.ofText_toText h

theorem inOrder_ofText {cs : List Char} {e : Entries} (h : Entries.ofText cs = .ok e) : e.InOrder := by
  unfold Entries.ofText at h
  split at h
  · cases h
    exact List.Pairwise.nil
  · dsimp only at h
    split at h
    · cases h
      exact Entries.inOrder_ofList _
    · cases h

theorem inOrder_readEntries {disk : Node} {path : Path} {e : Entries}
    (h : readEntries disk path = .ok e) : e.InOrder := by
  unfold readEntries at h
  split at h
  · cases h
    exact List.Pairwise.nil
  · cases h
  · split at h
    · cases h
    · exact inOrder_ofText h

theorem open?_ok {disk : Node} {path : Path} {s : FileStore} :
    open? disk path = .ok s ↔ readEntries disk path = .ok s.entries ∧ s.path = path ∧ s.disk = disk := by
  unfold open?
  cases readEntries disk path with
  | error e => simp [Except.map]
  | ok entries =>
    simp only [Except.map, Except.ok.injEq]
    constructor
    · rintro rfl
      exact ⟨rfl, rfl, rfl⟩
    · rintro ⟨rfl, rfl, rfl⟩
      rfl

/-- What a set can come to: the folders or the file cannot be made, or the file is written whole. -/
inductive Sets (s : FileStore) (name value : String) : FileStore × Except PreferenceError Unit → Prop where
  | noFolder (e : StorageError) : Sets s name value (s, .error (.storage e))
  | noFile (disk : Node) (e : StorageError) (hm : s.disk.makeFolders s.path.dropLast = .ok disk) :
    Sets s name value ({ s with disk }, .error (.storage e))
  | written (disk disk' : Node) (hm : s.disk.makeFolders s.path.dropLast = .ok disk)
    (hw : disk.write (Text.utf8 (s.entries.put name value).toText.toList) s.path = .ok disk') :
    Sets s name value (⟨s.path, s.entries.put name value, disk'⟩, .ok ())

theorem sets (s : FileStore) (name value : String) : Sets s name value (s.set name value) := by
  unfold set
  dsimp only
  split
  next e he => exact .noFolder e
  next disk hm =>
    split
    next e he => exact .noFile disk e hm
    next disk' hw => exact .written disk disk' hm hw

inductive Happening where
  | set (name value : String)
  /-- Others change the disk, and with it maybe the file and the folders on the way to it. -/
  | change (disk : Node)

def take (s : FileStore) : Happening → FileStore
  | .set name value => (s.set name value).1
  | .change disk => { s with disk }

def after (s : FileStore) : List Happening → FileStore
  | [] => s
  | h :: earlier => (after s earlier).take h

def lastSet? (s : FileStore) (name : String) : List Happening → Option String
  | [] => none
  | .set n value :: earlier =>
    if n = name && ((after s earlier).set n value).2.isOk then some value else lastSet? s name earlier
  | .change _ :: earlier => lastSet? s name earlier

theorem take_path (s : FileStore) (h : Happening) : (s.take h).path = s.path := by
  cases h with
  | change disk => rfl
  | set name value =>
    have hs := s.sets name value
    rw [take]
    generalize s.set name value = r at hs ⊢
    cases hs <;> rfl

theorem after_path (s : FileStore) (hs : List Happening) : (s.after hs).path = s.path := by
  induction hs with
  | nil => rfl
  | cons h earlier ih => exact (take_path _ h).trans ih

theorem inOrder_take {s : FileStore} (hs : s.entries.InOrder) (h : Happening) :
    (s.take h).entries.InOrder := by
  cases h with
  | change disk => exact hs
  | set name value =>
    have hset := s.sets name value
    rw [take]
    generalize s.set name value = r at hset ⊢
    cases hset with
    | noFolder e => exact hs
    | noFile disk e hm => exact hs
    | written disk disk' hm hw => exact Entries.inOrder_put hs name value

theorem inOrder_after {s : FileStore} (h : s.entries.InOrder) (hs : List Happening) :
    (s.after hs).entries.InOrder := by
  induction hs with
  | nil => exact h
  | cons h earlier ih => exact inOrder_take ih h

/-- A name finds what was last set under it. -/
theorem get?_after (s : FileStore) (hs : List Happening) (name : String) :
    (s.after hs).entries.get? name = (s.lastSet? name hs).or (s.entries.get? name) := by
  induction hs with
  | nil => rfl
  | cons h earlier ih =>
    cases h with
    | change disk => exact ih
    | set n value =>
      have hset := (s.after earlier).sets n value
      rw [after, take, lastSet?]
      generalize (s.after earlier).set n value = r at hset ⊢
      cases hset with
      | noFolder e => simpa [Except.isOk, Except.toBool] using ih
      | noFile disk e hm => simpa [Except.isOk, Except.toBool] using ih
      | written disk disk' hm hw =>
        rw [Entries.get?_put, ih]
        by_cases hn : n = name
        · simp [hn, Except.isOk, Except.toBool]
        · have hn' : ¬ name = n := fun h' => hn h'.symm
          simp [hn, hn']

/-- A store that has written its file opens as what it is. -/
theorem open?_set {s : FileStore} (hs : s.entries.InOrder) {name value : String}
    (h : (s.set name value).2 = .ok ()) :
    open? (s.set name value).1.disk s.path = .ok (s.set name value).1 := by
  have hset := s.sets name value
  generalize s.set name value = r at hset h ⊢
  cases hset with
  | noFolder e => cases h
  | noFile disk e hm => cases h
  | written disk disk' hm hw =>
    exact open?_ok.mpr ⟨readEntries_write (Entries.inOrder_put hs name value) hw, rfl, rfl⟩

/-- A set that fails leaves the entries and what is read of the file. -/
theorem set_error {s : FileStore} {name value : String} {e : PreferenceError}
    (h : (s.set name value).2 = .error e) : (s.set name value).1.entries = s.entries ∧
      (s.set name value).1.disk.read s.path = s.disk.read s.path := by
  have hset := s.sets name value
  generalize s.set name value = r at hset h ⊢
  cases hset with
  | noFolder e => exact ⟨rfl, rfl⟩
  | noFile disk e hm => exact ⟨rfl, Node.read_makeFolders hm⟩
  | written disk disk' hm hw => cases h

/-- A store that is alone with its file stays what the file opens as, whether its sets succeed or
fail. -/
theorem open?_take {s : FileStore} (h : open? s.disk s.path = .ok s) (name value : String) :
    open? (s.set name value).1.disk (s.set name value).1.path = .ok (s.set name value).1 := by
  obtain ⟨hread, -, -⟩ := open?_ok.mp h
  have hset := s.sets name value
  generalize s.set name value = r at hset ⊢
  cases hset with
  | noFolder e => exact h
  | noFile disk e hm =>
    refine open?_ok.mpr ⟨?_, rfl, rfl⟩
    dsimp only
    rw [readEntries, Node.read_makeFolders hm]
    exact hread
  | written disk disk' hm hw =>
    have ho := Entries.inOrder_put (inOrder_readEntries hread) name value
    exact open?_ok.mpr ⟨readEntries_write ho hw, rfl, rfl⟩

/-- What can be relied on of a store after some happenings. -/
structure Reliable (first : FileStore) (hs : List Happening) (s : FileStore) : Prop where
  gets : ∀ name, s.get name = match first.lastSet? name hs with
    | some value => .ok (some value)
    | none => first.get name
  refused : ∀ name value e, (s.set name value).2 = .error e →
    (s.set name value).1.entries = s.entries ∧
      (s.set name value).1.disk.read first.path = s.disk.read first.path
  reopens : ∀ name value, (s.set name value).2 = .ok () →
    open? (s.set name value).1.disk first.path = .ok (s.set name value).1

/-- A file store that was opened is reliable, whatever is set in it and whatever others do to the
disk meanwhile. -/
theorem reliable {disk : Node} {path : Path} {first : FileStore} (h : open? disk path = .ok first)
    (hs : List Happening) : Reliable first hs (first.after hs) := by
  have hp := first.after_path hs
  obtain ⟨hread, -, -⟩ := open?_ok.mp h
  have ho := inOrder_after (inOrder_readEntries hread) hs
  refine ⟨?_, ?_, ?_⟩
  · intro name
    rw [get, get?_after]
    cases first.lastSet? name hs with
    | none => rfl
    | some value => rfl
  · intro name value e he
    rw [← hp]
    exact set_error he
  · intro name value hok
    rw [← hp]
    exact open?_set ho hok

/-- A value is set, a folder takes the place of the file, and the next value cannot be set. -/
theorem reliable_hindered :
    open? .empty ["preferences"] = .ok ⟨["preferences"], [], .empty⟩ ∧
    (after ⟨["preferences"], [], .empty⟩ [.set "seconds" "9",
      .change (.folder [("preferences", .empty)]), .set "seconds" "7"]).get "seconds" =
        .ok (some "7") ∧
    Reliable ⟨["preferences"], [], .empty⟩
      [.set "seconds" "9", .change (.folder [("preferences", .empty)]), .set "seconds" "7"]
      (after ⟨["preferences"], [], .empty⟩ [.set "seconds" "9",
        .change (.folder [("preferences", .empty)]), .set "seconds" "7"]) := by
  have h : open? .empty ["preferences"] = .ok ⟨["preferences"], [], .empty⟩ := rfl
  exact ⟨h, rfl, reliable h _⟩

end FileStore

end LogDesk
