/-! JSON values. A number is an integer of 64 bits or a double; an object keeps its members in the
order in which their names were first seen. -/

namespace LogDesk.Json

inductive Number where
  | int (n : Int)
  /-- A finite double, by its bits. -/
  | double (bits : UInt64)
  deriving DecidableEq, Inhabited

inductive Value where
  | null
  | bool (b : Bool)
  | number (n : Number)
  | string (s : String)
  | array (items : List Value)
  | object (members : List (String × Value))
  deriving Inhabited

/-- Puts a member in: a name that is there keeps its place and takes the new value. -/
def setMember {α : Type} (name : String) (v : α) : List (String × α) → List (String × α)
  | [] => [(name, v)]
  | (n, w) :: rest => if n = name then (n, v) :: rest else (n, w) :: setMember name v rest

/-- The members that are left when each is put in after the ones before it. -/
def mergeMembers {α : Type} (ms : List (String × α)) : List (String × α) :=
  ms.foldl (fun acc m => setMember m.1 m.2 acc) []

end LogDesk.Json
