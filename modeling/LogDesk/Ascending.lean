/-! Ascending lists of numbers, each number once. -/

namespace LogDesk

def insertAscending (n : Nat) : List Nat → List Nat
  | [] => [n]
  | m :: ms => if n < m then n :: m :: ms else if n = m then m :: ms else m :: insertAscending n ms

def ascending (ns : List Nat) : List Nat := ns.foldl (fun acc n => insertAscending n acc) []

end LogDesk
