/-
# Greatest common divisor and least common multiple

Both are folded over the magnitudes of their arguments. A least common multiple that
does not fit 128 bits has no value.
-/

namespace UnitCalc.Integers

/-- Magnitudes and their multiples are held below this limit. -/
def limit : Nat := Nat.pow 2 128

/-- The greatest common divisor of a list. -/
def gcd : List Nat → Nat
  | [] => 0
  | n :: ns => ns.foldl Nat.gcd n

/-- The least common multiple of two numbers, if it stays below the limit. -/
def lcm? (a b : Nat) : Option Nat :=
  if a == 0 || b == 0 then some 0
  else
    let m := a / Nat.gcd a b * b
    if m < limit then some m else none

/-- The least common multiple of a list, if every step of the fold stays below the
limit. -/
def lcmList? : List Nat → Option Nat
  | [] => some 1
  | n :: ns => ns.foldlM lcm? n

end UnitCalc.Integers
