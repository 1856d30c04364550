namespace ThreeAddress.Json

/-- A number literal by its digits. `fraction` is empty where there is no point; the exponent comes
with a flag that says whether it is negative. -/
structure Numeral where
  negative : Bool := false
  whole : List Nat := []
  fraction : List Nat := []
  exponent : Option (Bool × List Nat) := none
deriving DecidableEq

inductive Number where
  | integer (n : Int)
  | real (bits : UInt64)
deriving DecidableEq

namespace Numeral

/-- Appends digits to a number for as long as it stays below `2 ^ 64`, and returns the digits
left. -/
def absorb (value : Nat) : List Nat → Nat × List Nat
  | [] => (value, [])
  | d :: ds => if value * 10 + d < UInt64.size then absorb (value * 10 + d) ds else (value, d :: ds)

def digitsValue (digits : List Nat) : Nat :=
  digits.foldl (fun n d => n * 10 + d) 0

def power (k : Nat) : Float :=
  Float.ofScientific 1 false k

/-- Divides by a power of ten, at most `10 ^ 308` at a time. -/
def scaleDown (x : Float) (k : Nat) : Float :=
  if k ≤ 308 then x / power k
  else if x == 0 then x
  else scaleDown (x / power 308) (k - 308)
termination_by k

/-- `significand * 10 ^ k` by one rounded step, if that is finite. -/
def scale (significand : Nat) (k : Int) : Option Float :=
  let x := (UInt64.ofNat significand).toFloat
  if k < 0 then some (scaleDown x k.natAbs)
  else if k ≤ 308 then
    let y := x * power k.toNat
    if y.isInf then none else some y
  else if x == 0 then some x
  else none

/-- The magnitude of a literal that is read as a double: the digits that fit 64 bits are scaled by
the power of ten that is left. A literal beyond the largest double has none. -/
def magnitude (n : Numeral) : Option Float :=
  let (first, left) := absorb 0 n.whole
  let (significand, dropped) := absorb first n.fraction
  let shift := (left.length : Int) + dropped.length - n.fraction.length
  match n.exponent with
  | none => scale significand shift
  | some (down, digits) =>
    let exponent := digitsValue digits
    if exponent ≤ 0x7fffffff then
      scale significand (if down then shift - exponent else shift + exponent)
    else if significand = 0 || down then some 0
    else none

/-- The number that a literal stands for, if there is one. Negative zero and integers outside
`-2 ^ 63 … 2 ^ 64 - 1` are doubles. -/
def value (n : Numeral) : Option Number :=
  let whole := digitsValue n.whole
  if n.fraction.isEmpty && n.exponent.isNone && whole < UInt64.size && !n.negative then
    some (.integer whole)
  else if n.fraction.isEmpty && n.exponent.isNone && n.negative && 0 < whole &&
      whole ≤ 0x8000000000000000 then
    some (.integer (-whole))
  else
    n.magnitude.map fun x => .real (if n.negative then -x else x).toBits

end Numeral

end ThreeAddress.Json
