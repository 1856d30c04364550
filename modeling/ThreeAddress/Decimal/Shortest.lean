namespace ThreeAddress.Decimal

/-- A finite double without its sign: the value is `mantissa * 2 ^ exponent`. `narrow` holds where
the next smaller double is only half as far away as the next larger one. -/
structure Magnitude where
  mantissa : Nat
  exponent : Int
  narrow : Bool
deriving DecidableEq

def Magnitude.ofBits (bits : UInt64) : Magnitude :=
  let fraction := (bits &&& 0xfffffffffffff).toNat
  let scale := (bits >>> 52 &&& 0x7ff).toNat
  if scale = 0 then ⟨fraction, -1074, false⟩
  else ⟨fraction + 0x10000000000000, Int.ofNat scale - 1075, fraction = 0 && 1 < scale⟩

/-- A decimal `digits * 10 ^ exponent`. -/
structure Digits where
  digits : Nat
  exponent : Int
deriving DecidableEq

/-- The multiple of `10 ^ k` that reads back as `m` and is nearest to it, if there is one; of two
equally near ones the even. All lengths are measured in quarters of the last place of `m`. -/
def Magnitude.onGrid (m : Magnitude) (k : Int) : Option Nat :=
  let unit := m.exponent - 2
  let left := Nat.pow 2 unit.toNat * Nat.pow 10 (-k).toNat
  let right := Nat.pow 2 (-unit).toNat * Nat.pow 10 k.toNat
  let value := 4 * m.mantissa * left
  let low := (4 * m.mantissa - if m.narrow then 1 else 2) * left
  let high := (4 * m.mantissa + 2) * left
  let closed := m.mantissa % 2 = 0
  let fits (n : Nat) : Bool :=
    0 < n && (low < n * right && n * right < high ||
      closed && (n * right = low || n * right = high))
  let below := value / right
  let above := below + 1
  let toBelow := value - below * right
  let toAbove := above * right - value
  match fits below, fits above with
  | false, false => none
  | true, false => some below
  | false, true => some above
  | true, true =>
    if toBelow < toAbove || toBelow = toAbove && below % 2 = 0 then some below else some above

/-- The first grid, from the coarsest on, that has a point reading back as `m`. Every double has one
among the powers of ten from `10 ^ 309` down to `10 ^ (-342)`. -/
def Magnitude.shortest (m : Magnitude) : Digits :=
  let grids : List Int := (List.range 652).map fun i => 309 - Int.ofNat i
  match grids.findSome? fun k => (m.onGrid k).map (Digits.mk · k) with
  | some d => d
  | none => ⟨0, 0⟩

/-- Exponents from -5 to 15 are written positionally, with at least one digit after the point; all
others with one digit before the point and a signed exponent. -/
def Digits.text (d : Digits) : String :=
  let digits := Nat.toDigits 10 d.digits
  let point := d.exponent + digits.length
  let leading := point - 1
  if -5 ≤ leading ∧ leading ≤ 15 then
    if 0 ≤ d.exponent then
      String.ofList (digits ++ List.replicate d.exponent.toNat '0' ++ ['.', '0'])
    else if 0 < point then
      String.ofList (digits.take point.toNat ++ '.' :: digits.drop point.toNat)
    else
      String.ofList (['0', '.'] ++ List.replicate (-point).toNat '0' ++ digits)
  else
    let fraction := if digits.length ≤ 1 then [] else '.' :: digits.drop 1
    let mark := if leading < 0 then ['e', '-'] else ['e', '+']
    String.ofList (digits.take 1 ++ fraction ++ mark ++ Nat.toDigits 10 leading.natAbs)

def text (bits : UInt64) : String :=
  let m := Magnitude.ofBits bits
  let sign := if bits >>> 63 = 0 then "" else "-"
  sign ++ if m.mantissa = 0 then "0.0" else m.shortest.text

end ThreeAddress.Decimal
