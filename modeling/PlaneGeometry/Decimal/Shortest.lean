/-! # The fewest decimal digits that read back

A finite double is `m * 2 ^ q` up to its sign. The reals that round to it form an interval whose
ends belong to it when `m` is even. The decimal chosen lies in that interval, has the fewest digits
of those that do, and is the nearest of these; an exact tie goes to the larger. -/
namespace PlaneGeometry.Decimal

/-- `m * 2 ^ q`. -/
structure Dyadic where
  m : Nat
  q : Int
  deriving DecidableEq, Repr

/-- `digits * 10 ^ exponent`. -/
structure Number where
  digits : Nat
  exponent : Int
  deriving DecidableEq, Repr

/-- The leading bit that normal doubles leave out, and the least `m` of a normal double. -/
def leadingBit : Nat := 0x10000000000000

def Dyadic.ofBits (bits : UInt64) : Dyadic :=
  let fraction := (bits &&& 0xFFFFFFFFFFFFF).toNat
  let biased := ((bits >>> 52) &&& 0x7FF).toNat
  if biased = 0 then ⟨fraction, -1074⟩ else ⟨fraction + leadingBit, (biased : Int) - 1075⟩

/-- A quarter of the last place as a fraction, on the grid `10 ^ k`. -/
def Dyadic.unit (d : Dyadic) (k : Int) : Nat × Nat :=
  let num := Nat.pow 2 (d.q - 2).toNat * Nat.pow 10 (-k).toNat
  let den := Nat.pow 2 (2 - d.q).toNat * Nat.pow 10 k.toNat
  (num, den)

/-- Ends of the interval of reals that round to the value, in quarters of its last place. Below a
power of two the spacing halves. -/
def Dyadic.ends (d : Dyadic) : Nat × Nat :=
  (if d.m = leadingBit ∧ d.q ≠ -1074 then 4 * d.m - 1 else 4 * d.m - 2, 4 * d.m + 2)

def Dyadic.readsBack (d : Dyadic) (k : Int) (c : Nat) : Bool :=
  let (num, den) := d.unit k
  let (lo, hi) := d.ends
  if d.m % 2 = 0 then lo * num ≤ c * den ∧ c * den ≤ hi * num
  else lo * num < c * den ∧ c * den < hi * num

/-- The neighbour of the value on the grid `10 ^ k` that reads back, the nearer one if both do. -/
def Dyadic.onGrid (d : Dyadic) (k : Int) : Option Nat :=
  let (num, den) := d.unit k
  let exact := 4 * d.m * num
  let c := exact / den
  match d.readsBack k c, d.readsBack k (c + 1) with
  | true, true => if 2 * exact < (2 * c + 1) * den then some c else some (c + 1)
  | true, false => some c
  | false, true => some (c + 1)
  | false, false => none

/-- The exponent of the leading decimal digit, counted up from a lower bound. -/
def Dyadic.leading (d : Dyadic) : Nat → Int → Int
  | 0, e => e
  | n + 1, e =>
    let (num, den) := d.unit (e + 1)
    if den ≤ 4 * d.m * num then d.leading n (e + 1) else e

/-- `log10 2` lies just above 0.30102; the estimate is at most three below the exponent. -/
def Dyadic.exponent (d : Dyadic) : Int :=
  d.leading 4 (((d.m.log2 : Int) + d.q) * 30103 / 100000 - 1)

def stripZeros : Nat → Nat → Int → Number
  | 0, c, k => ⟨c, k⟩
  | n + 1, c, k => if c % 10 = 0 then stripZeros n (c / 10) (k + 1) else ⟨c, k⟩

/-- Tries one digit, then two, up to seventeen, which always suffice. -/
def Dyadic.shortest (d : Dyadic) : Number :=
  let e := d.exponent
  let tried := (List.range 17).findSome? fun (n : Nat) =>
    (d.onGrid (e - n)).map fun c => stripZeros 20 c (e - n)
  tried.getD ⟨0, 0⟩

end PlaneGeometry.Decimal
