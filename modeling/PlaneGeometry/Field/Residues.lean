import PlaneGeometry.Field.Basic

/-! # Residues modulo a prime, on machine words

Words stand for their residues; every operation reduces its operands first. Moduli are below
`2^32`, so no product of residues wraps. There is neither ordering nor inner product. Numbers below
a bound are drawn by a source of randomness that is given. -/
namespace PlaneGeometry.Residues

/-- No odd divisor `d, d + 2, …` with `d * d ≤ n`, among the first `fuel` of them. -/
def oddDivisorFree (n : UInt64) : Nat → UInt64 → Bool
  | 0, _ => true
  | fuel + 1, d =>
    if d * d ≤ n then
      if n % d == 0 then false else oddDivisorFree n fuel (d + 2)
    else true

/-- Trial division. Below `2^32` there are fewer than `2^15` odd candidates. -/
def isPrime (n : UInt64) : Bool :=
  if n < 2 then false
  else if n % 2 == 0 then n == 2
  else oddDivisorFree n 32768 3

/-- Square and multiply, one bit of the exponent at a time. -/
def powLoop (p : UInt64) : Nat → UInt64 → UInt64 → UInt64 → UInt64
  | 0, _, _, acc => acc
  | bits + 1, base, exp, acc =>
    if exp == 0 then acc
    else powLoop p bits (base * base % p) (exp >>> 1)
      (if exp &&& 1 == 1 then acc * base % p else acc)

def pow (p base exp : UInt64) : UInt64 := powLoop p 64 (base % p) exp 1

/-- The power `p - 2` inverts every non-zero residue of a prime modulus. -/
def inv (p x : UInt64) : Except Error UInt64 :=
  if x % p == 0 then .error .inverseOfZero else .ok (pow p (x % p) (p - 2))

def add (p x y : UInt64) : UInt64 := (x % p + y % p) % p
def neg (p x : UInt64) : UInt64 := (p - x % p) % p
def mul (p x y : UInt64) : UInt64 := (x % p) * (y % p) % p
def same (p x y : UInt64) : Bool := x % p == y % p

section

variable {σ : Type} (below : UInt64 → Draw σ UInt64)

/-- A shift by a non-zero residue never returns to the value. -/
def drawOther (p value : UInt64) : Draw σ UInt64 := do
  let shift := 1 + (← below (p - 1))
  return (value % p + shift) % p

def ofPrime (p : UInt64) : NumericField UInt64 σ where
  name := "GF(" ++ toString p ++ ")"
  zero := 0
  neg := neg p
  add := add p
  one := 1 % p
  inv := inv p
  mul := mul p
  same := same p
  negligible x _ := same p x 0
  draw := below p
  drawOther := drawOther below p
  order := none
  product := none

def field (p : UInt64) : Except Error (NumericField UInt64 σ) :=
  if p ≥ 0x100000000 then .error (.modulusRange p.toNat)
  else if isPrime p then .ok (ofPrime below p)
  else .error (.modulusComposite p.toNat)

end

end PlaneGeometry.Residues
