import PlaneGeometry.Binary64
import PlaneGeometry.Field.Euclidean
import PlaneGeometry.Field.Generator

/-! # The field of binary64 numbers up to a tolerance -/
namespace PlaneGeometry.Approximate

open Binary64 (quoted)

/-- Sampling bounds, both inclusive, the tolerance of `same`, and how often `drawOther` tries. -/
structure Settings where
  min : Binary64 := .ofFloat (-10)
  max : Binary64 := .ofFloat 10
  eps : Binary64 := .ofFloat 1e-9
  attempts : Nat := 32

/-- A multiple of `2 ^ (-52)` in `[0, 1)`. -/
def fraction : Draw Generator Binary64 := do
  let bits : UInt64 := (← Generator.word) >>> 12
  return ⟨0x3FF0000000000000 ||| bits⟩ - .one

def lastFraction : Binary64 := ⟨0x3FEFFFFFFFFFFFFE⟩

/-- Lowers a width, place by place, until the last fraction of it above `lo` does not exceed `hi`.
Rounding makes it exceed `hi` by a few places at most. -/
def fitted (lo hi : Binary64) : Nat → Binary64 → Binary64
  | 0, width => width
  | n + 1, width =>
    if hi.lt (width * lastFraction + lo) then fitted lo hi n ⟨width.bits - 1⟩ else width

/-- A value in `[lo, hi]`; nothing is drawn unless `lo < hi`. -/
def uniform (lo hi : Binary64) : Draw Generator Binary64 := do
  if hi.le lo then return lo
  return (← fraction) * fitted lo hi 64 ((hi - lo) / lastFraction) + lo

def between (lo hi : Binary64) : ExceptT Error (StateM Generator) Binary64 :=
  match lo.compare? hi with
  | none => throw (.boundsIncomparable (quoted lo) (quoted hi))
  | some .gt => throw (.emptyInterval (quoted lo) (quoted hi))
  | some .eq => return lo
  | some .lt => uniform lo hi

def inv (x : Binary64) : Except Error Binary64 :=
  if x.eqv .zero then .error .inverseOfZero else .ok (.one / x)

namespace Settings

variable (c : Settings)

def validate : Except Error Settings :=
  if !(c.min.isFinite && c.max.isFinite) then .error .boundsInfinite
  else if c.max.lt c.min then .error (.boundsReversed (quoted c.min) (quoted c.max))
  else if !(Binary64.zero.le c.eps && c.eps.isFinite) then .error .tolerance
  else .ok c

def same (x y : Binary64) : Bool := x.eqv y || (x - y).abs.le c.eps

/-- Relative to the square root of the magnitude above unit scale, absolute below it. -/
def negligible (value magnitude : Binary64) : Bool :=
  value.abs.le (c.eps * magnitude.abs.sqrt.max .one)

def compare (x y : Binary64) : Option Ordering :=
  if c.same x y then some .eq else x.compare? y

def width : Binary64 := (c.max - c.min).max .one

def offset : Draw Generator Binary64 := do
  let u := Binary64.ofFloat (((← Generator.word) >>> 11).toFloat / 9007199254740992)
  return .two * c.eps + c.width * (.one - u)

def draw : Draw Generator Binary64 := uniform c.min c.max

/-- Draws until a value differs; after the last attempt the value is shifted by more than the
sampling width. -/
def drawOther (value : Binary64) : Nat → Draw Generator Binary64
  | 0 => return value + (c.width + .two * c.eps)
  | n + 1 => do
    let x ← c.draw
    if c.same x value then drawOther value n else return x

def order : FieldOrder Binary64 Generator where
  greater lo := return lo + (← c.offset)
  lower hi := return hi - (← c.offset)
  between := between
  compare := c.compare

def field : NumericField Binary64 Generator where
  name := "f64"
  zero := .zero
  neg x := -x
  add x y := x + y
  one := .one
  inv := inv
  mul x y := x * y
  same := c.same
  negligible := c.negligible
  draw := c.draw
  drawOther value := c.drawOther value c.attempts
  order := some c.order
  product := some Euclidean.product

end Settings
end PlaneGeometry.Approximate
