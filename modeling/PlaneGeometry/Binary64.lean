import PlaneGeometry.Decimal.Notation
import PlaneGeometry.Field.Basic

/-! # Binary64 numbers as their bits

Comparison is defined on the bits and is that of the standard: NaN is comparable to nothing, and the
two zeros are equal. Arithmetic rounds to nearest. -/
namespace PlaneGeometry

structure Binary64 where
  bits : UInt64
  deriving DecidableEq, Repr

namespace Binary64

def ofFloat (x : Float) : Binary64 := ⟨x.toBits⟩
def toFloat (x : Binary64) : Float := Float.ofBits x.bits

/-- The bits without the sign; they grow with the absolute value. -/
def magnitude (x : Binary64) : UInt64 := x.bits &&& 0x7FFFFFFFFFFFFFFF

def isNegative (x : Binary64) : Bool := x.bits >>> 63 == 1
def isNaN (x : Binary64) : Bool := x.magnitude > 0x7FF0000000000000
def isFinite (x : Binary64) : Bool := x.magnitude < 0x7FF0000000000000

/-- Places the numbers in order; NaN has no place. -/
def rank? (x : Binary64) : Option Int :=
  if x.isNaN then none
  else some (if x.isNegative then -x.magnitude.toNat else x.magnitude.toNat)

def compare? (x y : Binary64) : Option Ordering := do
  return compare (← x.rank?) (← y.rank?)

def eqv (x y : Binary64) : Bool := compare? x y == some .eq
def lt (x y : Binary64) : Bool := compare? x y == some .lt
def le (x y : Binary64) : Bool := x.lt y || x.eqv y

/-- One key for both zeros. -/
def key (x : Binary64) : UInt64 := if x.magnitude == 0 then 0 else x.bits

instance : Element Binary64 where
  decEq := inferInstance
  eqv := eqv
  key := key
  text x := Decimal.Notation.shown.render x.bits

def quoted (x : Binary64) : String := Decimal.Notation.quoted.render x.bits

def quiet (x : Binary64) : Binary64 := ⟨x.bits ||| 0x8000000000000⟩

def ofResult (r : Float) : Binary64 := if r.isNaN then ⟨0xFFF8000000000000⟩ else ofFloat r

/-- The first NaN among the operands is passed on, made quiet. An operation on other operands that
has no value gives the default NaN, whose sign is set. -/
def combine (op : Float → Float → Float) (x y : Binary64) : Binary64 :=
  if x.isNaN then x.quiet
  else if y.isNaN then y.quiet
  else ofResult (op x.toFloat y.toFloat)

instance : Add Binary64 := ⟨combine fun x y => x + y⟩
instance : Sub Binary64 := ⟨combine fun x y => x - y⟩
instance : Mul Binary64 := ⟨combine fun x y => x * y⟩
instance : Div Binary64 := ⟨combine fun x y => x / y⟩
instance : Neg Binary64 := ⟨fun x => ⟨x.bits ^^^ 0x8000000000000000⟩⟩

def zero : Binary64 := ⟨0⟩
def one : Binary64 := ⟨0x3FF0000000000000⟩
def two : Binary64 := ⟨0x4000000000000000⟩

def abs (x : Binary64) : Binary64 := ⟨x.magnitude⟩
def sqrt (x : Binary64) : Binary64 := if x.isNaN then x.quiet else ofResult x.toFloat.sqrt

/-- The larger of the two; a NaN gives way to the other. -/
def max (x y : Binary64) : Binary64 :=
  if x.isNaN then y else if x.lt y then y else x

end Binary64
end PlaneGeometry
