import PlaneGeometry.Error

/-! # Fields as records of arithmetic, tests and samplers

The type `σ` is the state that samplers use up. Arithmetic and tests are functions; only the
samplers read or change the state. Ordering and inner product are optional. -/
namespace PlaneGeometry

/-- What a leaf can hold. `eqv` compares values and need not be reflexive. Values that are `eqv`
have one key. -/
class Element (α : Type) where
  decEq : DecidableEq α
  eqv : α → α → Bool
  key : α → UInt64
  text : α → String

instance (priority := low) {α : Type} [Element α] : DecidableEq α := Element.decEq

instance : Element UInt64 where
  decEq := inferInstance
  eqv x y := x == y
  key x := x
  text x := toString x

abbrev Draw (σ α : Type) := StateM σ α

/-- `greater` and `lower` draw beyond a bound, `between` inside two of them;
`compare` allows for the tolerance of the field. -/
structure FieldOrder (α σ : Type) where
  greater : α → Draw σ α
  lower : α → Draw σ α
  between : α → α → ExceptT Error (StateM σ) α
  compare : α → α → Option Ordering

/-- The signed angle is oriented from the first list to the second and needs two coordinates. -/
structure InnerProduct (α : Type) where
  inner : List α → List α → Except Error α
  norm : List α → Except Error α
  angle : List α → List α → Except Error α
  signedAngle : List α → List α → Except Error α

/-- `same` is value equality up to the tolerance of the field. `negligible v m` says that `v`
vanishes beside `m`, the squared size of the terms it was computed from. -/
structure NumericField (α σ : Type) where
  name : String
  zero : α
  neg : α → α
  add : α → α → α
  one : α
  inv : α → Except Error α
  mul : α → α → α
  same : α → α → Bool
  negligible : α → α → Bool
  draw : Draw σ α
  drawOther : α → Draw σ α
  order : Option (FieldOrder α σ)
  product : Option (InnerProduct α)

namespace NumericField

variable {α σ : Type} (F : NumericField α σ)

def isZero (x : α) : Bool := F.same x F.zero

def sub (x y : α) : α := F.add x (F.neg y)

def ordered : Except Error (FieldOrder α σ) :=
  match F.order with
  | some o => .ok o
  | none => .error (.unsupported .ordering F.name)

def metric : Except Error (InnerProduct α) :=
  match F.product with
  | some p => .ok p
  | none => .error (.unsupported .metric F.name)

end NumericField
end PlaneGeometry
