import PlaneGeometry.Mat
import PlaneGeometry.World.Basic

/-! # Evaluation of scalars

Operands are evaluated from left to right before the operation of the node, and again at each
occurrence: nothing is remembered between them. -/
namespace PlaneGeometry

/-- A field, and how sources of live coordinates are read. -/
structure Interpretation (α σ : Type) [Element α] where
  field : NumericField α σ
  read : SourceId → Eval α σ (α × α)

variable {α σ : Type} [Element α]

/-- Joins values from the left; no neutral element is mixed in. -/
def joined (f : α → α → α) (neutral : α) : List α → α
  | [] => neutral
  | x :: xs => xs.foldl f x

def liveCoordinate (label : String) (p : α × α) : Nat → Except Error α
  | 0 => .ok p.1
  | 1 => .ok p.2
  | i => .error (.liveRange i label 2)

namespace Scalar

/-- Divisors are tested exactly: a tiny one is still a divisor. -/
def nonzero (F : NumericField α σ) (x : α) (e : Error) : Except Error α :=
  if Element.eqv x F.zero then .error e else .ok x

/-- A missing capability is noticed before any operand is evaluated. -/
def value (I : Interpretation α σ) : Scalar α → Eval α σ α
  | leaf _ v => return v
  | sum _ xs => return joined I.field.add I.field.zero (← values xs)
  | product _ xs => return joined I.field.mul I.field.one (← values xs)
  | diff _ a b => do
    let x ← a.value I
    let y ← b.value I
    return I.field.sub x y
  | division _ a b => do
    let x ← a.value I
    let y ← b.value I
    let y ← nonzero I.field y .divisionByIdentity
    let inv ← I.field.inv y
    return I.field.mul x inv
  | opposite _ x => return I.field.neg (← x.value I)
  | inverse _ x => do
    let y ← x.value I
    let y ← nonzero I.field y .inverseOfIdentity
    I.field.inv y
  | zero _ => return I.field.zero
  | one _ => return I.field.one
  | random _ => World.sampling I.field.draw
  | different _ x => do
    let y ← x.value I
    World.sampling (I.field.drawOther y)
  | between _ a b => do
    let order ← I.field.ordered
    let lo ← a.value I
    let hi ← b.value I
    World.trying (order.between lo hi)
  | greater _ x => do
    let order ← I.field.ordered
    let lo ← x.value I
    World.sampling (order.greater lo)
  | lower _ x => do
    let order ← I.field.ordered
    let hi ← x.value I
    World.sampling (order.lower hi)
  | throwing _ e => throw (.deferred e)
  | norm _ v => do
    let p ← I.field.metric
    let x ← values v
    p.norm x
  | angle _ v w => do
    let p ← I.field.metric
    let x ← values v
    let y ← values w
    p.angle x y
  | signedAngle _ v w => do
    let p ← I.field.metric
    let x ← values v
    let y ← values w
    p.signedAngle x y
  | live _ source label index => do
    let p ← I.read source
    liveCoordinate label p index
where
  values : List (Scalar α) → Eval α σ (List α)
    | [] => return []
    | x :: xs => do
      let y ← x.value I
      let ys ← values xs
      return y :: ys

end Scalar

namespace Interpretation

variable (I : Interpretation α σ)

def value (x : Scalar α) : Eval α σ α := x.value I
def values (v : Vect α) : Eval α σ (List α) := Scalar.value.values I v

def point (p : Point α) : Eval α σ (α × α) := do
  let x ← I.value p.x
  let y ← I.value p.y
  return (x, y)

def attempt (x : Scalar α) : Act α σ (Except Error α) := (I.value x).run

def matrix (m : Mat α) : Eval α σ (List (List α)) := m.toLines.mapM I.values

/-- All entries, the first column before the second. They are evaluated line by line. -/
def dense (m : Mat α) : Eval α σ (List α) := do
  let rows ← I.matrix m
  return if rows.isEmpty then [] else (Rows.columns m.columns rows).flatten

/-- Structurally equal scalars are equal without being evaluated. -/
def equals (a b : Scalar α) : Eval α σ Bool :=
  if a.eqv b then return true
  else do
    let x ← I.value a
    let y ← I.value b
    return I.field.same x y

def vectEquals (v w : Vect α) : Eval α σ Bool :=
  if v.length = w.length then go v w else return false
where
  go : Vect α → Vect α → Eval α σ Bool
    | a :: v, b :: w => do
      if ← I.equals a b then go v w else return false
    | _, _ => return true

end Interpretation
end PlaneGeometry
