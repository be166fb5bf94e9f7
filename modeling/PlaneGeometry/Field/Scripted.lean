import PlaneGeometry.Field.Basic

/-! # Fields whose draws follow a script -/
namespace PlaneGeometry

/-- What a script needs to know about elements besides the field: the successor for when every
draw is refused, the offset of a draw beyond a bound, and plain comparison. -/
structure Scriptable (α : Type) where
  successor : α → α
  offset : α → α
  compare : α → α → Option Ordering

/-- A list of draws, used over and over. -/
structure Script (α : Type) where
  first : α
  rest : List α

namespace Script

variable {α σ : Type} (s : Script α)

def toList : List α := s.first :: s.rest

/-- Counts the draws used, beside the state of the field underneath. -/
abbrev Used (σ : Type) := Nat × σ

def draw : Draw (Used σ) α := fun (used, g) =>
  (s.toList.getD (used % s.toList.length) s.first, (used + 1, g))

def drawOther (F : NumericField α σ) (k : Scriptable α) (value : α) : Nat → Draw (Used σ) α
  | 0 => return k.successor value
  | n + 1 => do
    let x ← s.draw
    if F.same x value then drawOther F k value n else return x

/-- Runs the field underneath, using no scripted draw. -/
def under {β : Type} (x : ExceptT Error (StateM σ) β) : ExceptT Error (StateM (Used σ)) β :=
  fun (used, g) =>
    let (r, g) := x.run.run g
    (r, (used, g))

/-- A draw outside the interval is moved to the nearer end. -/
def between (o : FieldOrder α σ) (k : Scriptable α) (lo hi : α) :
    ExceptT Error (StateM (Used σ)) α :=
  match k.compare lo hi with
  | some .lt => do
    let x ← (s.draw : Draw (Used σ) α)
    if k.compare x lo = some .lt then return lo
    else if k.compare x hi = some .gt then return hi
    else return x
  | _ => under (o.between lo hi)

def order (F : NumericField α σ) (k : Scriptable α) (o : FieldOrder α σ) :
    FieldOrder α (Used σ) where
  greater lo := return F.add lo (k.offset (← s.draw))
  lower hi := return F.add hi (F.neg (k.offset (← s.draw)))
  between := s.between o k
  compare := o.compare

def field (F : NumericField α σ) (k : Scriptable α) : NumericField α (Used σ) where
  name := F.name
  zero := F.zero
  neg := F.neg
  add := F.add
  one := F.one
  inv := F.inv
  mul := F.mul
  same := F.same
  negligible := F.negligible
  draw := s.draw
  drawOther value := s.drawOther F k value s.toList.length
  order := F.order.map (s.order F k)
  product := F.product

end Script
end PlaneGeometry
