import PlaneGeometry.Scalar.Equality
import PlaneGeometry.Scalar.Text

/-! # Vectors of scalar expressions

Operations check lengths before they build anything. -/
namespace PlaneGeometry

/-- The first `n` columns of a list of rows. -/
def Rows.columns {β : Type} : Nat → List (List β) → List (List β)
  | 0, _ => []
  | n + 1, rows => rows.filterMap List.head? :: columns n (rows.map List.tail)

/-- A list is allocated in less than `2 ^ 63` bytes, with a reference of eight for each scalar. -/
def capacity : Nat := UInt64.size / 16

abbrev Vect (α : Type) [Element α] := List (Scalar α)

namespace Vect

variable {α : Type} [Element α]

def ofValues (o : Origin) (values : List α) : Vect α :=
  values.mapIdx fun i v => .leaf (o.part i) v

def zeros (o : Origin) (n : Nat) : Except Fault (Vect α) :=
  if n < capacity then .ok ((List.range n).map fun i => .zero (o.part i)) else .error .overflow

def basis (o : Origin) (n i : Nat) : Except Fault (Vect α) :=
  if i < n then
    if n < capacity then
      .ok ((List.range n).map fun k => if k = i then .one (o.part k) else .zero (o.part k))
    else .error .overflow
  else .error (.error (.basisRange i n))

def coord (v : Vect α) (i : Nat) : Except Error (Scalar α) :=
  match v[i]? with
  | some x => .ok x
  | none => .error (.coordinateRange i v.length)

def checkLength (v w : Vect α) : Except Error Unit :=
  if v.length = w.length then .ok () else .error (.dimension v.length w.length)

def checkPlane (v : Vect α) : Except Error Unit :=
  if v.length = 2 then .ok () else .error (.dimension 2 v.length)

def zip (f : Origin → Scalar α → Scalar α → Scalar α) (o : Origin) (v w : Vect α) :
    Except Error (Vect α) := do
  checkLength v w
  return (List.zip v w).mapIdx fun i p => f (o.part i) p.1 p.2

def combine (f : Origin → List (Scalar α) → Scalar α) (o : Origin) :
    List (Vect α) → Except Error (Vect α)
  | [] => .error .noVectors
  | v :: vs => do
    vs.forM (checkLength v)
    return (Rows.columns v.length (v :: vs)).mapIdx fun i xs => f (o.part i) xs

def sum (o : Origin) (vs : List (Vect α)) : Except Error (Vect α) := combine .sum o vs
def times (o : Origin) (vs : List (Vect α)) : Except Error (Vect α) := combine .product o vs
def plus (o : Origin) (v w : Vect α) : Except Error (Vect α) := zip .plus o v w
def minus (o : Origin) (v w : Vect α) : Except Error (Vect α) := zip .diff o v w

def scale (o : Origin) (k : Scalar α) (v : Vect α) : Vect α :=
  v.mapIdx fun i x => .times (o.part i) k x

def opposite (o : Origin) (v : Vect α) : Vect α := v.mapIdx fun i x => .opposite (o.part i) x

def dotSum (o : Origin) (v w : Vect α) : Scalar α :=
  .sum o ((List.zip v w).mapIdx fun i p => .times (o.part i) p.1 p.2)

def dot (o : Origin) (v w : Vect α) : Except Error (Scalar α) := do
  checkLength v w
  return dotSum o v w

def normSquared (o : Origin) (v : Vect α) : Scalar α := dotSum o v v

def norm (o : Origin) (v : Vect α) : Scalar α := .norm o v

def angle (o : Origin) (v w : Vect α) : Except Error (Scalar α) := do
  checkLength v w
  return .angle o v w

/-- Oriented from the first vector to the second, in the plane. -/
def signedAngle (o : Origin) (v w : Vect α) : Except Error (Scalar α) := do
  checkPlane v
  checkLength v w
  return .signedAngle o v w

/-- A quarter turn counterclockwise. -/
def perp (o : Origin) (v : Vect α) : Except Error (Vect α) :=
  match v with
  | [x, y] => .ok [.opposite o y, x]
  | _ => .error (.dimension 2 v.length)

/-- `x₁y₂ - y₁x₂`. -/
def cross (o : Origin) (v w : Vect α) : Except Error (Scalar α) :=
  match v, w with
  | [x, y], [x', y'] => .ok (.diff o (.times (o.part 0) x y') (.times (o.part 1) y x'))
  | [_, _], _ => .error (.dimension 2 w.length)
  | _, _ => .error (.dimension 2 v.length)

def isDeterministic (v : Vect α) : Bool := v.all Scalar.isDeterministic

def text (v : Vect α) : String := Scalar.write.writeList "" v
def debugText (v : Vect α) : String := "Vect" ++ text v

end Vect
end PlaneGeometry
