import PlaneGeometry.Vect

/-! # Points, lines, segments and circles

Each is composed of scalar expressions, so a shape follows what its coordinates read. -/
namespace PlaneGeometry

structure Point (α : Type) [Element α] where
  x : Scalar α
  y : Scalar α

structure Displacement (α : Type) [Element α] where
  x : Scalar α
  y : Scalar α

structure Line (α : Type) [Element α] where
  a : Point α
  b : Point α

structure Segment (α : Type) [Element α] where
  a : Point α
  b : Point α

/-- A circle keeps a point that lies on it, so that membership needs no square root. -/
structure Circle (α : Type) [Element α] where
  center : Point α
  radius : Scalar α
  rim : Point α

variable {α : Type} [Element α]

namespace Displacement

def vect (d : Displacement α) : Vect α := [d.x, d.y]
def dot (o : Origin) (d e : Displacement α) : Scalar α := Vect.dotSum o d.vect e.vect
def normSquared (o : Origin) (d : Displacement α) : Scalar α := d.dot o d

def cross (o : Origin) (d e : Displacement α) : Scalar α :=
  .diff o (.times (o.part 0) d.x e.y) (.times (o.part 1) d.y e.x)

/-- A quarter turn counterclockwise. -/
def turned (o : Origin) (d : Displacement α) : Displacement α := ⟨.opposite o d.y, d.x⟩

end Displacement

namespace Point

def vect (p : Point α) : Vect α := [p.x, p.y]

def ofValues (o : Origin) (x y : α) : Point α := ⟨.leaf (o.part 0) x, .leaf (o.part 1) y⟩

def origin (o : Origin) : Point α := ⟨.zero (o.part 0), .zero (o.part 1)⟩

def ofVect : Vect α → Except Error (Point α)
  | [x, y] => .ok ⟨x, y⟩
  | v => .error (.dimension 2 v.length)

def throwing (o : Origin) (e : Error) : Point α := ⟨.throwing o e, .throwing o e⟩

def isThrowing (p : Point α) : Bool := p.x.isThrowing || p.y.isThrowing

def towards (o : Origin) (p q : Point α) : Displacement α :=
  ⟨.diff (o.part 0) q.x p.x, .diff (o.part 1) q.y p.y⟩

def shifted (o : Origin) (p : Point α) (d : Displacement α) : Point α :=
  ⟨.plus (o.part 0) p.x d.x, .plus (o.part 1) p.y d.y⟩

/-- `p + k d`. -/
def along (o : Origin) (p : Point α) (k : Scalar α) (d : Displacement α) : Point α :=
  p.shifted o ⟨.times ((o.part 0).part 0) k d.x, .times ((o.part 1).part 0) k d.y⟩

def offset (o : Origin) (p : Point α) (d : Vect α) : Except Error (Point α) := do
  ofVect (← p.vect.plus o d)

def offsetScaled (o : Origin) (p : Point α) (k : Scalar α) (d : Vect α) :
    Except Error (Point α) :=
  p.offset o (d.scale (o.part 2) k)

end Point

namespace Line

def ofDirection (o : Origin) (a : Point α) (d : Vect α) : Except Error (Line α) := do
  return ⟨a, ← a.offset o d⟩

def throwing (o : Origin) (e : Error) : Line α := ⟨.throwing o e, .throwing o e⟩
def direction (o : Origin) (l : Line α) : Displacement α := l.a.towards o l.b

def normal (o : Origin) (l : Line α) : Displacement α :=
  (l.direction (o.part 0)).turned (o.part 1)

/-- `a + t (b - a)`. -/
def pointAt (o : Origin) (l : Line α) (t : Scalar α) : Point α :=
  l.a.along o t (l.direction (o.part 2))

end Line

namespace Segment

def throwing (o : Origin) (e : Error) : Segment α := ⟨.throwing o e, .throwing o e⟩
def line (s : Segment α) : Line α := ⟨s.a, s.b⟩
def lengthSquared (o : Origin) (s : Segment α) : Scalar α :=
  (s.a.towards (o.part 0) s.b).normSquared o
def length (o : Origin) (s : Segment α) : Scalar α := .norm o (s.a.towards (o.part 0) s.b).vect

def midpoint (o : Origin) (s : Segment α) : Point α :=
  let half := .inverse (o.part 2) (.two (o.part 3))
  ⟨.times (o.part 0) (.plus ((o.part 0).part 0) s.a.x s.b.x) half,
    .times (o.part 1) (.plus ((o.part 1).part 0) s.a.y s.b.y) half⟩

def pointAt (o : Origin) (s : Segment α) (t : Scalar α) : Point α := s.line.pointAt o t

end Segment

namespace Circle

/-- The point on the circle lies to the right of the center. -/
def ofRadius (o : Origin) (center : Point α) (radius : Scalar α) : Circle α :=
  ⟨center, radius, ⟨.plus o center.x radius, center.y⟩⟩

def through (o : Origin) (center point : Point α) : Circle α :=
  ⟨center, .norm o (center.towards (o.part 0) point).vect, point⟩

def throwing (o : Origin) (e : Error) : Circle α :=
  ⟨.throwing (o.part 0) e, .throwing (o.part 1) e, .throwing (o.part 0) e⟩

def radiusSquared (o : Origin) (c : Circle α) : Scalar α :=
  (c.center.towards (o.part 0) c.rim).normSquared o

end Circle

instance : BEq (Point α) := ⟨fun p q => p.x == q.x && p.y == q.y⟩
instance : BEq (Line α) := ⟨fun l m => l.a == m.a && l.b == m.b⟩
instance : BEq (Segment α) := ⟨fun s t => s.a == t.a && s.b == t.b⟩

instance : BEq (Circle α) :=
  ⟨fun c d => c.center == d.center && c.radius == d.radius && c.rim == d.rim⟩

def Point.text (p : Point α) : String := "(" ++ p.x.text ++ ", " ++ p.y.text ++ ")"
def Point.debugText (p : Point α) : String := "Point" ++ p.text
def Line.text (l : Line α) : String := "line[" ++ l.a.text ++ " -> " ++ l.b.text ++ "]"
def Segment.text (s : Segment α) : String := "segment[" ++ s.a.text ++ ", " ++ s.b.text ++ "]"
def Circle.text (c : Circle α) : String :=
  "circle[" ++ c.center.text ++ ", r=" ++ c.radius.text ++ "]"

def Line.debugText (l : Line α) : String :=
  "Line \x7b a: " ++ l.a.debugText ++ ", b: " ++ l.b.debugText ++ " \x7d"

def Segment.debugText (s : Segment α) : String :=
  "Segment \x7b a: " ++ s.a.debugText ++ ", b: " ++ s.b.debugText ++ " \x7d"

def Circle.debugText (c : Circle α) : String :=
  "Circle \x7b center: " ++ c.center.debugText ++ ", radius: " ++ c.radius.debugText ++ ", on: " ++
    c.rim.debugText ++ " \x7d"

end PlaneGeometry
