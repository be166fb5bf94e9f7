import PlaneGeometry.Shape

/-! # Relations between plane figures -/
namespace PlaneGeometry

inductive Relation (α : Type) [Element α] where
  | vertical (l : Line α)
  | horizontal (l : Line α)
  | parallel (l m : Line α)
  | perpendicular (l m : Line α)
  | inLine (p : Point α) (l : Line α)
  | inCircle (p : Point α) (c : Circle α)
  | inSegment (p : Point α) (s : Segment α)
  | collinear (p q r : Point α)
  | samePoint (p q : Point α)

namespace Relation

variable {α : Type} [Element α]

/-- An expression meant to vanish when the relation holds; for `inSegment`, when the point lies on
the line of the segment. -/
def residual (o : Origin) : Relation α → Scalar α
  | vertical l => (l.direction o).x
  | horizontal l => (l.direction o).y
  | parallel l m => (l.direction (o.part 2)).cross o (m.direction (o.part 3))
  | perpendicular l m => (l.direction (o.part 2)).dot o (m.direction (o.part 3))
  | inLine p l => (l.a.towards (o.part 2) p).cross o (l.direction (o.part 3))
  | inSegment p s => (s.a.towards (o.part 2) p).cross o (s.a.towards (o.part 3) s.b)
  | inCircle p c =>
    .diff o ((c.center.towards (o.part 2) p).normSquared (o.part 0)) (c.radiusSquared (o.part 1))
  | collinear p q r => (p.towards (o.part 2) q).cross o (p.towards (o.part 3) r)
  | samePoint p q => (p.towards (o.part 2) q).normSquared o

/-- The squared size of the terms of the residual, beside which an inexact field judges it. -/
def magnitude (o : Origin) : Relation α → Scalar α
  | vertical l | horizontal l => (l.direction (o.part 2)).normSquared o
  | parallel l m | perpendicular l m => squares (l.direction (o.part 2)) (m.direction (o.part 3))
  | inLine p l => squares (l.a.towards (o.part 2) p) (l.direction (o.part 3))
  | inSegment p s => squares (s.a.towards (o.part 2) p) (s.a.towards (o.part 3) s.b)
  | inCircle p c =>
    .squared o <| .plus (o.part 0) ((c.center.towards (o.part 2) p).normSquared (o.part 3))
      (c.radiusSquared (o.part 4))
  | collinear p q r => squares (p.towards (o.part 2) q) (p.towards (o.part 3) r)
  | samePoint p q =>
    .squared o <| .plus (o.part 0) (p.vect.normSquared (o.part 3)) (q.vect.normSquared (o.part 4))
where
  squares (d e : Displacement α) : Scalar α :=
    .times o (d.normSquared (o.part 0)) (e.normSquared (o.part 1))

def text : Relation α → String
  | vertical l => l.text ++ " is vertical"
  | horizontal l => l.text ++ " is horizontal"
  | parallel l m => l.text ++ " is parallel to " ++ m.text
  | perpendicular l m => l.text ++ " is perpendicular to " ++ m.text
  | inLine p l => p.text ++ " lies on " ++ l.text
  | inCircle p c => p.text ++ " lies on " ++ c.text
  | inSegment p s => p.text ++ " lies on " ++ s.text
  | collinear p q r => p.text ++ ", " ++ q.text ++ ", " ++ r.text ++ " are collinear"
  | samePoint p q => p.text ++ " coincides with " ++ q.text

def applied (name : String) (arguments : List String) : String :=
  name ++ "(" ++ ", ".intercalate arguments ++ ")"

def debugText : Relation α → String
  | vertical l => applied "Vertical" [l.debugText]
  | horizontal l => applied "Horizontal" [l.debugText]
  | parallel l m => applied "Parallel" [l.debugText, m.debugText]
  | perpendicular l m => applied "Perpendicular" [l.debugText, m.debugText]
  | inLine p l => applied "PointInLine" [p.debugText, l.debugText]
  | inCircle p c => applied "PointInCircle" [p.debugText, c.debugText]
  | inSegment p s => applied "PointInSegment" [p.debugText, s.debugText]
  | collinear p q r => applied "Collinear" [p.debugText, q.debugText, r.debugText]
  | samePoint p q => applied "SamePoint" [p.debugText, q.debugText]

end Relation
end PlaneGeometry
