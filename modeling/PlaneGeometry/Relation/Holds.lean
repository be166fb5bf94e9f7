import PlaneGeometry.Relation.Basic
import PlaneGeometry.Scalar.Value

/-! # When relations hold -/
namespace PlaneGeometry.Interpretation

variable {α σ : Type} [Element α] (I : Interpretation α σ)

def vanishes (r : Relation α) : Eval α σ Bool := do
  let residual ← I.value (r.residual .scratch)
  let magnitude ← I.value (r.magnitude .scratch)
  return I.field.negligible residual magnitude

/-- Coordinate by coordinate, for fields in which a sum of squares can vanish. -/
def samePoint (p q : Point α) : Eval α σ Bool := I.vectEquals p.vect q.vect

/-- `t` lies in `[0, len]`, where a value that is negligible beside the square of `len` counts as
zero. -/
def inRange (order : FieldOrder α σ) (t len : α) : Bool :=
  let F := I.field
  let scale := F.mul len len
  let above := order.compare t F.zero
  let below := order.compare t len
  (above == some .gt || above == some .eq || F.negligible t scale) &&
    (below == some .lt || below == some .eq || F.negligible (F.sub len t) scale)

/-- The point is on the line of the segment, and its projection lies between the ends. A segment of
no length is its end. -/
def inSegment (p : Point α) (s : Segment α) : Eval α σ Bool := do
  let order ← I.field.ordered
  let d := s.a.towards .scratch s.b
  let len ← I.value (d.normSquared .scratch)
  if Element.eqv len I.field.zero then I.samePoint p s.a
  else if ← I.vanishes (.inSegment p s) then do
    let t ← I.value ((s.a.towards .scratch p).dot .scratch d)
    return I.inRange order t len
  else return false

def holds : Relation α → Eval α σ Bool
  | .samePoint p q => I.samePoint p q
  | .inSegment p s => I.inSegment p s
  | r => I.vanishes r

end PlaneGeometry.Interpretation
