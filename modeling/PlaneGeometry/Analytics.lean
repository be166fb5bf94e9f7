import PlaneGeometry.Relation.Holds

/-! # Lines as functions

A line that is not a function of the asked coordinate has none of these values. -/
namespace PlaneGeometry.Interpretation

variable {α σ : Type} [Element α] (I : Interpretation α σ)

def slope (l : Line α) : Eval α σ α := do
  if ← I.holds (.vertical l) then throw .noSlope
  let d := l.direction .scratch
  I.value (.division .scratch d.y d.x)

def yAt (l : Line α) (x : Scalar α) : Eval α σ α := do
  if ← I.holds (.vertical l) then throw .notFunctionOfX
  let d := l.direction .scratch
  let slope := .division .scratch d.y d.x
  I.value (.plus .scratch l.a.y (.times .scratch slope (.diff .scratch x l.a.x)))

def intercept (l : Line α) : Eval α σ α := I.yAt l (.zero .scratch)

def xAt (l : Line α) (y : Scalar α) : Eval α σ α := do
  if ← I.holds (.horizontal l) then throw .notFunctionOfY
  let d := l.direction .scratch
  let slope := .division .scratch d.x d.y
  I.value (.plus .scratch l.a.x (.times .scratch slope (.diff .scratch y l.a.y)))

end PlaneGeometry.Interpretation
