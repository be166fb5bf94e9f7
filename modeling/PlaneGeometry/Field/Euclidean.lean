import PlaneGeometry.Binary64
import PlaneGeometry.Field.Basic

/-! # The Euclidean inner product of binary64 coordinates

Rounding makes the order of additions part of the result. -/
namespace PlaneGeometry.Euclidean

/-- Eight running sums, one for each place in a block of eight products. -/
structure Lanes where
  s0 : Binary64 := .zero
  s1 : Binary64 := .zero
  s2 : Binary64 := .zero
  s3 : Binary64 := .zero
  s4 : Binary64 := .zero
  s5 : Binary64 := .zero
  s6 : Binary64 := .zero
  s7 : Binary64 := .zero

/-- Lanes four apart are added first, then these four sums in order. -/
def Lanes.total (l : Lanes) : Binary64 :=
  .zero + (l.s0 + l.s4) + (l.s1 + l.s5) + (l.s2 + l.s6) + (l.s3 + l.s7)

/-- Full blocks of eight go to the lanes; the products left over are added one at a time. -/
def Lanes.gather (l : Lanes) : List Binary64 → Binary64
  | p0 :: p1 :: p2 :: p3 :: p4 :: p5 :: p6 :: p7 :: rest =>
    Lanes.gather ⟨l.s0 + p0, l.s1 + p1, l.s2 + p2, l.s3 + p3, l.s4 + p4, l.s5 + p5, l.s6 + p6,
      l.s7 + p7⟩ rest
  | rest => rest.foldl (· + ·) l.total

def dot (a b : List Binary64) : Binary64 := Lanes.gather {} (List.zipWith (· * ·) a b)

/-- No rescaling: the sum of squares may overflow or underflow. -/
def norm (a : List Binary64) : Binary64 := (.zero + dot a a).sqrt

def paired {β : Type} (a b : List Binary64) (f : Except Error β) : Except Error β :=
  if a.length = b.length then f else .error (.dimension a.length b.length)

def nonzero {β : Type} (a b : List Binary64) (f : Except Error β) : Except Error β :=
  if (norm a).eqv .zero || (norm b).eqv .zero then .error .angleWithZero else f

def clamp (x : Binary64) : Binary64 :=
  if x.lt (-.one) then -.one else if Binary64.one.lt x then .one else x

def angle (a b : List Binary64) : Except Error Binary64 :=
  paired a b <| nonzero a b <|
    .ok (.ofFloat (clamp (dot a b / (norm a * norm b))).toFloat.acos)

def halfTurn : Binary64 := ⟨0x400921FB54442D18⟩

/-- In `(-π, π]`: a negative zero in the cross product would give the excluded end. -/
def signedAngle (a b : List Binary64) : Except Error Binary64 :=
  match a with
  | [x, y] => paired a b <| nonzero a b <|
    let cross := x * b.getD 1 .zero - y * b.getD 0 .zero
    let theta := Binary64.ofFloat (Float.atan2 cross.toFloat (dot a b).toFloat)
    .ok (if theta.le (-halfTurn) then halfTurn else theta)
  | _ => .error (.dimension 2 a.length)

def product : InnerProduct Binary64 where
  inner a b := paired a b (.ok (dot a b))
  norm a := .ok (norm a)
  angle := angle
  signedAngle := signedAngle

end PlaneGeometry.Euclidean
