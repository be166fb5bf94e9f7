import PlaneGeometry.Bag
import PlaneGeometry.Scalar.Identity

/-! # Structural equality of scalars

Sums and products are compared as bags, all other nodes place by place. Leaves are equal if their
values are, and every scalar is equal to itself whatever its leaves hold. -/
namespace PlaneGeometry.Scalar

variable {α : Type} [Element α]

/-- Only scalars with equal digests are compared part by part. `matchAll` is `Bag.matchAll` at this
equality, and `pairwise` compares lists place by place. -/
def eqv (a b : Scalar α) : Bool :=
  a = b || a.digest == b.digest &&
    match a, b with
    | leaf _ v, leaf _ v' => Element.eqv v v'
    | sum _ xs, sum _ ys | product _ xs, product _ ys =>
      xs.length == ys.length && matchAll xs (Bag.sorted (·.digest) ys)
    | diff _ a b, diff _ a' b' | division _ a b, division _ a' b'
    | between _ a b, between _ a' b' => a.eqv a' && b.eqv b'
    | opposite _ x, opposite _ x' | inverse _ x, inverse _ x' | different _ x, different _ x'
    | greater _ x, greater _ x' | lower _ x, lower _ x' => x.eqv x'
    | zero _, zero _ | one _, one _ => true
    | random o, random o' => o == o'
    | throwing _ e, throwing _ e' => e == e'
    | norm _ v, norm _ v' => pairwise v v'
    | angle _ v w, angle _ v' w' | signedAngle _ v w, signedAngle _ v' w' =>
      pairwise v v' && pairwise w w'
    | live _ s _ i, live _ s' _ i' => s == s' && i == i'
    | _, _ => false
where
  matchAll : List (Scalar α) → List (Scalar α) → Bool
    | [], _ => true
    | x :: xs, pool =>
      match Bag.take (·.digest) x.digest (fun y => x.eqv y) pool with
      | none => false
      | some pool => matchAll xs pool
  pairwise : List (Scalar α) → List (Scalar α) → Bool
    | [], [] => true
    | x :: xs, y :: ys => x.eqv y && pairwise xs ys
    | _, _ => false

instance : BEq (Scalar α) := ⟨eqv⟩

def countDistinct (xs : List (Scalar α)) : Nat :=
  (xs.foldl (fun seen x => if seen.any (fun y => x.eqv y) then seen else x :: seen) []).length

end PlaneGeometry.Scalar
