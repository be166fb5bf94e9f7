import PlaneGeometry.Scalar.Basic

/-! # Identity of scalars

Two scalars are identical if all of their parts are, origins included. Main statement: `identical`
decides equality of expressions. -/
namespace PlaneGeometry.Scalar

variable {α : Type} [Element α]

def identical : Scalar α → Scalar α → Bool
  | leaf o v, leaf o' v' => o == o' && v == v'
  | sum o xs, sum o' ys | product o xs, product o' ys => o == o' && all xs ys
  | diff o a b, diff o' a' b' | division o a b, division o' a' b'
  | between o a b, between o' a' b' => o == o' && a.identical a' && b.identical b'
  | opposite o x, opposite o' x' | inverse o x, inverse o' x' | different o x, different o' x'
  | greater o x, greater o' x' | lower o x, lower o' x' => o == o' && x.identical x'
  | zero o, zero o' | one o, one o' | random o, random o' => o == o'
  | throwing o e, throwing o' e' => o == o' && e == e'
  | norm o v, norm o' v' => o == o' && all v v'
  | angle o v w, angle o' v' w' | signedAngle o v w, signedAngle o' v' w' =>
    o == o' && all v v' && all w w'
  | live o s l i, live o' s' l' i' => o == o' && s == s' && l == l' && i == i'
  | _, _ => false
where
  all : List (Scalar α) → List (Scalar α) → Bool
    | [], [] => true
    | x :: xs, y :: ys => x.identical y && all xs ys
    | _, _ => false

theorem eq_of_identical (a b : Scalar α) : a.identical b = true → a = b := by
  apply identical.induct (fun xs ys => identical.all xs ys = true → xs = ys)
    (fun a b => a.identical b = true → a = b)
  all_goals intros; simp_all [identical, identical.all]

theorem identical_self : (a : Scalar α) → a.identical a = true
  | leaf .. | zero _ | one _ | random _ | throwing .. | live .. => by simp [identical]
  | sum _ xs | product _ xs | norm _ xs => by simp [identical, all_self xs]
  | diff _ a b | division _ a b | between _ a b => by
    simp [identical, identical_self a, identical_self b]
  | opposite _ x | inverse _ x | different _ x | greater _ x | lower _ x => by
    simp [identical, identical_self x]
  | angle _ v w | signedAngle _ v w => by simp [identical, all_self v, all_self w]
where
  all_self : (xs : List (Scalar α)) → identical.all xs xs = true
    | [] => rfl
    | x :: xs => by simp [identical.all, identical_self x, all_self xs]

theorem identical_iff (a b : Scalar α) : a.identical b = true ↔ a = b :=
  ⟨eq_of_identical a b, fun h => h ▸ identical_self a⟩

/-- Nodes at one address are identical, which spares the walk through parts that are shared. -/
instance : DecidableEq (Scalar α) := fun a b =>
  withPtrEqDecEq a b fun _ => decidable_of_iff _ (identical_iff a b)

end PlaneGeometry.Scalar
