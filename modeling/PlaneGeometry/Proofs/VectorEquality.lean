import PlaneGeometry.Proofs.Relations

/-!
# Equality of vectors

Vectors are compared coordinate by coordinate, up to the first difference. Where lengths differ or
the coordinates are structurally equal, nothing is evaluated. Over an exact field the shortcuts say
what the values say.
-/
namespace PlaneGeometry

variable {α σ K : Type} [Element α]

private theorem Vect.beq_iff {v w : Vect α} :
    (v == w) = true ↔ List.Forall₂ (Scalar.eqv · · = true) v w := by
  induction v generalizing w with
  | nil => cases w <;> simp
  | cons a v ih =>
    cases w with
    | nil => simp
    | cons b w =>
      rw [List.cons_beq_cons, Bool.and_eq_true, ih, List.forall₂_cons]
      rfl

namespace Interpretation

variable (I : Interpretation α σ)

private theorem vectEquals_of_length_ne {v w : Vect α} (h : v.length ≠ w.length) :
    I.vectEquals v w = pure false := if_neg h

private theorem vectEquals_cons (a b : Scalar α) {v w : Vect α} (h : v.length = w.length) :
    I.vectEquals (a :: v) (b :: w) =
      I.equals a b >>= fun r => if r then I.vectEquals v w else pure false := by
  have hlength : (a :: v).length = (b :: w).length := congrArg Nat.succ h
  rw [vectEquals, vectEquals, if_pos h, if_pos hlength, vectEquals.go]

private theorem vectEquals_of_eqv {v w : Vect α} (h : List.Forall₂ (Scalar.eqv · · = true) v w) :
    I.vectEquals v w = pure true := by
  induction h with
  | nil => rfl
  | @cons a b v w hab h ih =>
    have hequals : I.equals a b = pure true := if_pos hab
    rw [I.vectEquals_cons a b h.length_eq, hequals, pure_bind, if_pos rfl, ih]

end Interpretation

namespace World

variable [Field K] {F : NumericField α σ} {φ : α → K} (hF : F.ExactEquality φ) {w : World α σ}

include hF

private theorem equals_apply {a b : Scalar α} (ha : w.Evaluates F a) (hb : w.Evaluates F b) :
    ∃ r, F.interpretation.equals a b w = (.ok r, w) ∧
      (r = true ↔ F.interpretation.valueAt φ w a = F.interpretation.valueAt φ w b) :=
  hF.toExact.decides_equals hF.toReordering (fun _ _ => hF.element) ha.settled hb.settled
    (ha.hasValue φ) (hb.hasValue φ) w rfl

private theorem vectEquals_apply {v v' : Vect α} (hv : ∀ x ∈ v, w.Evaluates F x)
    (hv' : ∀ x ∈ v', w.Evaluates F x) :
    ∃ r, F.interpretation.vectEquals v v' w = (.ok r, w) ∧ (r = true ↔
      v.map (F.interpretation.valueAt φ w) = v'.map (F.interpretation.valueAt φ w)) := by
  by_cases hlength : v.length = v'.length
  · induction v generalizing v' with
    | nil =>
      obtain rfl := List.length_eq_zero_iff.1 hlength.symm
      exact ⟨true, rfl, iff_of_true rfl rfl⟩
    | cons a v ih =>
      obtain _ | ⟨b, v'⟩ := v'
      · cases hlength
      rw [List.forall_mem_cons] at hv hv'
      obtain ⟨r, hr, hab⟩ := equals_apply hF hv.1 hv'.1
      obtain ⟨t, ht, htail⟩ := ih hv.2 hv'.2 (Nat.succ.inj hlength)
      rw [List.map_cons, List.map_cons, List.cons.injEq, ← hab, ← htail]
      rw [F.interpretation.vectEquals_cons a b (Nat.succ.inj hlength)]
      refine ⟨r && t, (Eval.bind_ok hr _).trans ?_, Bool.and_eq_true r t ▸ Iff.rfl⟩
      cases r with
      | true => exact ht
      | false => rfl
  · rw [F.interpretation.vectEquals_of_length_ne hlength]
    refine ⟨false, rfl, iff_of_false Bool.false_ne_true fun h => hlength ?_⟩
    simpa using congrArg List.length h

private theorem vectEquals_true_iff {v v' : Vect α} (hv : ∀ x ∈ v, w.Evaluates F x)
    (hv' : ∀ x ∈ v', w.Evaluates F x) :
    F.interpretation.vectEquals v v' w = (.ok true, w) ↔
      v.map (F.interpretation.valueAt φ w) = v'.map (F.interpretation.valueAt φ w) := by
  obtain ⟨r, hr, htrue⟩ := vectEquals_apply hF hv hv'
  rw [← htrue, hr, Prod.mk.injEq, Except.ok.injEq, and_iff_left rfl]

omit hF in
theorem values_apply {v : Vect α} (hv : ∀ x ∈ v, w.Evaluates F x) :
    ∃ xs, F.interpretation.values v w = (.ok xs, w) ∧
      xs.map φ = v.map (F.interpretation.valueAt φ w) := by
  obtain ⟨xs, hxs, hmap⟩ := (hasVector_at φ hv).values.apply_some (w := w) rfl
  have hget := congrArg (List.map (F.interpretation.valueAt φ w)) (List.ofFn_get v)
  rw [List.map_ofFn] at hget
  exact ⟨xs, hxs, hmap.trans hget⟩

/-- A test of settled scalars succeeds only if they are structurally equal or their values stand for
one member of `K`. -/
theorem of_equals {a b : Scalar α} (ha : w.Settled a) (hb : w.Settled b) {u : World α σ}
    (h : F.interpretation.equals a b w = (.ok true, u)) :
    u = w ∧ (a.eqv b = true ∨ w.SameValue F φ a b) := by
  rw [Interpretation.equals] at h
  split at h
  · next heqv => exact ⟨(congrArg Prod.snd h).symm, .inl heqv⟩
  · obtain ⟨x, v, hx, hrest⟩ := Eval.bind_eq_ok h
    obtain rfl : v = w := (congrArg Prod.snd hx).symm.trans (ha.value_world F)
    obtain ⟨y, u', hy, hsame⟩ := Eval.bind_eq_ok hrest
    obtain rfl : u' = v := (congrArg Prod.snd hy).symm.trans (hb.value_world F)
    obtain ⟨hxy, hu⟩ := Prod.mk.inj hsame
    exact ⟨hu.symm, .inr ⟨x, y, hx, hy, (hF.same x y).1 (Except.ok.inj hxy)⟩⟩

private theorem of_vectEquals {v v' : Vect α} (hv : ∀ x ∈ v, w.Settled x)
    (hv' : ∀ x ∈ v', w.Settled x)
    {u : World α σ} (h : F.interpretation.vectEquals v v' w = (.ok true, u)) :
    u = w ∧ List.Forall₂ (fun a b => a.eqv b = true ∨ w.SameValue F φ a b) v v' := by
  by_cases hlength : v.length = v'.length
  · induction v generalizing v' with
    | nil =>
      obtain rfl := List.length_eq_zero_iff.1 hlength.symm
      exact ⟨(congrArg Prod.snd h).symm, .nil⟩
    | cons a v ih =>
      obtain _ | ⟨b, v'⟩ := v'
      · cases hlength
      rw [List.forall_mem_cons] at hv hv'
      rw [F.interpretation.vectEquals_cons a b (Nat.succ.inj hlength)] at h
      obtain ⟨r, t, hr, hrest⟩ := Eval.bind_eq_ok h
      cases r with
      | false => cases hrest
      | true =>
        obtain ⟨rfl, hab⟩ := of_equals hF hv.1 hv'.1 hr
        obtain ⟨hu, htail⟩ := ih hv.2 hv'.2 hrest (Nat.succ.inj hlength)
        exact ⟨hu, .cons hab htail⟩
  · rw [F.interpretation.vectEquals_of_length_ne hlength] at h
    cases h

end World

/-- Where lengths differ or coordinates are structurally equal, as those of one vector are, the
answer is there at once, whatever the coordinates would do if they were evaluated. -/
structure Interpretation.Foregoes (I : Interpretation α σ) : Prop where
  length {v w : Vect α} : v.length ≠ w.length → I.vectEquals v w = pure false
  structural {v w : Vect α} : (v == w) = true → I.vectEquals v w = pure true
  self (v : Vect α) : (v == v) = true

/-- Vectors whose coordinates evaluate are equal exactly if the values stand for the same members of
`K`, so equality is an equivalence between them. Where coordinates may fail, vectors are found equal
only if each two coordinates are structurally equal or have values that stand for one member. -/
structure World.ComparesVectors (F : NumericField α σ) (φ : α → K) (w : World α σ) : Prop where
  values {v v' : Vect α} : (∀ x ∈ v ++ v', w.Evaluates F x) → ∃ xs ys r,
    F.interpretation.values v w = (.ok xs, w) ∧ F.interpretation.values v' w = (.ok ys, w) ∧
      F.interpretation.vectEquals v v' w = (.ok r, w) ∧ (r = true ↔ xs.map φ = ys.map φ)
  equivalence : Equivalence fun v v' : { v : Vect α // ∀ x ∈ v, w.Evaluates F x } =>
    F.interpretation.vectEquals v v' w = (.ok true, w)
  settled {v v' : Vect α} {u : World α σ} : (∀ x ∈ v ++ v', w.Settled x) →
    F.interpretation.vectEquals v v' w = (.ok true, u) →
      u = w ∧ List.Forall₂ (fun a b => a.eqv b = true ∨ w.SameValue F φ a b) v v'

private theorem NumericField.ExactEquality.comparesVectors [Field K] {F : NumericField α σ}
    {φ : α → K} (hF : F.ExactEquality φ) (w : World α σ) : w.ComparesVectors F φ where
  values h := by
    obtain ⟨hv, hv'⟩ := List.forall_mem_append.1 h
    obtain ⟨xs, hxs, hx⟩ := World.values_apply (φ := φ) hv
    obtain ⟨ys, hys, hy⟩ := World.values_apply (φ := φ) hv'
    obtain ⟨r, hr, htrue⟩ := World.vectEquals_apply hF hv hv'
    rw [← hx, ← hy] at htrue
    exact ⟨xs, ys, r, hxs, hys, hr, htrue⟩
  equivalence := by
    have hiff (v v' : { v : Vect α // ∀ x ∈ v, w.Evaluates F x }) :=
      World.vectEquals_true_iff hF v.2 v'.2
    constructor
    case refl => exact fun v => (hiff v v).2 rfl
    case symm => exact fun {v v'} h => (hiff v' v).2 ((hiff v v').1 h).symm
    case trans =>
      intro v v' v'' h h'
      exact (hiff v v'').2 (((hiff v v').1 h).trans ((hiff v' v'').1 h'))
  settled h hequals := by
    obtain ⟨hv, hv'⟩ := List.forall_mem_append.1 h
    exact World.of_vectEquals hF hv hv' hequals

/-- Over any field, different lengths and structural equality decide without evaluating. Over a
prime field equality of vectors is congruence of their coordinates. -/
theorem Residues.vectors_compared :
    (∀ {α σ : Type} [Element α] (I : Interpretation α σ), I.Foregoes) ∧
      ∀ {p : UInt64} [Fact p.toNat.Prime], p.toNat < 2 ^ 32 →
        ∀ {σ : Type} {F : NumericField UInt64 σ}, Modular p F →
          ∀ w : World UInt64 σ, w.ComparesVectors F (residue p) := by
  constructor
  · intro α σ _ I
    have hself (v : Vect α) : (v == v) = true :=
      Vect.beq_iff.2 (List.forall₂_same.2 fun x _ => x.eqv_refl)
    exact ⟨I.vectEquals_of_length_ne, fun h => I.vectEquals_of_eqv (Vect.beq_iff.1 h), hself⟩
  · intro p _ hlt σ F hF w
    exact (hF.exactEquality hlt).comparesVectors w

namespace Specimen

open Residues

/-- A coordinate that fails is equal to itself, and other coordinates if their values are congruent
modulo seven. -/
theorem vectors_compared_failing :
    moduloSeven.interpretation.vectEquals [affineInA, .throwing ⟨101, []⟩ .noVectors]
        [affineExchanged, .throwing ⟨102, []⟩ .noVectors] = pure true ∧
      moduloSeven.interpretation.vectEquals [affineInA, .one ⟨103, []⟩]
        [.leaf ⟨104, []⟩ 12, .leaf ⟨105, []⟩ 15] figureA = (.ok true, figureA) := by
  obtain ⟨hforegoes, hcompares⟩ := vectors_compared
  constructor
  · have hthrowing : (Scalar.throwing ⟨101, []⟩ .noVectors : Scalar UInt64).eqv
        (.throwing ⟨102, []⟩ .noVectors) = true := Scalar.lawfulEquality.congr .throwing
    refine (hforegoes _).structural (Vect.beq_iff.2 ?_)
    exact .cons affineInA_eqv_affineExchanged (.cons hthrowing .nil)
  · have hvalues : ∀ x ∈ ([affineInA, .one ⟨103, []⟩] : Vect UInt64) ++
        [.leaf ⟨104, []⟩ 12, .leaf ⟨105, []⟩ 15], figureA.Evaluates moduloSeven x := by
      decide +kernel
    obtain ⟨xs, ys, r, hxs, hys, hr, htrue⟩ :=
      (hcompares (p := 7) (by decide) modular_moduloSeven figureA).values hvalues
    obtain rfl : xs = [5, 1] :=
      Eval.ok_unique hxs (Eval.ok_of_toOption hxs (by decide +kernel))
    obtain rfl : ys = [12, 15] :=
      Eval.ok_unique hys (Eval.ok_of_toOption hys (by decide +kernel))
    obtain rfl : r = true := htrue.2 (by decide +kernel)
    exact hr

end Specimen
end PlaneGeometry
