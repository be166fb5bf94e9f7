import PlaneGeometry.Proofs.Nodes
import PlaneGeometry.Proofs.Residues

/-!
# Equal scalars have equal values

Structural equality permutes the operands of sums and products, at any depth, and evaluation joins
them from the left. Where joining does not mind the order, equal scalars evaluate alike, so it does
no harm to compare them without evaluating them.
-/
namespace PlaneGeometry

variable {α σ : Type} [Element α]

/-- Sums and products come out the same in any order, representatives included. -/
structure NumericField.Reordering (F : NumericField α σ) : Prop where
  add_comm (x y : α) : F.add x y = F.add y x
  add_right_comm (x y z : α) : F.add (F.add x y) z = F.add (F.add x z) y
  mul_comm (x y : α) : F.mul x y = F.mul y x
  mul_right_comm (x y z : α) : F.mul (F.mul x y) z = F.mul (F.mul x z) y

omit [Element α] in
/-- The first operand is joined with the others as they are with one another; alone it is left as it
is. -/
theorem joined_perm {f : α → α → α} (hcomm : ∀ x y, f x y = f y x)
    (hright : ∀ x y z, f (f x y) z = f (f x z) y) (neutral : α) {xs ys : List α}
    (h : xs.Perm ys) : joined f neutral xs = joined f neutral ys := by
  induction h with
  | nil => rfl
  | cons x h =>
    have : RightCommutative f := ⟨hright⟩
    exact h.foldl_eq x
  | swap x y l => exact congrArg (l.foldl f) (hcomm y x)
  | trans _ _ ih ih' => exact ih.trans ih'

theorem mapM_id_eq {κ : Type} (ds : List (Option κ)) :
    ds.mapM id = if ∀ d ∈ ds, d.isSome = true then some (ds.filterMap id) else none := by
  induction ds with
  | nil => rfl
  | cons d ds ih =>
    rw [List.mapM_cons, ih]
    cases d with
    | none => simp
    | some k => split <;> simp_all

omit [Element α] in
theorem joined_mapM_perm {f : α → α → α} (hcomm : ∀ x y, f x y = f y x)
    (hright : ∀ x y z, f (f x y) z = f (f x z) y) (neutral : α) {ds ds' : List (Option α)}
    (h : ds.Perm ds') : (do return joined f neutral (← ds.mapM id)) =
      (do return joined f neutral (← ds'.mapM id) : Option α) := by
  simp only [mapM_id_eq, h.mem_iff]
  split
  · exact congrArg some (joined_perm hcomm hright neutral (h.filterMap id))
  · rfl

private theorem map_eq_of_forall₂ {β κ : Type} {f : β → κ} {xs ys : List β}
    (h : List.Forall₂ (fun x y => f x = f y) xs ys) : xs.map f = ys.map f := by
  induction h with
  | nil => rfl
  | cons h _ ih => rw [List.map_cons, List.map_cons, h, ih]

namespace Interpretation

variable (I : Interpretation α σ) (w : World α σ)

/-- The value at the world, if there is one. -/
def outcome (s : Scalar α) : Option α := (s.value I w).1.toOption

variable {I w}

theorem outcome_eq_some {s : Scalar α} {v : α} :
    I.outcome w s = some v ↔ (s.value I w).1 = .ok v := by
  rw [outcome]
  cases (s.value I w).1 <;> simp [Except.toOption]

theorem stands_outcome {s : Scalar α} (h : (s.value I w).2 = w) :
    Stands (· = w) id (s.value I) (I.outcome w s) := by
  rintro _ rfl
  exact ⟨h, Option.map_id_apply ..⟩

theorem outcome_eq {s : Scalar α} {d : Option α} (h : Stands (· = w) id (s.value I) d) :
    I.outcome w s = d := by
  rw [← (h w rfl).2, Option.map_id_apply, outcome]

theorem stands_values {xs : List (Scalar α)} (h : ∀ x ∈ xs, (x.value I w).2 = w) :
    Stands (· = w) id (Scalar.value.values I xs) ((xs.map (I.outcome w)).mapM id) := by
  have hx : List.Forall₂ (fun x d => Stands (· = w) id (x.value I) d) xs
      (xs.map (I.outcome w)) :=
    List.forall₂_map_right_iff.2 (List.forall₂_same.2 fun x hx => stands_outcome (h x hx))
  have hvalues := Stands.values hx
  rwa [List.map_id_fun] at hvalues

variable (o : Origin) {a b : Scalar α} {xs : List (Scalar α)}

theorem outcome_sum (h : ∀ x ∈ xs, (x.value I w).2 = w) : I.outcome w (.sum o xs) =
    do return joined I.field.add I.field.zero (← (xs.map (I.outcome w)).mapM id) :=
  outcome_eq ((stands_values h).map fun _ => rfl)

theorem outcome_product (h : ∀ x ∈ xs, (x.value I w).2 = w) : I.outcome w (.product o xs) =
    do return joined I.field.mul I.field.one (← (xs.map (I.outcome w)).mapM id) :=
  outcome_eq ((stands_values h).map fun _ => rfl)

theorem outcome_opposite (ha : (a.value I w).2 = w) :
    I.outcome w (.opposite o a) = do return I.field.neg (← I.outcome w a) :=
  outcome_eq ((stands_outcome ha).map fun _ => rfl)

theorem outcome_diff (ha : (a.value I w).2 = w) (hb : (b.value I w).2 = w) :
    I.outcome w (.diff o a b) = do return I.field.sub (← I.outcome w a) (← I.outcome w b) :=
  outcome_eq ((stands_outcome ha).bind fun _ _ => (stands_outcome hb).map fun _ => rfl)

theorem outcome_inverse (ha : (a.value I w).2 = w) : I.outcome w (.inverse o a) = (do
    let x ← I.outcome w a
    let x ← (Scalar.nonzero I.field x .inverseOfIdentity).toOption
    (I.field.inv x).toOption) :=
  outcome_eq ((stands_outcome ha).bind fun _ _ => (Stands.lift_id _).bind fun x _ =>
    .lift_id (I.field.inv x))

theorem outcome_division (ha : (a.value I w).2 = w) (hb : (b.value I w).2 = w) :
    I.outcome w (.division o a b) = (do
      let x ← I.outcome w a
      let y ← I.outcome w b
      let y ← (Scalar.nonzero I.field y .divisionByIdentity).toOption
      return I.field.mul x (← (I.field.inv y).toOption)) :=
  outcome_eq ((stands_outcome ha).bind fun _ _ => (stands_outcome hb).bind fun _ _ =>
    (Stands.lift_id _).bind fun y _ => (Stands.lift_id (I.field.inv y)).map fun _ => rfl)

/-- The label of a live node shows in messages only. -/
theorem outcome_live {i : SourceId} {p : α × α} (hi : I.read i w = (.ok p, w)) (label : String)
    (k : Nat) : I.outcome w (.live o i label k) = coordinate? p k := by
  have hp : Stands (· = w) (Prod.map id id) (I.read i) (some p) := by
    rintro _ rfl
    rw [hi]
    exact ⟨rfl, rfl⟩
  exact outcome_eq (NumericField.Exact.stands_live o hp label k)

theorem outcome_norm (h : ∀ x ∈ xs, (x.value I w).2 = w) : I.outcome w (.norm o xs) = (do
    let p ← I.field.metric.toOption
    (p.norm (← (xs.map (I.outcome w)).mapM id)).toOption) :=
  outcome_eq ((Stands.lift_id _).bind fun _ _ => (stands_values h).bind fun _ _ => .lift_id _)

section

variable {ys : List (Scalar α)} (hx : ∀ x ∈ xs, (x.value I w).2 = w)
  (hy : ∀ y ∈ ys, (y.value I w).2 = w)

include hx hy

theorem outcome_angle : I.outcome w (.angle o xs ys) = (do
    let p ← I.field.metric.toOption
    let vs ← (xs.map (I.outcome w)).mapM id
    (p.angle vs (← (ys.map (I.outcome w)).mapM id)).toOption) :=
  outcome_eq ((Stands.lift_id _).bind fun _ _ => (stands_values hx).bind fun _ _ =>
    (stands_values hy).bind fun _ _ => .lift_id _)

theorem outcome_signedAngle : I.outcome w (.signedAngle o xs ys) = (do
    let p ← I.field.metric.toOption
    let vs ← (xs.map (I.outcome w)).mapM id
    (p.signedAngle vs (← (ys.map (I.outcome w)).mapM id)).toOption) :=
  outcome_eq ((Stands.lift_id _).bind fun _ _ => (stands_values hx).bind fun _ _ =>
    (stands_values hy).bind fun _ _ => .lift_id _)

end

private theorem outcome_eq_of_matches (hF : I.field.Reordering)
    (heqv : ∀ x y : α, Element.eqv x y = true → x = y) (hd : a.isDeterministic = true)
    (hread : ∀ i ∈ a.sources, ∃ p, I.read i w = (.ok p, w))
    (ha : ∀ x ∈ a.parts, (x.value I w).2 = w) (hb : ∀ x ∈ b.parts, (x.value I w).2 = w)
    (h : Scalar.Matches (fun x y => I.outcome w x = I.outcome w y) a b) :
    I.outcome w a = I.outcome w b := by
  cases h with
  | leaf h => rw [outcome, outcome, Scalar.value, Scalar.value, heqv _ _ h]
  | sum h =>
    simp only [Scalar.parts] at ha hb
    rw [outcome_sum _ ha, outcome_sum _ hb]
    exact joined_mapM_perm hF.add_comm hF.add_right_comm _ (Bag.map_perm_of_rel h)
  | product h =>
    simp only [Scalar.parts] at ha hb
    rw [outcome_product _ ha, outcome_product _ hb]
    exact joined_mapM_perm hF.mul_comm hF.mul_right_comm _ (Bag.map_perm_of_rel h)
  | diff hx hy =>
    simp only [Scalar.parts, List.forall_mem_cons] at ha hb
    rw [outcome_diff _ ha.1 ha.2.1, outcome_diff _ hb.1 hb.2.1, hx, hy]
  | division hx hy =>
    simp only [Scalar.parts, List.forall_mem_cons] at ha hb
    rw [outcome_division _ ha.1 ha.2.1, outcome_division _ hb.1 hb.2.1, hx, hy]
  | opposite h =>
    simp only [Scalar.parts, List.forall_mem_cons] at ha hb
    rw [outcome_opposite _ ha.1, outcome_opposite _ hb.1, h]
  | inverse h =>
    simp only [Scalar.parts, List.forall_mem_cons] at ha hb
    rw [outcome_inverse _ ha.1, outcome_inverse _ hb.1, h]
  | zero | one | throwing => rfl
  | norm h =>
    simp only [Scalar.parts] at ha hb
    rw [outcome_norm _ ha, outcome_norm _ hb, map_eq_of_forall₂ h]
  | angle hx hy =>
    obtain ⟨hax, hay⟩ := List.forall_mem_append.1 ha
    obtain ⟨hbx, hby⟩ := List.forall_mem_append.1 hb
    rw [outcome_angle _ hax hay, outcome_angle _ hbx hby, map_eq_of_forall₂ hx,
      map_eq_of_forall₂ hy]
  | signedAngle hx hy =>
    obtain ⟨hax, hay⟩ := List.forall_mem_append.1 ha
    obtain ⟨hbx, hby⟩ := List.forall_mem_append.1 hb
    rw [outcome_signedAngle _ hax hay, outcome_signedAngle _ hbx hby, map_eq_of_forall₂ hx,
      map_eq_of_forall₂ hy]
  | @live _ _ i =>
    obtain ⟨p, hp⟩ := hread i (by simp [Scalar.sources])
    rw [outcome_live _ hp, outcome_live _ hp]
  | random | different | between | greater | lower => cases hd

end Interpretation

namespace World.Settled

variable {w : World α σ} {a b : Scalar α} (ha : w.Settled a)

include ha

theorem part {x : Scalar α} (hx : x ∈ a.parts) : w.Settled x where
  deterministic := Scalar.isDeterministic_part ha.deterministic hx
  placed i hi := ha.placed i (Scalar.sources_part hx hi)

theorem value_world (F : NumericField α σ) : (F.interpretation.value a w).2 = w := by
  obtain ⟨r, hr⟩ := ha.value_same F
  rw [hr w rfl]

theorem outcome_eq {F : NumericField α σ} (hF : F.Reordering)
    (heqv : ∀ x y : α, Element.eqv x y = true → x = y) (hb : w.Settled b)
    (h : a.eqv b = true) : F.interpretation.outcome w a = F.interpretation.outcome w b := by
  induction a using Scalar.induction_parts generalizing b with
  | h a ih =>
    rcases Scalar.matches_of_eqv h with rfl | h
    · rfl
    refine Interpretation.outcome_eq_of_matches hF heqv ha.deterministic (fun i hi => ?_)
      (fun x hx => (ha.part hx).value_world F) (fun x hx => (hb.part hx).value_world F) ?_
    · obtain ⟨q, hq⟩ := Option.isSome_iff_exists.1 (ha.placed i hi)
      exact ⟨q, read_place? F hq⟩
    · exact h.mono fun x hx y hy hxy => ih x hx (ha.part hx) (hb.part hy) hxy

end World.Settled

namespace Residues

theorem Modular.reordering {p : UInt64} {F : NumericField UInt64 σ} (h : Modular p F)
    (hp : 0 < p.toNat) (hlt : p.toNat < 2 ^ 32) : F.Reordering := by
  constructor <;> intros <;> simp only [h.add, h.mul] <;> rw [← UInt64.toNat_inj]
  case add_comm x y =>
    change (add p x y).toNat = (add p y x).toNat
    rw [add_toNat hp hlt, add_toNat hp hlt, Nat.add_comm]
  case add_right_comm x y z =>
    change (add p (add p x y) z).toNat = (add p (add p x z) y).toNat
    rw [add_toNat hp hlt, add_toNat hp hlt, add_toNat hp hlt, add_toNat hp hlt, Nat.mod_add_mod,
      Nat.mod_add_mod, Nat.add_right_comm]
  case mul_comm x y =>
    change (mul p x y).toNat = (mul p y x).toNat
    rw [mul_toNat hp hlt, mul_toNat hp hlt, Nat.mul_comm]
  case mul_right_comm x y z =>
    change (mul p (mul p x y) z).toNat = (mul p (mul p x z) y).toNat
    rw [mul_toNat hp hlt, mul_toNat hp hlt, mul_toNat hp hlt, mul_toNat hp hlt, Nat.mod_mul_mod,
      Nat.mod_mul_mod, Nat.mul_right_comm]

/-- Over a prime field, settled scalars that are structurally equal evaluate alike in every world:
to the very same word, reduced or not, or neither of them. So where both sides evaluate, comparing
settled scalars gives what comparing their values gives, although equal ones are not evaluated. -/
theorem equals_sound {p : UInt64} (hp : p.toNat.Prime) (hlt : p.toNat < 2 ^ 32)
    {F : NumericField UInt64 σ} (hF : Modular p F) {w : World UInt64 σ} {a b : Scalar UInt64}
    (ha : w.Settled a) (hb : w.Settled b) :
    let I := F.interpretation
    (I.value a w).2 = w ∧ (I.value b w).2 = w ∧
      (a.eqv b = true → ∀ v, (I.value a w).1 = .ok v ↔ (I.value b w).1 = .ok v) ∧
        ∀ x y, (I.value a w).1 = .ok x → (I.value b w).1 = .ok y →
          I.equals a b w = (.ok (F.same x y), w) := by
  intro I
  have hsound (h : a.eqv b = true) (v : UInt64) :
      (I.value a w).1 = .ok v ↔ (I.value b w).1 = .ok v := by
    have ho := ha.outcome_eq (hF.reordering hp.pos hlt) (fun _ _ => beq_iff_eq.1) hb h
    exact Interpretation.outcome_eq_some.symm.trans
      (ho ▸ Interpretation.outcome_eq_some (I := I) (w := w) (s := b))
  refine ⟨ha.value_world _, hb.value_world _, hsound, ?_⟩
  intro x y hx hy
  rw [Interpretation.equals]
  split
  · next h =>
    have hxy : (I.value b w).1 = .ok x := (hsound h x).1 hx
    obtain rfl := Except.ok.inj (hxy.symm.trans hy)
    have hsame : F.same x x = true := by
      rw [hF.same]
      exact beq_self_eq_true (x % p)
    rw [hsame]
    rfl
  · have hvx : I.value a w = (.ok x, w) := Prod.ext hx (ha.value_world _)
    have hvy : I.value b w = (.ok y, w) := Prod.ext hy (hb.value_world _)
    rw [Eval.bind_ok hvx, Eval.bind_ok hvy]
    rfl

end Residues

namespace Specimen

open Residues

def figureA : World UInt64 Unit := ⟨(), #[.anchor "A" (.ofValues ⟨1, []⟩ 10 9)]⟩

/-- `15 + 20 x` for the first coordinate `x` of the anchor. -/
def affineInA : Scalar UInt64 :=
  .plus ⟨5, []⟩ (.sum ⟨2, []⟩ [.leaf ⟨3, []⟩ 15])
    (.times ⟨4, []⟩ (.leaf ⟨3, [0]⟩ 20) (.live ⟨3, [1]⟩ 0 "A" 0))

/-- The same with the operands of the sum and of the product exchanged. -/
def affineExchanged : Scalar UInt64 :=
  .plus ⟨9, []⟩ (.times ⟨8, []⟩ (.live ⟨7, []⟩ 0 "A" 0) (.leaf ⟨6, []⟩ 20))
    (.sum ⟨2, []⟩ [.leaf ⟨3, []⟩ 15])

theorem affineInA_eqv_affineExchanged : affineInA.eqv affineExchanged = true := by
  have hlaws := Scalar.lawfulEquality (α := UInt64)
  have hswap {a b a' b' : Scalar UInt64} (ha : a.eqv a' = true) (hb : b.eqv b' = true) :
      Multiset.Rel (Scalar.eqv · ·) (([a, b] : List _) : Multiset (Scalar UInt64))
        ([b', a'] : List _) := by
    rw [Multiset.coe_eq_coe.2 (List.Perm.swap a' b' [])]
    exact Multiset.Rel.cons (r := (Scalar.eqv · ·)) ha (.cons hb .zero)
  have hleaf : (Scalar.leaf ⟨3, [0]⟩ (20 : UInt64)).eqv (.leaf ⟨6, []⟩ 20) = true :=
    hlaws.congr (.leaf rfl)
  have hlive : (Scalar.live ⟨3, [1]⟩ 0 "A" 0 : Scalar UInt64).eqv (.live ⟨7, []⟩ 0 "A" 0) = true :=
    hlaws.congr .live
  refine hlaws.congr (.sum (hswap (hlaws.refl _) ?_))
  exact hlaws.congr (.product (hswap hleaf hlive))

theorem equals_sound_affineExchanged :
    (∀ v, (moduloSeven.interpretation.value affineInA figureA).1 = .ok v ↔
      (moduloSeven.interpretation.value affineExchanged figureA).1 = .ok v) ∧
      moduloSeven.interpretation.equals affineInA (.leaf ⟨6, [0]⟩ 12) figureA =
        (.ok true, figureA) := by
  have hprime : (7 : UInt64).toNat.Prime := by change Nat.Prime 7; decide
  have haffine : figureA.Settled affineInA := by decide +kernel
  have hexchanged : figureA.Settled affineExchanged := by decide +kernel
  have hleaf : figureA.Settled (.leaf ⟨6, [0]⟩ 12) := by decide +kernel
  have h := equals_sound hprime (by decide) modular_moduloSeven haffine hexchanged
  have h' := equals_sound hprime (by decide) modular_moduloSeven haffine hleaf
  refine ⟨h.2.2.1 affineInA_eqv_affineExchanged, ?_⟩
  have hvalue : (moduloSeven.interpretation.value affineInA figureA).1.toOption = some 5 := by
    decide +kernel
  exact h'.2.2.2 5 12 (Interpretation.outcome_eq_some.1 hvalue) rfl

end Specimen
end PlaneGeometry
