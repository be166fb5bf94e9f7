import PlaneGeometry.Proofs.OrderedFigures

/-!
# What the generators draw

A generator leaves the sources alone and ends in a point with a place, which is computed from the
places that it starts from and from the values drawn on the way. What the draws keep to, the place
keeps to.
-/
namespace PlaneGeometry

open Plane

variable {α σ K : Type} [Element α]

/-- From every world of `V` the construction ends in a world of `V`, with a result of the class
`Q`. -/
abbrev Produces {β : Type} (V : World α σ → Prop) (Q : β → Prop) (m : Act α σ β) : Prop :=
  Agree V Q m m

theorem Produces.mono {β : Type} {V : World α σ → Prop} {Q Q' : β → Prop} {m : Act α σ β}
    (h : Produces V Q m) (hQ : ∀ x, Q x → Q' x) : Produces V Q' m := by
  intro w hw
  obtain ⟨he, hv, hx⟩ := h w hw
  exact ⟨he, hv, hQ _ hx⟩

theorem Produces.apply {β : Type} {V : World α σ → Prop} {Q : β → Prop} {m : Act α σ β}
    (h : Produces V Q m) {w u : World α σ} (hw : V w) {x : β} (hm : m w = (x, u)) : V u ∧ Q x := by
  obtain ⟨-, hu, hx⟩ := h w hw
  rw [hm] at hu hx
  exact ⟨hu, hx⟩

namespace Interpretation

variable {I : Interpretation α σ} {V : World α σ → Prop} {φ : α → K}

private theorem produces_capture {s : Scalar α} {P : K → Prop}
    (hs : ∀ w, V w → ∃ v u, I.value s w = (.ok v, u) ∧ V u ∧ P (φ v)) (o : Origin) :
    Produces V (fun x => ∃ k, P k ∧ I.HasValue V φ x k) (I.capture o s) := by
  intro w hw
  obtain ⟨v, u, hv, hu, hP⟩ := hs w hw
  have hcapture : I.capture o s w = (.leaf o v, u) := by
    rw [capture, Act.bind_apply, show I.attempt s w = (.ok v, u) from hv]
    rfl
  rw [hcapture]
  exact ⟨rfl, hu, φ v, hP, .pure v⟩

/-- A direction whose product with itself is zero is drawn again, and any other is used. -/
theorem anisotropic_apply {u : Displacement α} {w v : World α σ} {q : α}
    (hq : I.value (u.dot .scratch u) w = (.ok q, v)) (o : Origin) (n : Nat) :
    I.anisotropic o (n + 1) u w =
      (if I.field.isZero q then I.nonzeroDirection o >>= I.anisotropic o n else pure u) v := by
  rw [anisotropic, Act.bind_apply, show I.attempt (u.dot .scratch u) w = (.ok q, v) from hq]

variable (hV : ∀ w t, V w → V { w with sampler := t })

include hV

private theorem produces_drawn (φ : α → K) (o : Origin) :
    Produces V (fun x => ∃ k, I.HasValue V φ x k) (I.drawn o) :=
  fun w hw => ⟨rfl, hV w _ hw, _, .pure (I.field.draw w.sampler).1⟩

theorem produces_freePoint (φ : α → K) (o : Origin) :
    Produces V (fun p => ∃ k, I.AtPlace V φ p k) (I.freePoint o) := by
  apply (produces_drawn hV φ _).bind
  intro x ⟨a, hx⟩
  apply (produces_drawn hV φ _).bind
  intro y ⟨b, hy⟩
  exact .pure ⟨(a, b), hx, hy⟩

variable [Zero K] (hdraw : ∀ t, φ (I.field.drawOther I.field.zero t).1 ≠ 0) (o : Origin)

include hdraw

private theorem produces_otherThanZero :
    Produces V (fun x => ∃ k, k ≠ 0 ∧ I.HasValue V φ x k) (I.other o (.zero .scratch)) :=
  produces_capture (fun w hw => ⟨_, _, rfl, hV w _ hw, hdraw w.sampler⟩) o

private theorem produces_nonzeroDirection :
    Produces V (fun d => ∃ e : K × K, e.2 ≠ 0 ∧ I.Displaces V φ d e) (I.nonzeroDirection o) := by
  apply (produces_drawn hV φ _).bind
  intro x ⟨a, hx⟩
  apply (produces_otherThanZero hV hdraw _).bind
  intro y ⟨b, hb, hy⟩
  exact .pure ⟨(a, b), hb, hx, hy⟩

end Interpretation

namespace NumericField.Exact

open Interpretation

variable [Field K] {I : Interpretation α σ} {φ : α → K} {V : World α σ → Prop}
  (hF : I.field.Exact φ) (hV : ∀ w t, V w → V { w with sampler := t })

section

variable {l : Line α} {x y : K × K} (ha : I.AtPlace V φ l.a x) (hb : I.AtPlace V φ l.b y)
  (o : Origin)

include hF hV ha hb

theorem produces_pointInLine :
    Produces V (fun p => ∃ t : K, I.AtPlace V φ p (x + t • (y - x))) (I.pointInLine o l) := by
  apply (produces_drawn hV φ _).bind
  intro s ⟨t, hs⟩
  exact .pure ⟨t, hF.atPlace_along o ha hs (hF.displaces_towards _ ha hb)⟩

theorem produces_pointOutsideLine (hdraw : ∀ t, φ (I.field.drawOther I.field.zero t).1 ≠ 0) :
    Produces V (fun p => ∃ t u : K, u ≠ 0 ∧
      I.AtPlace V φ p (x + t • (y - x) + u • turned (y - x))) (I.pointOutsideLine o l) := by
  have hn := hF.displaces_turned ((o.part 5).part 1)
    (hF.displaces_towards ((o.part 5).part 0) ha hb)
  apply (hF.produces_pointInLine hV ha hb _).bind
  intro p ⟨t, hp⟩
  apply (produces_otherThanZero hV hdraw _).bind
  intro s ⟨u, hu, hs⟩
  exact .pure ⟨t, u, hu, hF.atPlace_along o hp hs hn⟩

end
end NumericField.Exact

namespace NumericField.ExactOrdered

open Interpretation

variable [Field K] [LinearOrder K] {I : Interpretation α σ} {φ : α → K} {V : World α σ → Prop}
  {order : FieldOrder α σ} (hF : I.field.ExactOrdered order φ)
  (hV : ∀ w t, V w → V { w with sampler := t })

include hV hF

-- Parameters are drawn beyond one, below one, or between zero and one.

private theorem value_greaterOne {w : World α σ} (hw : V w) : ∃ v u,
    I.value (.greater .scratch (.one .scratch)) w = (.ok v, u) ∧ V u ∧ 1 < φ v := by
  let draw := order.greater I.field.one w.sampler
  refine ⟨draw.1, { w with sampler := draw.2 }, ?_, hV w draw.2 hw, ?_⟩
  · change ((liftM I.field.ordered : Eval α σ _) >>= fun order =>
      World.sampling (order.greater I.field.one)) w = _
    rw [hF.ordered_eq]
    rfl
  · rw [← hF.one]
    exact hF.greater I.field.one w.sampler

variable [IsStrictOrderedRing K]

private theorem value_inverseGreaterOne {w : World α σ} (hw : V w) : ∃ v u,
    I.value (.inverse .scratch (.greater .scratch (.one .scratch))) w = (.ok v, u) ∧ V u ∧
      0 < φ v ∧ φ v < 1 := by
  obtain ⟨g, u, hg, hu, h1⟩ := hF.value_greaterOne hV hw
  have hpos : 0 < φ g := zero_lt_one.trans h1
  have hinv := hF.stands_inv (V := V) g .inverseOfIdentity
  rw [reciprocal?, if_neg hpos.ne'] at hinv
  obtain ⟨v, hv, hφv⟩ := hinv.apply_some hu
  refine ⟨v, u, (Eval.bind_ok hg _).trans hv, hu, ?_⟩
  rw [hφv]
  exact ⟨inv_pos.2 hpos, inv_lt_one_of_one_lt₀ h1⟩

private theorem value_betweenZeroOne {w : World α σ} (hw : V w) : ∃ v u,
    I.value (.between .scratch (.zero .scratch) (.one .scratch)) w = (.ok v, u) ∧ V u ∧
      0 ≤ φ v ∧ φ v ≤ 1 := by
  have hle : φ I.field.zero ≤ φ I.field.one := by
    rw [hF.zero, hF.one]
    exact zero_le_one
  obtain ⟨v, hv, h0, h1⟩ := hF.between w.sampler hle
  rw [hF.zero] at h0
  rw [hF.one] at h1
  let t := (order.between I.field.zero I.field.one w.sampler).2
  refine ⟨v, { w with sampler := t }, ?_, hV w t hw, h0, h1⟩
  change ((liftM I.field.ordered : Eval α σ _) >>= fun order =>
    World.trying (order.between I.field.zero I.field.one)) w = _
  rw [hF.ordered_eq]
  exact Prod.ext hv rfl

theorem produces_pointInSegment {s : Segment α} {x y : K × K} (ha : I.AtPlace V φ s.a x)
    (hb : I.AtPlace V φ s.b y) (o : Origin) :
    Produces V (fun p => ∃ t : K, (0 ≤ t ∧ t ≤ 1) ∧ I.AtPlace V φ p (x + t • (y - x)))
      (I.pointInSegment o s) := by
  have hdraw (w) (hw : V w) := hF.value_betweenZeroOne hV hw
  apply (produces_capture (P := fun t : K => 0 ≤ t ∧ t ≤ 1) hdraw (o.part 3)).bind
  intro r ⟨t, ht, hr⟩
  exact .pure ⟨t, ht, hF.atPlace_along o ha hr (hF.displaces_towards _ ha hb)⟩

omit hV in
/-- No direction is orthogonal to itself, so none is drawn again. -/
theorem produces_anisotropic (o : Origin) (n : Nat) {u : Displacement α} {e : K × K}
    (he : e.2 ≠ 0) (hu : I.Displaces V φ u e) :
    Produces V (fun d => ∃ e : K × K, e.2 ≠ 0 ∧ I.Displaces V φ d e) (I.anisotropic o n u) := by
  cases n with
  | zero => exact .pure ⟨e, he, hu⟩
  | succ n =>
    intro w hw
    obtain ⟨q, hq, hφq⟩ := (hF.hasValue_dot .scratch hu hu).apply_some hw
    have hnonzero : I.field.isZero q = false := by
      refine Bool.eq_false_iff.2 fun h => ?_
      have hzero := (hF.same _ _).1 h
      rw [hφq, hF.zero, dot_self_eq_zero] at hzero
      exact he (congrArg Prod.snd hzero)
    have hkept : I.anisotropic o (n + 1) u w = (u, w) := by
      rw [anisotropic_apply hq, hnonzero]
      rfl
    rw [hkept]
    exact ⟨rfl, hw, e, he, hu⟩

section

variable {c : Circle α} {x y : K × K} (hc : I.AtPlace V φ c.center x) (hr : I.AtPlace V φ c.rim y)
  (o : Origin)

include hc hr

theorem produces_pointInCircle :
    Produces V (fun p => ∃ k, dot (k - x) (k - x) = dot (y - x) (y - x) ∧ I.AtPlace V φ p k)
      (I.pointInCircle o c) := by
  apply (produces_nonzeroDirection hV hF.drawOther_zero _).bind
  intro u ⟨e, he, hu⟩
  apply (hF.produces_anisotropic _ _ he hu).bind
  intro u ⟨e, he, hu⟩
  have hee : dot e e ≠ 0 := by
    rw [Ne, dot_self_eq_zero]
    exact fun h => he (congrArg Prod.snd h)
  refine .pure ⟨_, ?_, hF.atPlace_mirrored o hc hr hu hee⟩
  rw [sub_right_comm]
  exact dot_reflected hee

private theorem produces_radial {s : Scalar α} {t : K} (hs : I.HasValue V φ s t) :
    Produces V (fun p => ∃ k, dot (k - x) (k - x) = t ^ 2 * dot (y - x) (y - x) ∧
      I.AtPlace V φ p k) (I.radial o c s) := by
  apply (hF.produces_pointInCircle hV hc hr _).bind
  intro p ⟨k, hk, hp⟩
  refine .pure ⟨x + t • (k - x), ?_, hF.atPlace_along o hc hs (hF.displaces_towards _ hc hp)⟩
  rw [add_sub_cancel_left, dot_smul, hk]

theorem produces_pointInsideCircle :
    Produces V (fun p => ∃ k t, (0 < t ∧ t < 1) ∧
      dot (k - x) (k - x) = t ^ 2 * dot (y - x) (y - x) ∧ I.AtPlace V φ p k)
      (I.pointInsideCircle o c) := by
  have hdraw (w) (hw : V w) := hF.value_inverseGreaterOne hV hw
  apply (produces_capture (P := fun t : K => 0 < t ∧ t < 1) hdraw (o.part 5)).bind
  intro s ⟨t, ht, hs⟩
  apply (hF.produces_radial hV hc hr o hs).mono
  intro p ⟨k, hk, hp⟩
  exact ⟨k, t, ht, hk, hp⟩

theorem produces_pointOutsideCircle :
    Produces V (fun p => ∃ k t, 1 < t ∧ dot (k - x) (k - x) = t ^ 2 * dot (y - x) (y - x) ∧
      I.AtPlace V φ p k) (I.pointOutsideCircle o c) := by
  have hdraw (w) (hw : V w) := hF.value_greaterOne hV hw
  apply (produces_capture (P := fun t : K => 1 < t) hdraw (o.part 5)).bind
  intro s ⟨t, ht, hs⟩
  apply (hF.produces_radial hV hc hr o hs).mono
  intro p ⟨k, hk, hp⟩
  exact ⟨k, t, ht, hk, hp⟩

end

end NumericField.ExactOrdered
end PlaneGeometry
