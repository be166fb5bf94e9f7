import PlaneGeometry.Proofs.Figures
import Mathlib.Algebra.Order.Field.Basic

/-!
# Figures over exact ordered fields

In an ordered plane only the zero vector has no length, so a point is told apart from the others by
its distance, and a segment from the rest of its line by the parameter.
-/
namespace PlaneGeometry

open Plane

variable {α σ K : Type} [Element α]

namespace Plane

variable [Field K] [LinearOrder K] [IsStrictOrderedRing K]

theorem dot_self_nonneg (d : K × K) : 0 ≤ dot d d :=
  add_nonneg (mul_self_nonneg d.1) (mul_self_nonneg d.2)

theorem dot_self_eq_zero {d : K × K} : dot d d = 0 ↔ d = 0 := by
  rw [dot, mul_self_add_mul_self_eq_zero, Prod.ext_iff]
  rfl

private theorem projection_of_between {t : K} {e d : K × K} (h0 : 0 ≤ t) (h1 : t ≤ 1)
    (he : e = t • d) :
    cross e d = 0 ∧ 0 ≤ dot e d ∧ dot e d ≤ dot d d := by
  have hd := dot_self_nonneg d
  subst he
  rw [cross_smul_self, dot_smul_left]
  exact ⟨rfl, mul_nonneg h0 hd, mul_le_of_le_one_left hd h1⟩

/-- The parameter of a vector along `d` is its projection in units of the length of `d`. -/
theorem between_iff {d : K × K} (hd : d ≠ 0) (e : K × K) :
    (∃ t : K, 0 ≤ t ∧ t ≤ 1 ∧ e = t • d) ↔
      cross e d = 0 ∧ 0 ≤ dot e d ∧ dot e d ≤ dot d d := by
  constructor
  · rintro ⟨t, h0, h1, he⟩
    exact projection_of_between h0 h1 he
  · rintro ⟨hcross, h0, h1⟩
    have hpos : 0 < dot d d := (dot_self_nonneg d).lt_of_ne' (mt dot_self_eq_zero.1 hd)
    refine ⟨dot e d / dot d d, div_nonneg h0 hpos.le, (div_le_one hpos).2 h1, ?_⟩
    have hsplit := smul_dot_self e d
    rw [hcross, zero_smul, sub_zero] at hsplit
    rw [div_eq_inv_mul, ← smul_smul, ← hsplit, inv_smul_smul₀ hpos.ne']

theorem shrunk_lt_iff {t r : K} (hr : 0 ≤ r) (h0 : 0 < t) (h1 : t < 1) :
    t ^ 2 * r < r ↔ ¬r = 0 := by
  constructor
  · rintro h rfl
    simp at h
  · intro hne
    exact mul_lt_of_lt_one_left (lt_of_le_of_ne' hr hne) (pow_lt_one₀ h0.le h1 two_ne_zero)

theorem lt_grown_iff {t r : K} (hr : 0 ≤ r) (h1 : 1 < t) : r < t ^ 2 * r ↔ ¬r = 0 := by
  constructor
  · rintro h rfl
    simp at h
  · intro hne
    exact lt_mul_of_one_lt_left (lt_of_le_of_ne' hr hne) (one_lt_pow₀ h1 two_ne_zero)

end Plane

namespace NumericField.Exact

open Interpretation

variable [Field K] [LinearOrder K] {I : Interpretation α σ} {order : FieldOrder α σ}
  {φ : α → K} (hF : I.field.Exact φ)
  (hcompare : ∀ x y, order.compare x y = some (Ord.compare (φ x) (φ y)))

include hF hcompare

private theorem inRange_iff (t len : α) : I.inRange order t len = true ↔ 0 ≤ φ t ∧ φ t ≤ φ len := by
  simp only [inRange, hcompare, hF.zero, Bool.and_eq_true, Bool.or_eq_true, beq_iff_eq,
    Option.some.injEq, compare_gt_iff_gt, compare_eq_iff_eq, compare_lt_iff_lt, hF.negligible,
    hF.sub, sub_eq_zero]
  grind

variable (horder : I.field.order = some order) {V : World α σ → Prop} {p : Point α}
  {s : Segment α} {k x y : K × K} (hp : I.AtPlace V φ p k) (ha : I.AtPlace V φ s.a x)
  (hb : I.AtPlace V φ s.b y)

include horder hp ha hb

/-- Where the squared length is found to be zero, the point is compared with an end. Otherwise the
test tells whether it is on the line, with its projection between the ends. -/
theorem inSegment_apply {w : World α σ} (hw : V w) :
    ∃ len, φ len = dot (y - x) (y - x) ∧
      (Element.eqv len I.field.zero = true → I.inSegment p s w = I.samePoint p s.a w) ∧
        (Element.eqv len I.field.zero = false → ∃ b, I.inSegment p s w = (.ok b, w) ∧
          (b = true ↔ cross (k - x) (y - x) = 0 ∧ 0 ≤ dot (k - x) (y - x) ∧
            dot (k - x) (y - x) ≤ dot (y - x) (y - x))) := by
  have hpa := hF.displaces_towards .scratch ha hp
  have hab := hF.displaces_towards .scratch ha hb
  obtain ⟨len, hlen, hφlen⟩ := (hF.hasValue_dot .scratch hab hab).apply_some hw
  obtain ⟨t, ht, hφt⟩ := (hF.hasValue_dot .scratch hpa hab).apply_some hw
  -- The residual is that of the line through the ends.
  obtain ⟨on, hon, hcross⟩ : ∃ on, I.vanishes (.inSegment p s) w = (.ok on, w) ∧
      (on = true ↔ cross (k - x) (y - x) = 0) := hF.decides_inLine hp ha hb w hw
  have hordered : I.field.ordered = .ok order := by rw [NumericField.ordered, horder]
  have htest : I.inSegment p s w =
      (if Element.eqv len I.field.zero then I.samePoint p s.a
      else do
        if ← I.vanishes (.inSegment p s) then do
          let t ← I.value ((s.a.towards .scratch p).dot .scratch (s.a.towards .scratch s.b))
          return I.inRange order t len
        else return false) w := by
    rw [inSegment, hordered]
    exact Eval.bind_ok hlen _
  refine ⟨len, hφlen, fun h => ?_, fun h => ?_⟩
  · rw [htest, if_pos h]
  · rw [htest, if_neg (Bool.eq_false_iff.1 h), Eval.bind_ok hon]
    cases on with
    | false => exact ⟨false, rfl, by simp [← hcross]⟩
    | true =>
      refine ⟨I.inRange order t len, Eval.bind_ok ht _, ?_⟩
      rw [hF.inRange_iff hcompare, hφt, hφlen, and_iff_right (hcross.1 rfl)]

end NumericField.Exact

/-- The ordering is that of `K`, and draws beyond a bound or inside two of them keep to it. -/
structure NumericField.ExactOrdered [Field K] [LinearOrder K] (F : NumericField α σ)
    (order : FieldOrder α σ) (φ : α → K) : Prop extends F.Exact φ where
  ordered : F.order = some order
  compare (x y : α) : order.compare x y = some (Ord.compare (φ x) (φ y))
  drawOther (x : α) (t : σ) : φ (F.drawOther x t).1 ≠ φ x
  greater (x : α) (t : σ) : φ x < φ (order.greater x t).1
  between {x y : α} (t : σ) : φ x ≤ φ y →
    ∃ z, (order.between x y t).1 = .ok z ∧ φ x ≤ φ z ∧ φ z ≤ φ y

namespace NumericField.ExactOrdered

open Interpretation

variable [Field K] [LinearOrder K] {I : Interpretation α σ} {order : FieldOrder α σ}
  {φ : α → K} (hF : I.field.ExactOrdered order φ) {V : World α σ → Prop} {p : Point α}
  {k x y : K × K}

include hF

theorem ordered_eq : I.field.ordered = .ok order := by
  rw [NumericField.ordered, hF.ordered]

theorem drawOther_zero (t : σ) : φ (I.field.drawOther I.field.zero t).1 ≠ 0 := by
  rw [← hF.zero]
  exact hF.drawOther I.field.zero t

theorem radialOrder_apply {c : Circle α} (hp : I.AtPlace V φ p k) (hc : I.AtPlace V φ c.center x)
    (hr : I.AtPlace V φ c.rim y) {w : World α σ} (hw : V w) :
    I.radialOrder p c w =
      (.ok (some (Ord.compare (dot (k - x) (k - x)) (dot (y - x) (y - x)))), w) := by
  have hpc := hF.displaces_towards .scratch hc hp
  have hrc := hF.displaces_towards (Origin.part .scratch 0) hc hr
  obtain ⟨d, hd, hφd⟩ := (hF.hasValue_dot .scratch hpc hpc).apply_some hw
  obtain ⟨r, hr, hφr⟩ := (hF.hasValue_dot .scratch hrc hrc).apply_some hw
  rw [radialOrder, hF.ordered_eq, ← hφd, ← hφr, ← hF.compare]
  exact (Eval.bind_ok hd _).trans (Eval.bind_ok hr _)

variable [IsStrictOrderedRing K] {s : Segment α}

theorem accepts_inSegment (hp : I.AtPlace V φ p k) (ha : I.AtPlace V φ s.a x)
    (hb : I.AtPlace V φ s.b y) :
    Accepts V (I.inSegment p s) (∃ t : K, 0 ≤ t ∧ t ≤ 1 ∧ k = x + t • (y - x)) := by
  intro w hw
  obtain ⟨len, hlen, hpoint, hline⟩ :=
    hF.toExact.inSegment_apply hF.compare hF.ordered hp ha hb hw
  cases h : Element.eqv len I.field.zero with
  | true =>
    -- The ends coincide, and with them all points between.
    obtain ⟨b, hb, hkx⟩ := hF.accepts_samePoint hp ha w hw
    refine ⟨b, (hpoint h).trans hb, fun ⟨t, _, _, hk⟩ => hkx ?_⟩
    have hyx : y - x = 0 := by rw [← dot_self_eq_zero, ← hlen, hF.eqv h, hF.zero]
    rw [hk, hyx, smul_zero, add_zero]
  | false =>
    obtain ⟨b, hb, hbetween⟩ := hline h
    refine ⟨b, hb, fun ⟨t, h0, h1, hk⟩ => hbetween.2 ?_⟩
    exact projection_of_between h0 h1 (sub_eq_iff_eq_add'.2 hk)

end NumericField.ExactOrdered
end PlaneGeometry
