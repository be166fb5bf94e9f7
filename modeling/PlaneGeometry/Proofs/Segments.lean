import PlaneGeometry.Proofs.Candidates
import PlaneGeometry.Proofs.Constructions

/-!
# Membership in a segment

The test of a segment compares products: the point has to be on the line, and its projection between
zero and the squared length. Over a linearly ordered field this is membership in the closed segment,
and the parameter can be recovered from the projection. A segment of no length is tested another
way, and then the only member is its end.
-/
namespace PlaneGeometry

open Plane

variable {α σ K : Type} [Element α]

namespace Plane

variable [Field K] [LinearOrder K] [IsStrictOrderedRing K]

private theorem exists_between_zero {e : K × K} :
    (∃ t : K, 0 ≤ t ∧ t ≤ 1 ∧ e = t • (0 : K × K)) ↔ e = 0 := by
  simp only [smul_zero]
  exact ⟨fun ⟨_, _, _, he⟩ => he, fun he => ⟨0, le_rfl, zero_le_one, he⟩⟩

private theorem exists_between_smul {t : K} {d : K × K} :
    (∃ r : K, 0 ≤ r ∧ r ≤ 1 ∧ t • d = r • d) ↔ d = 0 ∨ 0 ≤ t ∧ t ≤ 1 := by
  by_cases hd : d = 0
  · rw [hd, exists_between_zero, smul_zero]
    exact iff_of_true rfl (.inl rfl)
  · simp only [(smul_left_injective K hd).eq_iff, hd, false_or]
    exact ⟨fun ⟨_, h0, h1, h⟩ => h ▸ ⟨h0, h1⟩, fun ⟨h0, h1⟩ => ⟨t, h0, h1, rfl⟩⟩

end Plane

/-- Arithmetic, tests and ordering are those of `K`, and an element is known by the member that it
stands for. The samplers play no part in it. -/
structure NumericField.LinearlyOrdered [Field K] [LinearOrder K] (F : NumericField α σ)
    (order : FieldOrder α σ) (φ : α → K) : Prop extends F.Exact φ where
  injective : Function.Injective φ
  refl (x : α) : Element.eqv x x = true
  ordered : F.order = some order
  compare (x y : α) : order.compare x y = some (Ord.compare (φ x) (φ y))

namespace NumericField.LinearlyOrdered

open Interpretation

variable [Field K] [LinearOrder K] {F : NumericField α σ} {order : FieldOrder α σ} {φ : α → K}
  (hF : F.LinearlyOrdered order φ)

include hF

theorem reordering : F.Reordering where
  add_comm x y := hF.injective (by rw [hF.add, hF.add, add_comm])
  add_right_comm x y z := hF.injective (by simp only [hF.add, add_right_comm])
  mul_comm x y := hF.injective (by rw [hF.mul, hF.mul, mul_comm])
  mul_right_comm x y z := hF.injective (by simp only [hF.mul, mul_right_comm])

theorem eqv_iff (x y : α) : Element.eqv x y = true ↔ φ x = φ y := by
  refine ⟨hF.eqv, fun h => ?_⟩
  rw [hF.injective h]
  exact hF.refl y

variable [IsStrictOrderedRing K] {w : World α σ} {q : Point α} {s : Segment α} {k x y : K × K}

private theorem decides_inSegment (hsq : w.SettledAt q) (hsa : w.SettledAt s.a)
    (hq : F.interpretation.AtPlace w.SameSources φ q k)
    (ha : F.interpretation.AtPlace w.SameSources φ s.a x)
    (hb : F.interpretation.AtPlace w.SameSources φ s.b y) :
    Decides w.SameSources (F.interpretation.inSegment q s)
      (∃ t : K, 0 ≤ t ∧ t ≤ 1 ∧ k = x + t • (y - x)) := by
  have hI : F.interpretation.field.Exact φ := hF.toExact
  intro u hu
  obtain ⟨len, hlen, hpoint, hline⟩ := hI.inSegment_apply hF.compare hF.ordered hq ha hb hu
  have hzero : Element.eqv len F.zero = true ↔ y - x = 0 := by
    rw [hF.eqv_iff, hF.zero, hlen, dot_self_eq_zero]
  simp only [← sub_eq_iff_eq_add']
  cases h : Element.eqv len F.zero with
  | true =>
    -- All parameters give the end.
    obtain ⟨b, hb, hkx⟩ := hF.toExact.decides_samePoint hF.reordering
      (fun _ _ h => hF.injective (hF.eqv h)) hsq hsa hq ha u hu
    refine ⟨b, (hpoint h).trans hb, hkx.trans ?_⟩
    rw [hzero.1 h, exists_between_zero, sub_eq_zero]
  | false =>
    obtain ⟨b, hb, hbetween⟩ := hline h
    have hd : y - x ≠ 0 := fun hd => Bool.eq_false_iff.1 h (hzero.2 hd)
    exact ⟨b, hb, hbetween.trans (between_iff hd (k - x)).symm⟩

end NumericField.LinearlyOrdered

/-- Over a linearly ordered field the test tells of every point with coordinates whether it is
between the ends, ends included, also if these coincide. Of the points that are built from
parameters it accepts those whose parameter is between zero and one, and if the ends coincide
all. -/
theorem NumericField.LinearlyOrdered.inSegment_iff [Field K] [LinearOrder K]
    [IsStrictOrderedRing K] {F : NumericField α σ} {order : FieldOrder α σ} {φ : α → K}
    (hF : F.LinearlyOrdered order φ) {w : World α σ} {s : Segment α}
    (hs : ∀ x ∈ s.scalars, w.Evaluates F x) :
    let I := F.interpretation
    let ρ := I.place φ w
    (∀ q : Point α, (∀ x ∈ q.vect, w.Evaluates F x) → ∃ b,
      I.holds (.inSegment q s) w = (.ok b, w) ∧
        (b = true ↔ ∃ t : K, 0 ≤ t ∧ t ≤ 1 ∧ ρ q = ρ s.a + t • (ρ s.b - ρ s.a))) ∧
    I.holds (.inSegment s.a s) w = (.ok true, w) ∧
    I.holds (.inSegment s.b s) w = (.ok true, w) ∧
    (ρ s.a = ρ s.b → ∀ q : Point α, (∀ x ∈ q.vect, w.Evaluates F x) → ∃ b,
      I.holds (.inSegment q s) w = (.ok b, w) ∧ (b = true ↔ ρ q = ρ s.a)) ∧
    ∀ (o : Origin) (t : Scalar α), w.Evaluates F t → ∃ b,
      I.holds (.inSegment (s.pointAt o t) s) w = (.ok b, w) ∧
        (b = true ↔ ρ s.a = ρ s.b ∨ 0 ≤ I.valueAt φ w t ∧ I.valueAt φ w t ≤ 1) := by
  intro I ρ
  have hI : I.field.Exact φ := hF.toExact
  obtain ⟨hsa, hsb⟩ := List.forall_mem_append.1 hs
  have ha : I.AtPlace w.SameSources φ s.a (ρ s.a) := World.atPlace_at φ hsa
  have hb : I.AtPlace w.SameSources φ s.b (ρ s.b) := World.atPlace_at φ hsb
  have hsettled : w.SettledAt s.a := fun x hx => (hsa x hx).settled
  have hdecides (q : Point α) (k : K × K) (hq : w.SettledAt q)
      (hk : I.AtPlace w.SameSources φ q k) :=
    hF.decides_inSegment hq hsettled hk ha hb w rfl
  have hmember (q : Point α) (hq : ∀ x ∈ q.vect, w.Evaluates F x) :=
    hdecides q (ρ q) (fun x hx => (hq x hx).settled) (World.atPlace_at φ hq)
  refine ⟨hmember, ?first, ?second, ?short, ?parameter⟩
  case first =>
    obtain ⟨b, hb, hbt⟩ := hmember s.a hsa
    obtain rfl := hbt.2 ⟨0, le_rfl, zero_le_one, by simp⟩
    exact hb
  case second =>
    obtain ⟨b, hb, hbt⟩ := hmember s.b hsb
    obtain rfl := hbt.2 ⟨1, zero_le_one, le_rfl, by simp⟩
    exact hb
  case short =>
    intro hab q hq
    obtain ⟨b, hb, hbt⟩ := hmember q hq
    refine ⟨b, hb, hbt.trans ?_⟩
    simp only [← sub_eq_iff_eq_add', ← hab, sub_self]
    rw [exists_between_zero, sub_eq_zero]
  case parameter =>
    intro o t ht
    have hpoint : w.SettledAt (s.pointAt o t) := w.settled_closed.pointAt (l := s.line) o
      (fun x hx => (hs x hx).settled) ht.settled
    have hplace : I.AtPlace w.SameSources φ (s.pointAt o t)
        (ρ s.a + I.valueAt φ w t • (ρ s.b - ρ s.a)) :=
      hI.atPlace_along o ha (ht.hasValue φ) (hI.displaces_towards _ ha hb)
    obtain ⟨b, hb, hbt⟩ := hdecides _ _ hpoint hplace
    refine ⟨b, hb, hbt.trans ?_⟩
    simp only [add_right_inj]
    rw [exists_between_smul, sub_eq_zero, eq_comm]

namespace Specimen

private theorem rationals_linearlyOrdered :
    rationals.LinearlyOrdered rationalOrder (id : ℚ → ℚ) where
  toExact := rationals_exactOrdered.toExact
  injective := Function.injective_id
  refl x := beq_self_eq_true x
  ordered := rfl
  compare _ _ := rfl

/-- From one anchor to the other. -/
def segmentAB : Segment ℚ := ⟨.live ⟨8, []⟩ 0 "A", .live ⟨9, []⟩ 1 "B"⟩

/-- The middle is in the segment, and what is three times as far as the other end is not. -/
theorem inSegment_iff_segmentAB :
    rationals.interpretation.holds (.inSegment (.ofValues ⟨10, []⟩ 2 (7 / 2)) segmentAB)
      rationalFigure = (.ok true, rationalFigure) ∧
    rationals.interpretation.holds
      (.inSegment (segmentAB.pointAt ⟨11, []⟩ (.leaf ⟨12, []⟩ 3)) segmentAB)
      rationalFigure = (.ok false, rationalFigure) := by
  have hplaces : rationals.interpretation.place id rationalFigure segmentAB.a = ((1, 2) : ℚ × ℚ) ∧
      rationals.interpretation.place id rationalFigure segmentAB.b = ((3, 5) : ℚ × ℚ) := by
    decide +kernel
  obtain ⟨hmember, -, -, -, hparameter⟩ :=
    rationals_linearlyOrdered.inSegment_iff (w := rationalFigure) (s := segmentAB)
      (by decide +kernel)
  constructor
  · obtain ⟨b, hb, hbt⟩ := hmember (.ofValues ⟨10, []⟩ 2 (7 / 2)) (by decide +kernel)
    obtain rfl := hbt.2 ⟨1 / 2, by norm_num, by norm_num, by decide +kernel⟩
    exact hb
  · obtain ⟨b, hb, hbt⟩ := hparameter ⟨11, []⟩ (.leaf ⟨12, []⟩ 3) (by decide +kernel)
    obtain rfl : b = false := by
      refine Bool.eq_false_iff.2 fun h => ?_
      rcases hbt.1 h with hab | ⟨-, h1⟩
      · rw [hplaces.1, hplaces.2] at hab
        norm_num at hab
      · revert h1
        decide +kernel
    exact hb

end Specimen
end PlaneGeometry
