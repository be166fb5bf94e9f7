import PlaneGeometry.Proofs.Draws
import PlaneGeometry.Proofs.Memoization
import Mathlib.Algebra.Order.Ring.Rat
import Mathlib.Data.Rat.Defs
import Mathlib.Tactic.Linarith

/-!
# Candidates obey their constraint over ordered fields

Each of the seven generators is matched with the test of its constraint. What is generated has a
place, which the constraint allows except where the figure is degenerate. So a read that has to draw
succeeds with its first candidate, or rejects every one.
-/
namespace PlaneGeometry

open Plane

variable {α σ K : Type} [Element α]

namespace Interpretation

variable {I : Interpretation α σ} {V : World α σ → Prop} {φ : α → K} {c : Constraint α}
  {Q : K × K → Prop} {A : Prop}
  (hgenerate : ∀ o, Produces V (fun p => ∃ k, I.AtPlace V φ p k ∧ Q k) (I.generate o c))
  (htest : ∀ p k, I.AtPlace V φ p k → Q k → Decides V (I.admits p c) A)

include hgenerate htest

/-- A candidate from a world of `V`: it has coordinates, and the test says the same of the point as
built and of its coordinates. -/
theorem generate_apply (o : Origin) {w : World α σ} (hw : V w) :
    ∃ p v u b, V u ∧ I.generate o c w = (p, u) ∧ I.point p u = (.ok v, u) ∧
      I.admits p c u = (.ok b, u) ∧ I.probe v (.within c) u = (.ok b, u) ∧ (b = true ↔ A) := by
  obtain ⟨-, hu, k, hp, hk⟩ := hgenerate o w hw
  obtain ⟨x, hx, hφx⟩ := hp.1.apply_some hu
  obtain ⟨y, hy, hφy⟩ := hp.2.apply_some hu
  have hleaves : I.AtPlace V φ (.ofValues .scratch x y) k := by
    rw [← Prod.mk.eta (p := k), ← hφx, ← hφy]
    exact ⟨.pure x, .pure y⟩
  obtain ⟨b, hb, hbk⟩ := htest _ k hp hk _ hu
  obtain ⟨b', hb', hbk'⟩ := htest _ k hleaves hk _ hu
  obtain rfl : b = b' := Bool.eq_iff_iff.2 (hbk.trans hbk'.symm)
  exact ⟨_, (x, y), _, b, hu, rfl, (Eval.bind_ok hx _).trans (Eval.bind_ok hy _), hb, hb', hbk⟩

theorem foregone : I.Foregone V (.within c) A := by
  intro w hw
  obtain ⟨p, v, u, b, hu, hp, hv, -, hb, hbA⟩ := generate_apply hgenerate htest .scratch hw
  refine ⟨v, u, b, hu, ?_, hb, hbA⟩
  change I.point (I.generate .scratch c w).1 (I.generate .scratch c w).2 = _
  rw [hp, hv]

end Interpretation

namespace Constraint

/-- The points that the constraint is about. The radius of a circle plays no part in it. -/
def points : Constraint α → List (Point α)
  | free => []
  | inLine l | outsideLine l => [l.a, l.b]
  | inSegment s => [s.a, s.b]
  | inCircle c | insideCircle c | outsideCircle c => [c.center, c.rim]

variable [Field K] [LinearOrder K] (ρ : Point α → K × K)

/-- The place `k` obeys the constraint if its points are at `ρ`. -/
def Contains (k : K × K) : Constraint α → Prop
  | free => True
  | inLine l => cross (k - ρ l.a) (ρ l.b - ρ l.a) = 0
  | outsideLine l => cross (k - ρ l.a) (ρ l.b - ρ l.a) ≠ 0
  | inSegment s => ∃ t : K, 0 ≤ t ∧ t ≤ 1 ∧ k = ρ s.a + t • (ρ s.b - ρ s.a)
  | inCircle c => dot (k - ρ c.center) (k - ρ c.center) =
      dot (ρ c.rim - ρ c.center) (ρ c.rim - ρ c.center)
  | insideCircle c => dot (k - ρ c.center) (k - ρ c.center) <
      dot (ρ c.rim - ρ c.center) (ρ c.rim - ρ c.center)
  | outsideCircle c => dot (ρ c.rim - ρ c.center) (ρ c.rim - ρ c.center) <
      dot (k - ρ c.center) (k - ρ c.center)

/-- The points of the line coincide, so that it has no normal, or the circle has no radius to be
scaled. -/
def Degenerate : Constraint α → Prop
  | outsideLine l => ρ l.a = ρ l.b
  | insideCircle c | outsideCircle c => dot (ρ c.rim - ρ c.center) (ρ c.rim - ρ c.center) = 0
  | free | inLine _ | inSegment _ | inCircle _ => False

end Constraint

namespace NumericField.ExactOrdered

open Interpretation

variable [Field K] [LinearOrder K] {I : Interpretation α σ} {order : FieldOrder α σ}
  {φ : α → K} (hF : I.field.ExactOrdered order φ) {V : World α σ → Prop}
  (hV : ∀ w t, V w → V { w with sampler := t }) {c : Constraint α} {ρ : Point α → K × K}
  (hc : ∀ q ∈ c.points, I.AtPlace V φ q (ρ q))

section

variable {p : Point α} {k : K × K} (hp : I.AtPlace V φ p k)

include hF hc hp

private theorem decides_admits (hs : ∀ s, c ≠ .inSegment s) :
    Decides V (I.admits p c) (c.Contains ρ k) := by
  cases c with
  | free => exact fun w _ => ⟨true, rfl, by simp [Constraint.Contains]⟩
  | inSegment s => exact absurd rfl (hs s)
  | inLine l =>
    simp only [Constraint.points, List.forall_mem_cons] at hc
    exact hF.decides_inLine hp hc.1 hc.2.1
  | outsideLine l =>
    simp only [Constraint.points, List.forall_mem_cons] at hc
    exact (hF.decides_inLine hp hc.1 hc.2.1).not
  | inCircle c =>
    simp only [Constraint.points, List.forall_mem_cons] at hc
    have h := hF.decides_inCircle hp hc.1 hc.2.1 c.radius
    exact h.congr sub_eq_zero
  | insideCircle c =>
    simp only [Constraint.points, List.forall_mem_cons] at hc
    intro w hw
    refine ⟨_, Eval.bind_ok (hF.radialOrder_apply hp hc.1 hc.2.1 hw) _, ?_⟩
    rw [beq_iff_eq, Option.some.injEq, compare_lt_iff_lt]
    rfl
  | outsideCircle c =>
    simp only [Constraint.points, List.forall_mem_cons] at hc
    intro w hw
    refine ⟨_, Eval.bind_ok (hF.radialOrder_apply hp hc.1 hc.2.1 hw) _, ?_⟩
    rw [beq_iff_eq, Option.some.injEq, compare_gt_iff_gt]
    rfl

variable [IsStrictOrderedRing K]

private theorem accepts_admits : Accepts V (I.admits p c) (c.Contains ρ k) := by
  by_cases hs : ∃ s, c = .inSegment s
  · obtain ⟨s, rfl⟩ := hs
    simp only [Constraint.points, List.forall_mem_cons] at hc
    exact hF.accepts_inSegment hp hc.1 hc.2.1
  · exact (hF.decides_admits hc hp fun s h => hs ⟨s, h⟩).accepts

end

variable [IsStrictOrderedRing K]

include hF hV hc

/-- What is generated lies where the constraint wants it, exactly if the figure is not
degenerate. -/
theorem produces_generate (o : Origin) :
    Produces V (fun p => ∃ k, I.AtPlace V φ p k ∧ (c.Contains ρ k ↔ ¬c.Degenerate ρ))
      (I.generate o c) := by
  cases c with
  | free =>
    apply (produces_freePoint hV φ o).mono
    intro p ⟨k, hp⟩
    exact ⟨k, hp, by simp [Constraint.Contains, Constraint.Degenerate]⟩
  | inLine l =>
    simp only [Constraint.points, List.forall_mem_cons] at hc
    apply (hF.produces_pointInLine hV hc.1 hc.2.1 o).mono
    intro p ⟨t, hp⟩
    refine ⟨_, hp, ?_⟩
    simp [Constraint.Contains, Constraint.Degenerate, cross_smul_self]
  | outsideLine l =>
    simp only [Constraint.points, List.forall_mem_cons] at hc
    apply (hF.produces_pointOutsideLine hV hc.1 hc.2.1 o hF.drawOther_zero).mono
    intro p ⟨t, u, hu, hp⟩
    refine ⟨_, hp, not_congr ?_⟩
    rw [Constraint.Degenerate, cross_pushed_eq_zero _ _ hu, dot_self_eq_zero, sub_eq_zero, eq_comm]
  | inSegment s =>
    simp only [Constraint.points, List.forall_mem_cons] at hc
    apply (hF.produces_pointInSegment hV hc.1 hc.2.1 o).mono
    intro p ⟨t, ht, hp⟩
    exact ⟨_, hp, iff_of_true ⟨t, ht.1, ht.2, rfl⟩ id⟩
  | inCircle c =>
    simp only [Constraint.points, List.forall_mem_cons] at hc
    apply (hF.produces_pointInCircle hV hc.1 hc.2.1 o).mono
    intro p ⟨k, hk, hp⟩
    exact ⟨k, hp, iff_of_true hk id⟩
  | insideCircle c =>
    simp only [Constraint.points, List.forall_mem_cons] at hc
    apply (hF.produces_pointInsideCircle hV hc.1 hc.2.1 o).mono
    intro p ⟨k, t, ⟨h0, h1⟩, hk, hp⟩
    refine ⟨k, hp, ?_⟩
    rw [Constraint.Contains, Constraint.Degenerate, hk]
    exact shrunk_lt_iff (dot_self_nonneg _) h0 h1
  | outsideCircle c =>
    simp only [Constraint.points, List.forall_mem_cons] at hc
    apply (hF.produces_pointOutsideCircle hV hc.1 hc.2.1 o).mono
    intro p ⟨k, t, ht, hk, hp⟩
    refine ⟨k, hp, ?_⟩
    rw [Constraint.Contains, Constraint.Degenerate, hk]
    exact lt_grown_iff (dot_self_nonneg _) ht

omit hV in
/-- The test of the constraint says of what is generated whether the figure is degenerate. -/
theorem decides_generated {p : Point α} {k : K × K} (hp : I.AtPlace V φ p k)
    (hk : c.Contains ρ k ↔ ¬c.Degenerate ρ) : Decides V (I.admits p c) ¬c.Degenerate ρ := by
  by_cases hs : ∃ s, c = .inSegment s
  · obtain ⟨s, rfl⟩ := hs
    intro w hw
    obtain ⟨b, hb, hP⟩ := hF.accepts_admits hc hp w hw
    exact ⟨b, hb, iff_of_true (hP (hk.2 id)) id⟩
  · exact (hF.decides_admits hc hp fun s h => hs ⟨s, h⟩).congr hk

omit hV in
theorem outdated_world {s : Option (α × α)} {w u : World α σ} (hw : V w)
    (h : I.Outdated (.within c) s w u) : u = w := by
  refine h.world_eq fun v => ?_
  have hleaves : I.AtPlace V φ (.ofValues .scratch v.1 v.2) (φ v.1, φ v.2) :=
    ⟨.pure v.1, .pure v.2⟩
  obtain ⟨b, hb, -⟩ := hF.accepts_admits hc hleaves w hw
  exact ⟨b, hb⟩

end NumericField.ExactOrdered

/-- A dynamic point whose constraint is about settled points with coordinates. Unless the line it
has to stay off or the circle it has to stay in or out of is degenerate, what is generated evaluates
and is admitted, whatever is drawn, and a read that finds no sample that is still accepted succeeds
with its first candidate. In the degenerate cases such a read always runs out of attempts. -/
theorem NumericField.ExactOrdered.position_drawn [Field K] [LinearOrder K] [IsStrictOrderedRing K]
    {F : NumericField α σ} {order : FieldOrder α σ} {φ : α → K} (hF : F.ExactOrdered order φ)
    {w : World α σ} (hw : w.Reachable) {d : DynamicPoint α} (hd : d.In w)
    (hs : ∀ p ∈ d.constraint.points, ∀ x ∈ p.vect, w.Settled x)
    (he : ∀ p ∈ d.constraint.points, ∃ v, (F.interpretation.point p w).1 = .ok v) :
    let I := F.interpretation
    let c := d.constraint
    (¬c.Degenerate (I.place φ w) →
      (∀ u o, w.SameSources u → ∃ p v u', w.SameSources u' ∧ I.generate o c u = (p, u') ∧
        I.point p u' = (.ok v, u') ∧ I.admits p c u' = (.ok true, u')) ∧
      ∀ s w₀, w.source? d.source = some (.dynamic d.label (.within c) s) →
        I.Outdated (.within c) s w w₀ → ∃ v u, I.candidate (.within c) w₀ = (.ok v, u) ∧
          d.position F w = (.ok v, u.update d.source (Source.withSample (some v)))) ∧
    (c.Degenerate (I.place φ w) →
      ∀ s w₀, w.source? d.source = some (.dynamic d.label (.within c) s) →
        I.Outdated (.within c) s w w₀ →
          ∃ u, d.position F w = (.error (.exhausted d.label Interpretation.attempts), u)) := by
  intro I c
  have hV (u : World α σ) (t : σ) (hu : w.SameSources u) :
      w.SameSources { u with sampler := t } := hu
  have hc (p : Point α) (hp : p ∈ c.points) : I.AtPlace w.SameSources φ p (I.place φ w p) := by
    obtain ⟨v, hv⟩ := he p hp
    exact Interpretation.atPlace_of_settled φ (hs p hp) hv
  have hgenerate (o : Origin) := hF.produces_generate hV hc o
  have htest (p : Point α) (k : K × K) (hp : I.AtPlace w.SameSources φ p k) :=
    hF.decides_generated hc hp
  have hf := Interpretation.foregone hgenerate htest
  constructor
  · intro hdeg
    refine ⟨fun u o hu => ?_, fun s w₀ hsource hout => ?_⟩
    · obtain ⟨p, v, u', b, hu', hp, hv, hb, -, hbk⟩ :=
        Interpretation.generate_apply hgenerate htest o hu
      exact ⟨p, v, u', hu', hp, hv, hbk.2 hdeg ▸ hb⟩
    · obtain rfl := hF.outdated_world hc rfl hout
      exact World.read_accepted F hw.ordered hsource hf hout rfl hdeg
  · intro hdeg s w₀ hsource hout
    obtain rfl := hF.outdated_world hc rfl hout
    exact World.read_exhausted F hw.ordered hsource hf hout rfl (not_not_intro hdeg)

namespace Specimen

/-- Rational numbers, all with one key. -/
instance : Element ℚ where
  decEq := inferInstance
  eqv x y := x == y
  key _ := 0
  text x := toString x

/-- Draws count up, and keep to their bounds by one or by the middle. -/
def rationalOrder : FieldOrder ℚ ℕ where
  greater x t := (x + 1, t + 1)
  lower x t := (x - 1, t + 1)
  between x y t := (if x ≤ y then .ok ((x + y) / 2) else .error .divisionByIdentity, t + 1)
  compare x y := some (compare x y)

def rationals : NumericField ℚ ℕ where
  name := "rationals"
  zero := 0
  neg x := -x
  add x y := x + y
  one := 1
  inv x := if x = 0 then .error .inverseOfZero else .ok x⁻¹
  mul x y := x * y
  same x y := x == y
  negligible x _ := x == 0
  draw t := (t, t + 1)
  drawOther x t := (x + 1, t + 1)
  order := some rationalOrder
  product := none

theorem rationals_exactOrdered : rationals.ExactOrdered rationalOrder (id : ℚ → ℚ) where
  zero := rfl
  one := rfl
  neg _ := rfl
  add _ _ := rfl
  mul _ _ := rfl
  inv hx := ⟨_, if_neg hx, rfl⟩
  inv_zero hx := ⟨_, if_pos hx⟩
  eqv := beq_iff_eq.1
  same _ _ := beq_iff_eq
  negligible _ _ := beq_iff_eq
  ordered := rfl
  compare _ _ := rfl
  drawOther x _ := by simp [rationals]
  greater x _ := by simp [rationalOrder]
  between {x y} t h := by
    refine ⟨(x + y) / 2, ?_, ?_, ?_⟩
    · simp only [rationalOrder]
      exact if_pos h
    · simp only [id] at h ⊢
      linarith
    · simp only [id] at h ⊢
      linarith

/-- A point off the line through two anchors, and one inside a circle without radius. -/
def pointOffAB : DynamicPoint ℚ := ⟨2, "P", .outsideLine ⟨.live ⟨3, []⟩ 0 "A", .live ⟨4, []⟩ 1 "B"⟩⟩
def pointInNullCircle : DynamicPoint ℚ :=
  ⟨3, "Q", .insideCircle ⟨.live ⟨5, []⟩ 0 "A", .zero ⟨6, []⟩, .live ⟨7, []⟩ 0 "A"⟩⟩

def rationalFigure : World ℚ ℕ :=
  Operation.runAll [.createAnchor "A" (.ofValues ⟨1, []⟩ 1 2),
    .createAnchor "B" (.ofValues ⟨2, []⟩ 3 5), .createPoint "P" pointOffAB.constraint,
    .createPoint "Q" pointInNullCircle.constraint] ⟨0, #[]⟩

private theorem reachable_rationalFigure : rationalFigure.Reachable :=
  ⟨0, _, by decide +kernel, rfl⟩

/-- The first point is drawn at once; no candidate for the second is inside the circle. -/
theorem position_drawn_rationalFigure :
    (∃ v u, pointOffAB.position rationals rationalFigure = (.ok v, u)) ∧
      ∃ u, pointInNullCircle.position rationals rationalFigure =
        (.error (.exhausted "Q" 64), u) := by
  have hplaced (p : Point ℚ)
      (hp : (rationals.interpretation.point p rationalFigure).1.toOption.isSome) :
      ∃ v, (rationals.interpretation.point p rationalFigure).1 = .ok v := by
    obtain ⟨v, hv⟩ := Option.isSome_iff_exists.1 hp
    exact ⟨v, congrArg Prod.fst (Eval.eq_ok_of_toOption hv)⟩
  constructor
  · have hd :
        ¬pointOffAB.constraint.Degenerate (rationals.interpretation.place id rationalFigure) := by
      change ¬rationals.interpretation.place id rationalFigure _ =
        rationals.interpretation.place id rationalFigure _
      decide +kernel
    have h := rationals_exactOrdered.position_drawn reachable_rationalFigure ⟨none, rfl⟩
      (d := pointOffAB) (by decide +kernel) (fun p hp => hplaced p (by revert p; decide +kernel))
    obtain ⟨v, u, -, hread⟩ := (h.1 hd).2 none rationalFigure rfl rfl
    exact ⟨v, _, hread⟩
  · have hd : pointInNullCircle.constraint.Degenerate
        (rationals.interpretation.place id rationalFigure) := by
      change dot (_ - _ : ℚ × ℚ) (_ - _) = 0
      decide +kernel
    have h := rationals_exactOrdered.position_drawn reachable_rationalFigure ⟨none, rfl⟩
      (d := pointInNullCircle) (by decide +kernel)
      (fun p hp => hplaced p (by revert p; decide +kernel))
    exact h.2 hd none rationalFigure rfl rfl

end Specimen
end PlaneGeometry
