import PlaneGeometry.Proofs.Intersections

/-!
# Circles through three points

The center is where two perpendicular bisectors meet. They are parallel exactly if the three points
are collinear, so the test for parallel lines inside never fails after the test for collinear points
outside has been passed.
-/
namespace PlaneGeometry

open Plane

variable {α σ K : Type} [Element α]

namespace Plane

variable [Field K]

private theorem cross_turned (v u : K × K) : cross v (turned u) = dot v u := by
  simp [cross, dot, turned]

private theorem cross_turned_turned (u v : K × K) : cross (turned u) (turned v) = cross u v := by
  simp only [cross, turned]
  ring

private theorem cross_sides (x y z : K × K) : cross (y - x) (z - y) = cross (y - x) (z - x) := by
  simp only [cross, Prod.fst_sub, Prod.snd_sub]
  ring

def middle (x y : K × K) : K × K := (1 + 1 : K)⁻¹ • (x + y)

private theorem dot_eq_dot_iff (h2 : (1 + 1 : K) ≠ 0) (k x y : K × K) :
    dot (x - k) (x - k) = dot (y - k) (y - k) ↔ cross (k - middle x y) (turned (y - x)) = 0 := by
  have hdiff : dot (x - k) (x - k) - dot (y - k) (y - k) =
      (1 + 1) * cross (k - middle x y) (turned (y - x)) := by
    rw [cross_turned]
    simp only [dot, middle, Prod.fst_sub, Prod.snd_sub, Prod.smul_fst, Prod.smul_snd, Prod.fst_add,
      Prod.snd_add, smul_eq_mul]
    linear_combination ((y.1 - x.1) * (x.1 + y.1) + (y.2 - x.2) * (x.2 + y.2)) *
      mul_inv_cancel₀ h2
  rw [← sub_eq_zero, hdiff, mul_eq_zero, or_iff_right h2]

def Equidistant (k x y z : K × K) : Prop :=
  dot (x - k) (x - k) = dot (y - k) (y - k) ∧ dot (y - k) (y - k) = dot (z - k) (z - k)

end Plane

def Point.bisector (o o' : Origin) (p q : Point α) : Line α :=
  (Line.mk p q).perpendicularThrough o (.midpoint o' p q)

namespace Interpretation

variable {I : Interpretation α σ} {p q r : Point α} {w u v : World α σ} (o : Origin)

private theorem circleThroughThree_collinear (h : I.holds (.collinear p q r) w = (.ok true, u)) :
    I.circleThroughThree o p q r w = (.throwing o (.degenerate "no circle through three points"
      (Relation.collinear p q r).text), u) := by
  rw [circleThroughThree, Act.bind_apply, degeneracy_apply h]
  rfl

private theorem circleThroughThree_general (h : I.holds (.collinear p q r) w = (.ok false, u))
    (h' : I.holds (.parallel (p.bisector (o.part 2) (o.part 3) q)
      (q.bisector (o.part 4) (o.part 5) r)) u = (.ok false, v)) :
    I.circleThroughThree o p q r w = (.through o ((p.bisector (o.part 2) (o.part 3) q).meet
      (o.part 6) (q.bisector (o.part 4) (o.part 5) r)) p, v) := by
  rw [circleThroughThree, Act.bind_apply, degeneracy_apply h]
  exact congrArg (fun m => (Circle.through o m.1 p, m.2)) (intersection_apply h' (o.part 6))

end Interpretation

namespace NumericField.Exact

open Interpretation

variable [Field K] {I : Interpretation α σ} {φ : α → K} {V : World α σ → Prop}
  (hF : I.field.Exact φ)

include hF

private theorem hasValue_inverse [DecidableEq K] {a : Scalar α} {x : K} (o : Origin)
    (ha : I.HasValue V φ a x) (hx : x ≠ 0) : I.HasValue V φ (.inverse o a) x⁻¹ := by
  have h := hF.stands_inverse o ha
  simpa [HasValue, reciprocal?, hx] using h

variable (h2 : (1 + 1 : K) ≠ 0) {p q : Point α} {x y : K × K} (hp : I.AtPlace V φ p x)
  (hq : I.AtPlace V φ q y)

include h2 hp hq

private theorem atPlace_midpoint (o : Origin) : I.AtPlace V φ (.midpoint o p q) (middle x y) := by
  classical
  have htwo : I.HasValue V φ (.two (o.part 3)) (1 + 1) := hF.hasValue_two _
  have hhalf := hF.hasValue_inverse (o.part 2) htwo h2
  have hx := hF.hasValue_times (o.part 0) (hF.hasValue_plus ((o.part 0).part 0) hp.1 hq.1) hhalf
  have hy := hF.hasValue_times (o.part 1) (hF.hasValue_plus ((o.part 1).part 0) hp.2 hq.2) hhalf
  rw [mul_comm] at hx hy
  exact ⟨hx, hy⟩

end NumericField.Exact

namespace World

variable {F : NumericField α σ} {w : World α σ} {p q r : Point α}

private theorem evaluates_of_midpoint {o : Origin}
    (h : ∀ x ∈ (Point.midpoint o p q).vect, w.Evaluates F x) :
    (∀ x ∈ p.vect, w.Evaluates F x) ∧ ∀ x ∈ q.vect, w.Evaluates F x := by
  simp only [Point.vect, Point.midpoint, Segment.midpoint, List.forall_mem_cons] at h
  have hx := h.1.part (.head _)
  have hy := h.2.1.part (.head _)
  simp only [Point.vect, List.forall_mem_cons]
  exact ⟨⟨hx.part (.head _), hy.part (.head _), by simp⟩,
    hx.part (.tail _ (.head _)), hy.part (.tail _ (.head _)), by simp⟩

section

variable [Field K] {φ : α → K} (h2 : (1 + 1 : K) ≠ 0)

include h2

private theorem place_bisector (hF : F.Exact φ) (hp : ∀ x ∈ p.vect, w.Evaluates F x)
    (hq : ∀ x ∈ q.vect, w.Evaluates F x) (o o' : Origin) :
    let ρ := F.interpretation.place φ w
    let l := p.bisector o o' q
    (∀ x ∈ l.scalars, w.Evaluates F x) ∧ ρ l.a = middle (ρ p) (ρ q) ∧
      ρ l.b - ρ l.a = turned (ρ q - ρ p) := by
  intro ρ l
  have hI : F.interpretation.field.Exact φ := hF
  have hsettled : w.SettledAt (.midpoint o' p q) := w.settled_closed.midpoint o'
    (fun x hx => (hp x hx).settled) fun x hx => (hq x hx).settled
  obtain ⟨hmiddle, hplace⟩ :=
    hsettled.evaluates (hI.atPlace_midpoint h2 (atPlace_at φ hp) (atPlace_at φ hq) o')
  obtain ⟨hl, hdirection⟩ := place_perpendicularThrough (l := ⟨p, q⟩) hF
    (List.forall_mem_append.2 ⟨hp, hq⟩) hmiddle o
  exact ⟨hl, hplace, hdirection⟩

variable (hF : F.ExactEquality φ) {o o₁ o₂ o₃ o₄ : Origin}

include hF

private theorem holds_parallel_bisectors (hp : ∀ x ∈ p.vect, w.Evaluates F x)
    (hq : ∀ x ∈ q.vect, w.Evaluates F x) (hr : ∀ x ∈ r.vect, w.Evaluates F x) :
    ∃ b, F.interpretation.holds (.collinear p q r) w = (.ok b, w) ∧
      ∀ o₁ o₂ o₃ o₄, F.interpretation.holds
        (.parallel (p.bisector o₁ o₂ q) (q.bisector o₃ o₄ r)) w = (.ok b, w) := by
  have hpoints : w.Locates F (.collinear p q r) := by
    simp only [Locates, Relation.points, List.forall_mem_cons]
    exact ⟨hp, hq, hr, by simp⟩
  obtain ⟨-, b, -, -, hb, hcollinear⟩ :=
    hF.holds_apply (r := .collinear p q r) trivial hpoints .scratch
  refine ⟨b, hb, fun o₁ o₂ o₃ o₄ => ?_⟩
  obtain ⟨hl, -, hdl⟩ := place_bisector h2 hF.toExact hp hq o₁ o₂
  obtain ⟨hm, -, hdm⟩ := place_bisector h2 hF.toExact hq hr o₃ o₄
  refine (holds_parallel_iff hF hl hm).2 ?_
  rw [hdl, hdm, cross_turned_turned, cross_sides]
  exact hcollinear

/-- Where the bisectors meet in a point with coordinates, this is the one place that has the same
distance from the three points. -/
theorem equidistant_iff
    (h : ∀ x ∈ ((p.bisector o₁ o₂ q).meet o (q.bisector o₃ o₄ r)).vect, w.Evaluates F x) :
    let ρ := F.interpretation.place φ w
    (∀ s ∈ [p, q, r], ∀ x ∈ s.vect, w.Evaluates F x) ∧
      ∀ k, Equidistant k (ρ p) (ρ q) (ρ r) ↔
        k = ρ ((p.bisector o₁ o₂ q).meet o (q.bisector o₃ o₄ r)) := by
  intro ρ
  obtain ⟨hl, hm⟩ := evaluates_of_meet h
  obtain ⟨hp, hq⟩ := evaluates_of_midpoint (List.forall_mem_append.1 hl).1
  obtain ⟨-, hr⟩ := evaluates_of_midpoint (List.forall_mem_append.1 hm).1
  obtain ⟨-, hla, hdl⟩ := place_bisector h2 hF.toExact hp hq o₁ o₂
  obtain ⟨-, hma, hdm⟩ := place_bisector h2 hF.toExact hq hr o₃ o₄
  obtain ⟨hcross, hmeet⟩ := place_meet hF.toExact h
  refine ⟨by simpa only [List.forall_mem_cons] using ⟨hp, hq, hr, by simp⟩, fun k => ?_⟩
  rw [show ρ _ = _ from hmeet, eq_meet_iff hcross, hdl, hdm, hla, hma, Equidistant,
    dot_eq_dot_iff h2, dot_eq_dot_iff h2]

end

end World

/-- The circle has been built from the bisectors without a check that fails. From then on, where its
center has coordinates, the points are on the circle, and no other place has the same distance from
all three. -/
structure World.Circumscribes [Field K] (F : NumericField α σ) (φ : α → K) (w : World α σ)
    (c : Circle α) (p q r : Point α) : Prop where
  center : c.center.isThrowing = false
  rim : c.rim.isThrowing = false
  bisectors (o₁ o₂ o₃ o₄ : Origin) (what : String) : F.interpretation.degeneracy
    (.parallel (p.bisector o₁ o₂ q) (q.bisector o₃ o₄ r)) what w = (none, w)
  evaluates : w.HasCoordinates F c.center
  goes {v : World α σ} : w.Leads v → v.HasCoordinates F c.center →
    ∀ s ∈ [p, q, r], F.interpretation.holds (.inCircle s c) v = (.ok true, v)
  unique {v : World α σ} : w.Leads v → v.HasCoordinates F c.center →
    let ρ := F.interpretation.place φ v
    ∀ k, Equidistant k (ρ p) (ρ q) (ρ r) ↔ k = ρ c.center

namespace NumericField.ExactEquality

open World

variable [Field K] {F : NumericField α σ} {φ : α → K} (hF : F.ExactEquality φ)
  (h2 : (1 + 1 : K) ≠ 0) {w : World α σ} {p q r : Point α}
  (hp : ∀ x ∈ p.vect, w.Evaluates F x) (hq : ∀ x ∈ q.vect, w.Evaluates F x)
  (hr : ∀ x ∈ r.vect, w.Evaluates F x)

include hF h2 hp hq hr

private theorem circumscribes {o o' o₁ o₂ o₃ o₄ : Origin}
    (hcollinear : F.interpretation.holds (.collinear p q r) w = (.ok false, w)) :
    w.Circumscribes F φ
      (.through o ((p.bisector o₁ o₂ q).meet o' (q.bisector o₃ o₄ r)) p) p q r := by
  let center := (p.bisector o₁ o₂ q).meet o' (q.bisector o₃ o₄ r)
  obtain ⟨hl, -⟩ := place_bisector h2 hF.toExact hp hq o₁ o₂
  obtain ⟨hm, -⟩ := place_bisector h2 hF.toExact hq hr o₃ o₄
  obtain ⟨b, hb, hbisectors⟩ := holds_parallel_bisectors h2 hF hp hq hr
  obtain rfl : b = false := Except.ok.inj (congrArg Prod.fst (hb.symm.trans hcollinear))
  have hcenter : ∀ x ∈ center.vect, w.Evaluates F x := by
    refine evaluates_meet hF.toExact hl hm fun hzero => ?_
    cases ((holds_parallel_iff hF hl hm).1 (hbisectors o₁ o₂ o₃ o₄)).2 hzero
  have hsettled : w.SettledAt center := fun x hx => (hcenter x hx).settled
  have hvalues : w.HasCoordinates F center := fun x hx => (hcenter x hx).value
  have hpvalues : w.HasCoordinates F p := fun x hx => (hp x hx).value
  constructor
  case center => exact hvalues.isThrowing
  case rim => exact hpvalues.isThrowing
  case bisectors =>
    intro o₁ o₂ o₃ o₄ what
    exact Interpretation.degeneracy_apply (hbisectors o₁ o₂ o₃ o₄) what
  case evaluates => exact hvalues
  case goes =>
    intro v hv hc s hs
    let ρ := F.interpretation.place φ v
    have hcv := hc.evaluates hsettled hv
    obtain ⟨hpoints, hiff⟩ := equidistant_iff h2 hF hcv
    obtain ⟨hpq, hqr⟩ := (hiff (ρ center)).2 rfl
    have hs' : dot (ρ s - ρ center) (ρ s - ρ center) = dot (ρ p - ρ center) (ρ p - ρ center) := by
      simp only [List.mem_cons, List.not_mem_nil, or_false] at hs
      rcases hs with rfl | rfl | rfl
      · rfl
      · exact hpq.symm
      · exact (hpq.trans hqr).symm
    have hlocates : v.Locates F (.inCircle s (.through o center p)) := by
      simp only [Locates, Relation.points, List.forall_mem_cons]
      exact ⟨hpoints s hs, hcv, hpoints p (.head _), by simp⟩
    exact (hF.holds_iff hlocates trivial).2 (iff_of_true rfl (sub_eq_zero.2 hs'))
  case unique =>
    intro v hv hc
    exact (equidistant_iff h2 hF (hc.evaluates hsettled hv)).2

/-- Of three collinear points a circle is made that throws, and of others one through them. No draw
is made for it. -/
theorem circleThroughThree_apply (o : Origin) : ∃ (b : Bool) (c : Circle α),
    F.interpretation.holds (.collinear p q r) w = (.ok b, w) ∧
    F.interpretation.circleThroughThree o p q r w = (c, w) ∧
    (b = false → w.Circumscribes F φ c p q r) ∧
    (b = true → ∀ x ∈ c.scalars, F.Raises
      (.degenerate "no circle through three points" (Relation.collinear p q r).text) x) := by
  obtain ⟨b, hb, hbisectors⟩ := holds_parallel_bisectors h2 hF hp hq hr
  cases b with
  | true =>
    refine ⟨true, _, hb, Interpretation.circleThroughThree_collinear o hb, ?_, ?_⟩
    · intro h
      cases h
    · intro _
      exact List.forall_mem_cons.2 ⟨F.raises_throwing _ _, F.raises_throwingEnds _ _⟩
  | false =>
    have hmade := Interpretation.circleThroughThree_general o hb (hbisectors _ _ _ _)
    refine ⟨false, _, hb, hmade, ?_, ?_⟩
    · intro _
      exact hF.circumscribes h2 hp hq hr hb
    · intro h
      cases h

end NumericField.ExactEquality

namespace Residues

theorem two_ne_zero_of_odd {p : UInt64} [hprime : Fact p.toNat.Prime] (hodd : Odd p.toNat) :
    (1 + 1 : ZMod p.toNat) ≠ 0 := by
  intro h
  have hdvd : p.toNat ∣ 2 := by
    rw [← ZMod.natCast_eq_zero_iff, Nat.cast_two, ← one_add_one_eq_two, h]
  rw [(Nat.prime_dvd_prime_iff_eq hprime.out Nat.prime_two).1 hdvd] at hodd
  exact absurd hodd (by decide)

/-- Modulo an odd prime, the circle that is made of three points with coordinates goes through them
unless they are collinear. It does so from then on, wherever anchors are moved, as long as its
center has coordinates, and the center is the one place at the same distance from all three. What is
made of collinear points raises that they are, whichever of its scalars is evaluated. -/
theorem circleThroughThree_circumscribes {p : UInt64} [Fact p.toNat.Prime]
    (hlt : p.toNat < 2 ^ 32) (hodd : Odd p.toNat) {σ : Type} {F : NumericField UInt64 σ}
    (hF : Modular p F) {w : World UInt64 σ} {a b c : Point UInt64}
    (h : ∀ s ∈ [a, b, c], ∀ x ∈ s.vect, w.Evaluates F x) (o : Origin) :
    ∃ (collinear : Bool) (circle : Circle UInt64),
      F.interpretation.holds (.collinear a b c) w = (.ok collinear, w) ∧
      F.interpretation.circleThroughThree o a b c w = (circle, w) ∧
      (collinear = false → w.Circumscribes F (residue p) circle a b c) ∧
      (collinear = true → ∀ x ∈ circle.scalars, F.Raises
        (.degenerate "no circle through three points" (Relation.collinear a b c).text) x) := by
  have hexact : F.ExactEquality (residue p) := hF.exactEquality hlt
  simp only [List.forall_mem_cons] at h
  exact hexact.circleThroughThree_apply (two_ne_zero_of_odd hodd) h.1 h.2.1 h.2.2.1 o

end Residues

namespace Specimen

open Residues

def originPoint : Point UInt64 := .ofValues ⟨34, []⟩ 0 0
def pointEightZero : Point UInt64 := .ofValues ⟨35, []⟩ 8 0

/-- Through two points and the anchor. -/
def circumcircleOfA : Circle UInt64 :=
  (moduloSeven.interpretation.circleThroughThree ⟨36, []⟩ pointA originPoint pointEightZero
    figureA).1

def figureALifted : World UInt64 Unit :=
  Operation.runAll [.moveTo ⟨33, []⟩ ⟨0, "A"⟩ 2 20] figureA

/-- The circle has changed with the anchor. There is none through three points of one line. -/
theorem circleThroughThree_circumscribes_figureALifted :
    moduloSeven.interpretation.holds (.inCircle pointA circumcircleOfA) figureALifted =
        (.ok true, figureALifted) ∧
      ∀ x ∈ (moduloSeven.interpretation.circleThroughThree ⟨37, []⟩ originPoint
        (.ofValues ⟨38, []⟩ 4 0) pointEightZero figureA).1.scalars,
          ∃ e, moduloSeven.Raises e x := by
  constructor
  · obtain ⟨b, c, hb, hc, hgeneral, -⟩ := circleThroughThree_circumscribes (p := 7) (by decide)
      (by decide) modular_moduloSeven (w := figureA) (a := pointA) (b := originPoint)
      (c := pointEightZero) (by decide +kernel) ⟨36, []⟩
    have hfalse : (moduloSeven.interpretation.holds (.collinear pointA originPoint pointEightZero)
        figureA).1.toOption = some false := by decide +kernel
    rw [hb] at hfalse
    obtain rfl : c = circumcircleOfA := (congrArg Prod.fst hc).symm
    have hcircle := hgeneral (Option.some.inj hfalse)
    exact hcircle.goes ⟨_, by decide +kernel, rfl⟩ (by decide +kernel) pointA (.head _)
  · obtain ⟨b, c, hb, hc, -, hcollinear⟩ := circleThroughThree_circumscribes (p := 7) (by decide)
      (by decide) modular_moduloSeven (w := figureA) (a := originPoint)
      (b := .ofValues ⟨38, []⟩ 4 0) (c := pointEightZero) (by decide +kernel) ⟨37, []⟩
    have htrue : (moduloSeven.interpretation.holds
        (.collinear originPoint (.ofValues ⟨38, []⟩ 4 0) pointEightZero) figureA).1.toOption =
          some true := by decide +kernel
    rw [hb] at htrue
    rw [hc]
    exact fun x hx => ⟨_, hcollinear (Option.some.inj htrue) x hx⟩

end Specimen
end PlaneGeometry
