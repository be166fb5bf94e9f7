import PlaneGeometry.Proofs.Strictness

/-!
# Where lines meet

The place where two lines meet is given by Cramer's rule, with the cross product of the directions
as divisor. The construction asks first whether the lines are parallel, that is, whether this
product is zero, and throws if so. Anchors may make the lines parallel later on; then the result has
no coordinates.
-/
namespace PlaneGeometry

open Plane

variable {α σ K : Type} [Element α]

namespace Plane

variable [Field K]

theorem cross_smul (v d e : K × K) : cross d e • v = cross v e • d - cross v d • e := by
  ext <;> simp only [cross, Prod.fst_sub, Prod.snd_sub, Prod.smul_fst, Prod.smul_snd,
    smul_eq_mul] <;> ring

private theorem cross_sub (u v e : K × K) : cross (u - v) e = cross u e - cross v e := by
  simp only [cross, Prod.fst_sub, Prod.snd_sub]
  ring

private theorem cross_smul_left (t : K) (d e : K × K) : cross (t • d) e = t * cross d e := by
  simp only [cross, Prod.smul_fst, Prod.smul_snd, smul_eq_mul]
  ring

/-- The line through `x` along `d` meets there the line through `y` along `e`. -/
def meet (x d y e : K × K) : K × K := x + (cross (y - x) e * (cross d e)⁻¹) • d

theorem eq_meet_iff {x d y e : K × K} (h : cross d e ≠ 0) (k : K × K) :
    k = meet x d y e ↔ cross (k - x) d = 0 ∧ cross (k - y) e = 0 := by
  constructor
  · rintro rfl
    have hshift : meet x d y e - y = (cross (y - x) e * (cross d e)⁻¹) • d - (y - x) := by
      rw [meet]
      abel
    constructor
    · rw [meet, add_sub_cancel_left, cross_smul_self]
    · rw [hshift, cross_sub, cross_smul_left, inv_mul_cancel_right₀ h, sub_self]
  · rintro ⟨hd, he⟩
    have hfactor : cross (y - x) e = cross (k - x) e := by
      rw [← sub_sub_sub_cancel_left x y k, cross_sub, he, sub_zero]
    have hcramer : cross d e • (k - x) = cross (y - x) e • d := by
      rw [cross_smul, hd, zero_smul, sub_zero, hfactor]
    rw [meet, mul_comm, mul_smul, ← hcramer, inv_smul_smul₀ h, add_sub_cancel]

end Plane

/-- The error names the relation that holds. -/
theorem Interpretation.degeneracy_apply {I : Interpretation α σ} {r : Relation α} {b : Bool}
    {w u : World α σ} (h : I.holds r w = (.ok b, u)) (what : String) :
    I.degeneracy r what w = (if b then some (.degenerate what r.text) else none, u) := by
  rw [degeneracy, Act.bind_apply, show (I.holds r).run w = (.ok b, u) from h]
  cases b <;> rfl

/-- A point of the first line, at a distance given by Cramer's rule. -/
def Line.meet (o : Origin) (l m : Line α) : Point α :=
  let d := l.direction (o.part 2)
  let e := m.direction (o.part 3)
  let k := .division (o.part 4) ((l.a.towards (o.part 5) m.a).cross (o.part 6) e)
    (d.cross (o.part 7) e)
  l.a.along o k d

theorem Interpretation.intersection_apply {I : Interpretation α σ} {l m : Line α} {w u : World α σ}
    (h : I.holds (.parallel l m) w = (.ok false, u)) (o : Origin) :
    I.intersection o l m w = (l.meet o m, u) := by
  rw [intersection, Act.bind_apply, degeneracy_apply h]
  rfl

theorem Interpretation.intersection_parallel {I : Interpretation α σ} {l m : Line α}
    {w u : World α σ} (h : I.holds (.parallel l m) w = (.ok true, u)) (o : Origin) :
    I.intersection o l m w = (.throwing o (.degenerate "lines do not meet in one point"
      (Relation.parallel l m).text), u) := by
  rw [intersection, Act.bind_apply, degeneracy_apply h]
  rfl

namespace NumericField.Exact

open Interpretation

variable [Field K] [DecidableEq K] {I : Interpretation α σ} {φ : α → K} {V : World α σ → Prop}
  (hF : I.field.Exact φ) {l m : Line α} {x x' y y' : K × K} (hla : I.AtPlace V φ l.a x)
  (hlb : I.AtPlace V φ l.b x') (hma : I.AtPlace V φ m.a y) (hmb : I.AtPlace V φ m.b y')
  (o : Origin)

include hF hla hlb hma hmb

private theorem atPlace_meet (h : cross (x' - x) (y' - y) ≠ 0) :
    I.AtPlace V φ (l.meet o m) (meet x (x' - x) y (y' - y)) := by
  have hd := hF.displaces_towards (o.part 2) hla hlb
  have he := hF.displaces_towards (o.part 3) hma hmb
  have hlm := hF.displaces_towards (o.part 5) hla hma
  have hk := hF.hasValue_division (o.part 4) (hF.hasValue_cross (o.part 6) hlm he)
    (hF.hasValue_cross (o.part 7) hd he) h
  exact hF.atPlace_along o hla hk hd

private theorem stands_meet_none (h : cross (x' - x) (y' - y) = 0) :
    Stands V φ ((l.meet o m).x.value I) none := by
  have hd := hF.displaces_towards (o.part 2) hla hlb
  have he := hF.displaces_towards (o.part 3) hma hmb
  have hlm := hF.displaces_towards (o.part 5) hla hma
  have hk := hF.stands_division (o.part 4) (hF.hasValue_cross (o.part 6) hlm he)
    (hF.hasValue_cross (o.part 7) hd he)
  rw [h] at hk
  have hx := hF.stands_product ((o.part 0).part 0) (.cons hk (.cons hd.1 .nil))
  have hsum := hF.stands_sum (o.part 0) (.cons hla.1 (.cons hx .nil))
  simpa [reciprocal?, Line.meet, Line.direction, Point.along, Point.shifted, Scalar.plus,
    Scalar.times] using hsum

end NumericField.Exact

namespace World

variable {F : NumericField α σ} {w : World α σ} {l m : Line α} {o : Origin}

theorem settledAt_meet (o : Origin) (hl : ∀ x ∈ l.scalars, w.Settled x)
    (hm : ∀ x ∈ m.scalars, w.Settled x) : w.SettledAt (l.meet o m) := by
  have hclosed := w.settled_closed
  have hla := (List.forall_mem_append.1 hl).1
  have hma := (List.forall_mem_append.1 hm).1
  have hd := hclosed.direction (o.part 2) hl
  have he := hclosed.direction (o.part 3) hm
  have hk := hclosed.division (o.part 4)
    (hclosed.cross (o.part 6) (hclosed.towards (o.part 5) hla hma) he)
    (hclosed.cross (o.part 7) hd he)
  exact hclosed.along o hla hk hd

theorem evaluates_of_meet (h : ∀ x ∈ (l.meet o m).vect, w.Evaluates F x) :
    (∀ x ∈ l.scalars, w.Evaluates F x) ∧ ∀ x ∈ m.scalars, w.Evaluates F x := by
  have hproduct := (evaluates_of_shifted h).2 _ (.head _)
  have hdivision := hproduct.part (.head _)
  obtain ⟨hd, he⟩ := evaluates_of_cross (hdivision.part (.tail _ (.head _)))
  exact ⟨List.forall_mem_append.2 (evaluates_of_towards hd),
    List.forall_mem_append.2 (evaluates_of_towards he)⟩

theorem locates_parallel (hl : ∀ x ∈ l.scalars, w.Evaluates F x)
    (hm : ∀ x ∈ m.scalars, w.Evaluates F x) : w.Locates F (.parallel l m) := by
  obtain ⟨hla, hlb⟩ := List.forall_mem_append.1 hl
  obtain ⟨hma, hmb⟩ := List.forall_mem_append.1 hm
  simp only [Locates, Relation.points, List.forall_mem_cons]
  exact ⟨hla, hlb, hma, hmb, by simp⟩

theorem locates_inLine {p : Point α} (hp : ∀ x ∈ p.vect, w.Evaluates F x)
    (hl : ∀ x ∈ l.scalars, w.Evaluates F x) : w.Locates F (.inLine p l) := by
  obtain ⟨hla, hlb⟩ := List.forall_mem_append.1 hl
  simp only [Locates, Relation.points, List.forall_mem_cons]
  exact ⟨hp, hla, hlb, by simp⟩

theorem locates_samePoint {p q : Point α} (hp : ∀ x ∈ p.vect, w.Evaluates F x)
    (hq : ∀ x ∈ q.vect, w.Evaluates F x) : w.Locates F (.samePoint p q) := by
  simp only [Locates, Relation.points, List.forall_mem_cons]
  exact ⟨hp, hq, by simp⟩

/-- Where a settled point has a place, it has coordinates, and that place is its own. -/
theorem SettledAt.evaluates [Zero K] {φ : α → K} {p : Point α} {k : K × K} (hs : w.SettledAt p)
    (h : F.interpretation.AtPlace w.SameSources φ p k) :
    (∀ x ∈ p.vect, w.Evaluates F x) ∧ F.interpretation.place φ w p = k := by
  have hscalar {x : Scalar α} {a : K} (hx : F.interpretation.HasValue w.SameSources φ x a) :
      (F.interpretation.outcome w x).isSome = true := by
    obtain ⟨v, hv, -⟩ := hx.apply_some (w := w) rfl
    rw [Interpretation.outcome_eq_some.2 (congrArg Prod.fst hv)]
    rfl
  have hvalues : w.HasCoordinates F p := by
    simp only [HasCoordinates, Point.vect, List.forall_mem_cons]
    exact ⟨hscalar h.1, hscalar h.2, by simp⟩
  have hevaluates (x : Scalar α) (hx : x ∈ p.vect) : w.Evaluates F x := ⟨hs x hx, hvalues x hx⟩
  exact ⟨hevaluates, (atPlace_at φ hevaluates).unique h⟩

variable [Field K] {φ : α → K} (hF : F.Exact φ)

include hF

theorem place_perpendicularThrough {q : Point α} (hl : ∀ x ∈ l.scalars, w.Evaluates F x)
    (hq : ∀ x ∈ q.vect, w.Evaluates F x) (o : Origin) :
    let ρ := F.interpretation.place φ w
    let m := l.perpendicularThrough o q
    (∀ x ∈ m.scalars, w.Evaluates F x) ∧ ρ m.b - ρ q = turned (ρ l.b - ρ l.a) := by
  intro ρ m
  have hI : F.interpretation.field.Exact φ := hF
  obtain ⟨hla, hlb⟩ := List.forall_mem_append.1 hl
  have hsettled {p : Point α} (hp : ∀ x ∈ p.vect, w.Evaluates F x) : w.SettledAt p :=
    fun x hx => (hp x hx).settled
  have hend : w.SettledAt m.b :=
    settledAt_perpendicularThrough o (hsettled hla) (hsettled hlb) (hsettled hq)
  obtain ⟨hb, hplace⟩ := hend.evaluates (hI.atPlace_perpendicularThrough o (atPlace_at φ hla)
    (atPlace_at φ hlb) (atPlace_at φ hq))
  refine ⟨List.forall_mem_append.2 ⟨hq, hb⟩, ?_⟩
  rw [show ρ m.b = _ from hplace, add_sub_cancel_left]

/-- Where the point has coordinates, the lines are not parallel, and it is where they meet. -/
theorem place_meet (h : ∀ x ∈ (l.meet o m).vect, w.Evaluates F x) :
    let ρ := F.interpretation.place φ w
    cross (ρ l.b - ρ l.a) (ρ m.b - ρ m.a) ≠ 0 ∧
      ρ (l.meet o m) = Plane.meet (ρ l.a) (ρ l.b - ρ l.a) (ρ m.a) (ρ m.b - ρ m.a) := by
  classical
  intro ρ
  have hI : F.interpretation.field.Exact φ := hF
  obtain ⟨hl, hm⟩ := evaluates_of_meet h
  obtain ⟨hla, hlb⟩ := List.forall_mem_append.1 hl
  obtain ⟨hma, hmb⟩ := List.forall_mem_append.1 hm
  have hat {p : Point α} (hp : ∀ x ∈ p.vect, w.Evaluates F x) :
      F.interpretation.AtPlace w.SameSources φ p (ρ p) := atPlace_at φ hp
  have hcross : cross (ρ l.b - ρ l.a) (ρ m.b - ρ m.a) ≠ 0 := by
    intro hzero
    have hnone := hI.stands_meet_none (hat hla) (hat hlb) (hat hma) (hat hmb) o hzero
    cases (hnone w rfl).2.symm.trans ((hat h).1 w rfl).2
  exact ⟨hcross, (hat h).unique (hI.atPlace_meet (hat hla) (hat hlb) (hat hma) (hat hmb) o hcross)⟩

theorem evaluates_meet (hl : ∀ x ∈ l.scalars, w.Evaluates F x)
    (hm : ∀ x ∈ m.scalars, w.Evaluates F x)
    (h : let ρ := F.interpretation.place φ w
      cross (ρ l.b - ρ l.a) (ρ m.b - ρ m.a) ≠ 0) :
    ∀ x ∈ (l.meet o m).vect, w.Evaluates F x := by
  classical
  have hI : F.interpretation.field.Exact φ := hF
  have hmeet : w.SettledAt (l.meet o m) :=
    settledAt_meet o (fun x hx => (hl x hx).settled) fun x hx => (hm x hx).settled
  obtain ⟨hla, hlb⟩ := List.forall_mem_append.1 hl
  obtain ⟨hma, hmb⟩ := List.forall_mem_append.1 hm
  exact (hmeet.evaluates (hI.atPlace_meet (atPlace_at φ hla) (atPlace_at φ hlb) (atPlace_at φ hma)
    (atPlace_at φ hmb) o h)).1

omit hF in
theorem holds_parallel_iff (hF : F.ExactEquality φ) (hl : ∀ x ∈ l.scalars, w.Evaluates F x)
    (hm : ∀ x ∈ m.scalars, w.Evaluates F x) {b : Bool} :
    let ρ := F.interpretation.place φ w
    F.interpretation.holds (.parallel l m) w = (.ok b, w) ↔
      (b = true ↔ cross (ρ l.b - ρ l.a) (ρ m.b - ρ m.a) = 0) :=
  hF.holds_iff (locates_parallel hl hm) trivial

end World
end PlaneGeometry
