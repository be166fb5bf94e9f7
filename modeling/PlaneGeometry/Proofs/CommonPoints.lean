import PlaneGeometry.Proofs.Circumcircles

/-!
# The one point of two lines

Two lines have exactly one point in common if the cross product of their directions is not zero.
This is asked for once. Wherever anchors are moved later on, the point that has been made has
coordinates just if the lines still have one point in common, and then it is this point.
-/
namespace PlaneGeometry

open Plane

variable {α σ K : Type} [Element α]

namespace Plane

variable [Field K]

private theorem cross_comm (d e : K × K) : cross e d = -cross d e := by
  simp only [cross]
  ring

private theorem meet_comm {d e : K × K} (h : cross d e ≠ 0) (x y : K × K) :
    meet y e x d = meet x d y e := by
  have h' : cross e d ≠ 0 := by rwa [cross_comm, neg_ne_zero]
  exact (eq_meet_iff h _).2 ((eq_meet_iff h' _).1 rfl).symm

end Plane

/-- From now on the point has coordinates just where the directions of the lines span the plane.
Where it has, it is on both lines, whatever else is on both is at the same place, and so is the
point that is made of the lines the other way round. -/
structure World.CommonPoint [Field K] (F : NumericField α σ) (φ : α → K) (w : World α σ)
    (l m : Line α) (q : Point α) : Prop where
  evaluates_iff {v : World α σ} : w.Leads v →
    (∀ p ∈ [l.a, l.b, m.a, m.b], v.HasCoordinates F p) →
      let ρ := F.interpretation.place φ v
      (v.HasCoordinates F q ↔ cross (ρ l.b - ρ l.a) (ρ m.b - ρ m.a) ≠ 0)
  onBoth {v : World α σ} : w.Leads v → v.HasCoordinates F q →
    F.interpretation.holds (.inLine q l) v = (.ok true, v) ∧
      F.interpretation.holds (.inLine q m) v = (.ok true, v)
  unique {v : World α σ} {r : Point α} {k : K × K} : w.Leads v → v.HasCoordinates F q →
    F.interpretation.AtPlace v.SameSources φ r k →
      F.interpretation.holds (.inLine r l) v = (.ok true, v) →
        F.interpretation.holds (.inLine r m) v = (.ok true, v) →
          F.interpretation.holds (.samePoint r q) v = (.ok true, v)
  exchanged {v : World α σ} (o : Origin) : w.Leads v → v.HasCoordinates F q →
    ∃ q', F.interpretation.intersection o m l w = (q', w) ∧
      F.interpretation.intersection o m l v = (q', v) ∧
        F.interpretation.holds (.samePoint q q') v = (.ok true, v)

namespace World

variable [Field K] {F : NumericField α σ} {φ : α → K} (hF : F.ExactEquality φ) {w : World α σ}
  {l m : Line α}

include hF

/-- The point is on both lines, and the lines that it is made of do not matter otherwise. -/
theorem holds_meet {o : Origin} (h : ∀ x ∈ (l.meet o m).vect, w.Evaluates F x) :
    F.interpretation.holds (.inLine (l.meet o m) l) w = (.ok true, w) ∧
      F.interpretation.holds (.inLine (l.meet o m) m) w = (.ok true, w) := by
  obtain ⟨hl, hm⟩ := evaluates_of_meet h
  obtain ⟨hcross, hplace⟩ := place_meet hF.toExact h
  obtain ⟨honl, honm⟩ := (eq_meet_iff hcross _).1 hplace
  constructor
  · exact (hF.holds_iff (locates_inLine h hl) trivial).2 (iff_of_true rfl honl)
  · exact (hF.holds_iff (locates_inLine h hm) trivial).2 (iff_of_true rfl honm)

private theorem samePoint_meet {o : Origin} (h : ∀ x ∈ (l.meet o m).vect, w.Evaluates F x)
    {r : Point α} {k : K × K} (hr : F.interpretation.AtPlace w.SameSources φ r k)
    (hrl : F.interpretation.holds (.inLine r l) w = (.ok true, w))
    (hrm : F.interpretation.holds (.inLine r m) w = (.ok true, w)) :
    F.interpretation.holds (.samePoint r (l.meet o m)) w = (.ok true, w) := by
  have hI : F.interpretation.field.Exact φ := hF.toExact
  obtain ⟨hl, hm⟩ := evaluates_of_meet h
  obtain ⟨hla, hlb⟩ := List.forall_mem_append.1 hl
  obtain ⟨hma, hmb⟩ := List.forall_mem_append.1 hm
  obtain ⟨hcross, hplace⟩ := place_meet hF.toExact h
  have honl := (hI.decides_inLine hr (atPlace_at φ hla) (atPlace_at φ hlb)).of_true rfl hrl
  have honm := (hI.decides_inLine hr (atPlace_at φ hma) (atPlace_at φ hmb)).of_true rfl hrm
  have hk : k = F.interpretation.place φ w (l.meet o m) :=
    ((eq_meet_iff hcross k).2 ⟨honl, honm⟩).trans hplace.symm
  obtain ⟨b, hb, htrue⟩ := hI.accepts_samePoint hr (atPlace_at φ h) w rfl
  obtain rfl := htrue hk
  exact hb

private theorem intersection_eq_meet (hl : ∀ x ∈ l.scalars, w.Evaluates F x)
    (hm : ∀ x ∈ m.scalars, w.Evaluates F x)
    (h : let ρ := F.interpretation.place φ w
      cross (ρ l.b - ρ l.a) (ρ m.b - ρ m.a) ≠ 0) (o : Origin) :
    F.interpretation.intersection o l m w = (l.meet o m, w) :=
  Interpretation.intersection_apply
    ((holds_parallel_iff hF hl hm).2 (iff_of_false Bool.false_ne_true h)) o

private theorem samePoint_meet_meet {o : Origin} (h : ∀ x ∈ (l.meet o m).vect, w.Evaluates F x)
    (o' : Origin) : (∀ x ∈ (m.meet o' l).vect, w.Evaluates F x) ∧
      F.interpretation.holds (.samePoint (l.meet o m) (m.meet o' l)) w = (.ok true, w) := by
  obtain ⟨hl, hm⟩ := evaluates_of_meet h
  obtain ⟨hcross, hplace⟩ := place_meet hF.toExact h
  have hcross' : let ρ := F.interpretation.place φ w
      cross (ρ m.b - ρ m.a) (ρ l.b - ρ l.a) ≠ 0 := by
    intro ρ
    rwa [cross_comm, neg_ne_zero]
  have h' : ∀ x ∈ (m.meet o' l).vect, w.Evaluates F x := evaluates_meet hF.toExact hm hl hcross'
  obtain ⟨-, hplace'⟩ := place_meet hF.toExact h'
  refine ⟨h', (hF.holds_iff (locates_samePoint h h') trivial).2 ?_⟩
  exact iff_of_true rfl (hplace.trans ((meet_comm hcross _ _).symm.trans hplace'.symm))

private theorem commonPoint_meet (o : Origin) (hl : ∀ x ∈ l.scalars, w.Evaluates F x)
    (hm : ∀ x ∈ m.scalars, w.Evaluates F x)
    (h : let ρ := F.interpretation.place φ w
      cross (ρ l.b - ρ l.a) (ρ m.b - ρ m.a) ≠ 0) :
    w.CommonPoint F φ l m (l.meet o m) := by
  have hsettled : w.SettledAt (l.meet o m) :=
    settledAt_meet o (fun x hx => (hl x hx).settled) fun x hx => (hm x hx).settled
  constructor
  case evaluates_iff =>
    intro v hv hvalues
    simp only [List.forall_mem_cons] at hvalues
    obtain ⟨hla, hlb, hma, hmb, -⟩ := hvalues
    have hlv : ∀ x ∈ l.scalars, v.Evaluates F x := fun x hx =>
      ⟨hv.settled (hl x hx).settled, List.forall_mem_append.2 ⟨hla, hlb⟩ x hx⟩
    have hmv : ∀ x ∈ m.scalars, v.Evaluates F x := fun x hx =>
      ⟨hv.settled (hm x hx).settled, List.forall_mem_append.2 ⟨hma, hmb⟩ x hx⟩
    constructor
    · intro hq
      exact (place_meet hF.toExact (hq.evaluates hsettled hv)).1
    · intro hcross x hx
      exact (evaluates_meet hF.toExact hlv hmv hcross x hx).value
  case onBoth =>
    intro v hv hq
    exact holds_meet hF (hq.evaluates hsettled hv)
  case unique =>
    intro v r k hv hq hr hrl hrm
    exact samePoint_meet hF (hq.evaluates hsettled hv) hr hrl hrm
  case exchanged =>
    intro v o' hv hq
    obtain ⟨h', hsame⟩ := samePoint_meet_meet hF (hq.evaluates hsettled hv) o'
    obtain ⟨hw, -⟩ := samePoint_meet_meet hF (evaluates_meet (o := o) hF.toExact hl hm h) o'
    have hmade {u : World α σ} (hu : ∀ x ∈ (m.meet o' l).vect, u.Evaluates F x) :
        F.interpretation.intersection o' m l u = (m.meet o' l, u) := by
      obtain ⟨hmu, hlu⟩ := evaluates_of_meet hu
      exact intersection_eq_meet hF hmu hlu (place_meet hF.toExact hu).1 o'
    exact ⟨_, hmade hw, hmade h', hsame⟩

end World

/-- Over a prime field a throwing point is made of two lines exactly if the cross product of their
directions is a multiple of the modulus. Any other point that is made is from then on the one point
that the lines have in common, wherever they have only one. -/
theorem Residues.intersection_common {p : UInt64} [Fact p.toNat.Prime] (hlt : p.toNat < 2 ^ 32)
    {σ : Type} {F : NumericField UInt64 σ} (hF : Modular p F) {w : World UInt64 σ}
    {l m : Line UInt64} (hl : ∀ x ∈ l.scalars, w.Evaluates F x)
    (hm : ∀ x ∈ m.scalars, w.Evaluates F x) (o : Origin) :
    let ρ := F.interpretation.place (residue p) w
    ∃ q, F.interpretation.intersection o l m w = (q, w) ∧
      (q.isThrowing = true ↔ cross (ρ l.b - ρ l.a) (ρ m.b - ρ m.a) = 0) ∧
      (q.isThrowing = true → ∀ x ∈ q.vect, F.Raises
        (.degenerate "lines do not meet in one point" (Relation.parallel l m).text) x) ∧
      (q.isThrowing = false → w.CommonPoint F (residue p) l m q) := by
  intro ρ
  have hexact : F.ExactEquality (residue p) := hF.exactEquality hlt
  by_cases h : cross (ρ l.b - ρ l.a) (ρ m.b - ρ m.a) = 0
  case pos =>
    have hparallel := (World.holds_parallel_iff hexact hl hm).2 (iff_of_true rfl h)
    refine ⟨_, Interpretation.intersection_parallel hparallel o, iff_of_true rfl h, ?_, ?_⟩
    · intro _
      simp [Point.vect, Point.throwing, F.raises_throwing]
    · intro hthrow
      cases hthrow
  case neg =>
    have hmade := World.intersection_eq_meet hexact hl hm h o
    refine ⟨_, hmade, iff_of_false Bool.false_ne_true h, ?_, ?_⟩
    · intro hthrow
      cases hthrow
    · intro _
      exact World.commonPoint_meet hexact o hl hm h

namespace Specimen

open Residues

/-- One line turns with the anchor, the other one is vertical. -/
def lineToA : Line UInt64 := ⟨originPoint, pointA⟩
def lineAtEight : Line UInt64 := ⟨pointEightZero, .ofValues ⟨51, []⟩ 8 1⟩

def crossingPoint : Point UInt64 :=
  (moduloSeven.interpretation.intersection ⟨52, []⟩ lineToA lineAtEight figureA).1

/-- The point stays on both lines when the anchor has moved. A line has many points in common with
itself. -/
theorem intersection_common_figureALifted :
    moduloSeven.interpretation.holds (.inLine crossingPoint lineToA) figureALifted =
        (.ok true, figureALifted) ∧
      moduloSeven.interpretation.holds (.inLine crossingPoint lineAtEight) figureALifted =
          (.ok true, figureALifted) ∧
        (moduloSeven.interpretation.intersection ⟨53, []⟩ lineAtEight lineAtEight
          figureA).1.isThrowing = true := by
  have hmoved : figureA.Leads figureALifted := ⟨_, by decide +kernel, rfl⟩
  obtain ⟨q, hq, -, -, hcommon⟩ := intersection_common (p := 7) (by decide) modular_moduloSeven
    (w := figureA) (l := lineToA) (m := lineAtEight) (by decide +kernel) (by decide +kernel)
    ⟨52, []⟩
  obtain rfl : q = crossingPoint := (congrArg Prod.fst hq).symm
  obtain ⟨hturning, hupright⟩ :=
    (hcommon (by decide +kernel)).onBoth hmoved (by decide +kernel)
  obtain ⟨r, hr, hthrow, -⟩ := intersection_common (p := 7) (by decide) modular_moduloSeven
    (w := figureA) (l := lineAtEight) (m := lineAtEight) (by decide +kernel) (by decide +kernel)
    ⟨53, []⟩
  refine ⟨hturning, hupright, ?_⟩
  rw [hr]
  exact hthrow.2 (by decide +kernel)

end Specimen
end PlaneGeometry
