import PlaneGeometry.Proofs.CommonPoints

/-!
# Points of a line by parameter over exact fields

The test for points of a line multiplies coordinates crosswise. It is passed exactly by the points
that lie along the direction, each at one parameter, if the direction is not zero. So the line may
be given by any two of its points that are in different places.
-/
namespace PlaneGeometry

open Plane

variable {α σ K : Type} [Element α]

namespace Plane

variable [Field K] {d : K × K}

/-- One of the axes does the job. -/
theorem exists_cross_ne_zero (hd : d ≠ 0) : ∃ e, cross d e ≠ 0 := by
  by_contra! h
  refine hd (Prod.ext ?_ ?_)
  · simpa [cross] using h (0, 1)
  · simpa [cross] using h (1, 0)

private theorem cross_eq_zero_iff_exists_smul (hd : d ≠ 0) (v : K × K) :
    cross v d = 0 ↔ ∃ t : K, v = t • d := by
  constructor
  · intro h
    obtain ⟨e, he⟩ := exists_cross_ne_zero hd
    have hcramer : cross d e • v = cross v e • d := by rw [cross_smul, h, zero_smul, sub_zero]
    refine ⟨(cross d e)⁻¹ * cross v e, ?_⟩
    rw [mul_smul, ← hcramer, inv_smul_smul₀ he]
  · rintro ⟨t, rfl⟩
    exact cross_smul_self t d

/-- What two points of a line span is what the line spans, times the difference of their
parameters. -/
theorem cross_along (k x d : K × K) (t u : K) :
    cross (k - (x + t • d)) (x + u • d - (x + t • d)) = (u - t) * cross (k - x) d := by
  simp only [cross, Prod.fst_sub, Prod.snd_sub, Prod.fst_add, Prod.snd_add, Prod.smul_fst,
    Prod.smul_snd, smul_eq_mul]
  ring

private theorem cross_congr (hd : d ≠ 0) {x r s : K × K} (hr : cross (r - x) d = 0)
    (hs : cross (s - x) d = 0) (hrs : r ≠ s) (k : K × K) :
    cross (k - r) (s - r) = 0 ↔ cross (k - x) d = 0 := by
  obtain ⟨t, ht⟩ := (cross_eq_zero_iff_exists_smul hd _).1 hr
  obtain ⟨u, hu⟩ := (cross_eq_zero_iff_exists_smul hd _).1 hs
  obtain rfl := sub_eq_iff_eq_add'.1 ht
  obtain rfl := sub_eq_iff_eq_add'.1 hu
  have hne : u - t ≠ 0 := by
    rw [sub_ne_zero]
    rintro rfl
    exact hrs rfl
  rw [cross_along, mul_eq_zero, or_iff_right hne]

end Plane

/-- The points of the line are those that are at a parameter, and the parameters of one point stand
for the same. Two of its points in different places make the same line, in either order. -/
structure World.Parametrized [Zero K] (F : NumericField α σ) (φ : α → K) (w : World α σ)
    (l : Line α) : Prop where
  inLine {q : Point α} (o o' : Origin) : (∀ x ∈ q.vect, w.Evaluates F x) → ∃ b,
    F.interpretation.holds (.inLine q l) w = (.ok b, w) ∧ (b = true ↔ ∃ t,
      F.interpretation.holds (.samePoint q (l.pointAt o (.leaf o' t))) w = (.ok true, w))
  parameter {q : Point α} {t u : α} (o o' o₁ o₁' : Origin) : (∀ x ∈ q.vect, w.Evaluates F x) →
    F.interpretation.holds (.samePoint q (l.pointAt o (.leaf o' t))) w = (.ok true, w) →
      (F.interpretation.holds (.samePoint q (l.pointAt o₁ (.leaf o₁' u))) w = (.ok true, w) ↔
        φ u = φ t)
  through {q r s : Point α} : (∀ x ∈ q.vect, w.Evaluates F x) → (∀ x ∈ r.vect, w.Evaluates F x) →
    (∀ x ∈ s.vect, w.Evaluates F x) →
      F.interpretation.holds (.inLine r l) w = (.ok true, w) →
        F.interpretation.holds (.inLine s l) w = (.ok true, w) →
          F.interpretation.place φ w r ≠ F.interpretation.place φ w s →
            F.interpretation.holds (.inLine q ⟨r, s⟩) w = F.interpretation.holds (.inLine q l) w

namespace World

variable [Field K] {F : NumericField α σ} {φ : α → K} {w : World α σ} {l : Line α} {q : Point α}
  (hF : F.ExactEquality φ) (hl : ∀ x ∈ l.scalars, w.Evaluates F x)

include hF hl

private theorem place_pointAt (o o' : Origin) (t : α) :
    let ρ := F.interpretation.place φ w
    (∀ x ∈ (l.pointAt o (.leaf o' t)).vect, w.Evaluates F x) ∧
      ρ (l.pointAt o (.leaf o' t)) = ρ l.a + φ t • (ρ l.b - ρ l.a) := by
  intro ρ
  have hI : F.interpretation.field.Exact φ := hF.toExact
  obtain ⟨hla, hlb⟩ := List.forall_mem_append.1 hl
  have hsettled : w.SettledAt (l.pointAt o (.leaf o' t)) := settledAt_pointAt o
    (fun x hx => (hla x hx).settled) (fun x hx => (hlb x hx).settled) o' t
  have ha := atPlace_at φ hla
  have hd := hI.displaces_towards (o.part 2) ha (atPlace_at φ hlb)
  exact hsettled.evaluates (hI.atPlace_along o ha (.pure t) hd)

private theorem samePoint_pointAt_iff (hq : ∀ x ∈ q.vect, w.Evaluates F x) (o o' : Origin) (t : α) :
    let ρ := F.interpretation.place φ w
    F.interpretation.holds (.samePoint q (l.pointAt o (.leaf o' t))) w = (.ok true, w) ↔
      ρ q - ρ l.a = φ t • (ρ l.b - ρ l.a) := by
  intro ρ
  obtain ⟨hpoint, hplace⟩ := place_pointAt hF hl o o' t
  rw [sub_eq_iff_eq_add', ← hplace]
  exact hF.holds_true_iff (locates_samePoint hq hpoint) trivial

private theorem parametrized (hφ : Function.Surjective φ)
    (hne : F.interpretation.place φ w l.a ≠ F.interpretation.place φ w l.b) :
    w.Parametrized F φ l := by
  let ρ := F.interpretation.place φ w
  have hd : ρ l.b - ρ l.a ≠ 0 := sub_ne_zero.2 hne.symm
  constructor
  case inLine =>
    intro q o o' hq
    obtain ⟨-, b, -, -, hb, htrue⟩ :=
      hF.holds_apply (r := .inLine q l) trivial (locates_inLine hq hl) .scratch
    refine ⟨b, hb, htrue.trans ((cross_eq_zero_iff_exists_smul hd _).trans ?_)⟩
    exact hφ.exists.trans (exists_congr fun t => (samePoint_pointAt_iff hF hl hq o o' t).symm)
  case parameter =>
    intro q t u o o' o₁ o₁' hq ht
    have hat : ρ q - ρ l.a = φ t • (ρ l.b - ρ l.a) := (samePoint_pointAt_iff hF hl hq o o' t).1 ht
    have hinj : φ t • (ρ l.b - ρ l.a) = φ u • (ρ l.b - ρ l.a) ↔ φ t = φ u :=
      (smul_left_injective K hd).eq_iff
    rw [← hat, eq_comm (a := φ t)] at hinj
    exact (samePoint_pointAt_iff hF hl hq o₁ o₁' u).trans hinj
  case through =>
    intro q r s hq hr hs hrl hsl hrs
    have hr' := (hF.holds_true_iff (locates_inLine hr hl) trivial).1 hrl
    have hs' := (hF.holds_true_iff (locates_inLine hs hl) trivial).1 hsl
    exact hF.holds_congr (locates_inLine hq (List.forall_mem_append.2 ⟨hr, hs⟩))
      (locates_inLine hq hl) trivial trivial (cross_congr hd hr' hs' hrs _)

end World

/-- Over a prime field the points of a line of two different points are those at a parameter, which
is unique modulo the prime. Any two points of the line that are different modulo the prime make a
line with the same points. -/
theorem Residues.line_parametrized {p : UInt64} [Fact p.toNat.Prime] (hlt : p.toNat < 2 ^ 32)
    {σ : Type} {F : NumericField UInt64 σ} (hF : Modular p F) {w : World UInt64 σ}
    {l : Line UInt64} (hl : ∀ x ∈ l.scalars, w.Evaluates F x)
    (hne : let ρ := F.interpretation.place (residue p) w
      ρ l.a ≠ ρ l.b) : w.Parametrized F (residue p) l :=
  World.parametrized (hF.exactEquality hlt) hl (residue_surjective hlt) hne

namespace Specimen

open Residues

/-- Twice as far from the origin as the anchor, modulo seven. -/
def doubledA : Point UInt64 := .ofValues ⟨81, []⟩ 13 18

/-- The point is on the line to the anchor, and makes with the origin the line back. -/
theorem line_parametrized_lineToA :
    (∃ t, moduloSeven.interpretation.holds
        (.samePoint doubledA (lineToA.pointAt ⟨82, []⟩ (.leaf ⟨83, []⟩ t))) figureA =
          (.ok true, figureA) ∧ residue 7 t = residue 7 9) ∧
      moduloSeven.interpretation.holds (.inLine pointA ⟨doubledA, originPoint⟩) figureA =
        moduloSeven.interpretation.holds (.inLine pointA lineToA) figureA := by
  have hline := line_parametrized (p := 7) (by decide) modular_moduloSeven (w := figureA)
    (l := lineToA) (by decide +kernel) (by decide +kernel)
  have htwice : ∀ x ∈ doubledA.vect, figureA.Evaluates moduloSeven x := by decide +kernel
  have hnear : ∀ x ∈ originPoint.vect, figureA.Evaluates moduloSeven x := by decide +kernel
  obtain ⟨b, hb, hparameter⟩ := hline.inLine ⟨82, []⟩ ⟨83, []⟩ htwice
  obtain ⟨c, hc, -⟩ := hline.inLine ⟨82, []⟩ ⟨83, []⟩ hnear
  have htwiceOn : moduloSeven.interpretation.holds (.inLine doubledA lineToA) figureA =
      (.ok true, figureA) := Eval.ok_of_toOption hb (by decide +kernel)
  have hnearOn : moduloSeven.interpretation.holds (.inLine originPoint lineToA) figureA =
      (.ok true, figureA) := Eval.ok_of_toOption hc (by decide +kernel)
  constructor
  · have hexact := modular_moduloSeven.exactEquality (by decide)
    have hnine := (World.samePoint_pointAt_iff hexact (l := lineToA) (by decide +kernel) htwice
      ⟨82, []⟩ ⟨83, []⟩ 9).2 (by decide +kernel)
    obtain ⟨t, ht⟩ := hparameter.1 (Eval.ok_unique hb htwiceOn)
    exact ⟨t, ht, ((hline.parameter _ _ _ _ htwice ht).1 hnine).symm⟩
  · exact hline.through (by decide +kernel) htwice hnear htwiceOn hnearOn (by decide +kernel)

end Specimen
end PlaneGeometry
