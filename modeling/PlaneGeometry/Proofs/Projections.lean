import PlaneGeometry.Proofs.Circumcircles
import PlaneGeometry.Proofs.OffLines

/-!
# Projections to a line and images in it

Over an exact field the foot of the perpendicular from a point is divided by the squared length of
the direction. If this is zero, there is no foot, not even of a point of the line. Otherwise the
usual identities hold, with one exception: where one and one is zero, every point is its own image.
-/
namespace PlaneGeometry

open Plane

variable {α σ K : Type} [Element α]

namespace Plane

variable [Field K]

private theorem dot_sub_left (u v e : K × K) : dot (u - v) e = dot u e - dot v e := by
  simp only [dot, Prod.fst_sub, Prod.snd_sub]
  ring

private theorem dot_add_left (u v e : K × K) : dot (u + v) e = dot u e + dot v e := by
  simp only [dot, Prod.fst_add, Prod.snd_add]
  ring

/-- The projection of `k` to the line through `x` along `d`. -/
def foot (x d k : K × K) : K × K := x + (dot (k - x) d * (dot d d)⁻¹) • d

/-- The image of `k` in the line. -/
def mirror (x d k : K × K) : K × K := foot x d k + foot x d k - k

section

variable (x d k : K × K)

private theorem foot_sub :
    foot x d k - x = (dot (k - x) d * (dot d d)⁻¹) • d := add_sub_cancel_left _ _

private theorem cross_foot : cross (foot x d k - x) d = 0 := by rw [foot_sub, cross_smul_self]

private theorem foot_congr {k l : K × K} (h : dot (k - x) d = dot (l - x) d) :
    foot x d k = foot x d l := by
  rw [foot, h, foot]

private theorem foot_sub_foot (l : K × K) :
    foot x d l - foot x d k = (dot (l - k) d * (dot d d)⁻¹) • d := by
  rw [foot, foot, add_sub_add_left_eq_sub, ← sub_smul, ← sub_mul, ← dot_sub_left,
    sub_sub_sub_cancel_right]

end

variable {d : K × K} (hd : dot d d ≠ 0) (x k : K × K)

include hd

/-- The point and its projection are across the line from each other. -/
theorem dot_foot : dot (foot x d k - k) d = 0 := by
  rw [← sub_sub_sub_cancel_right (foot x d k) k x, dot_sub_left, foot_sub, dot_smul_left,
    inv_mul_cancel_right₀ hd, sub_self]

private theorem foot_eq_self_iff : foot x d k = k ↔ cross (k - x) d = 0 := by
  constructor
  · intro h
    rw [← h]
    exact cross_foot x d k
  · intro h
    have hparts : dot d d • (k - x) = dot (k - x) d • d := by
      rw [smul_dot_self, h, zero_smul, sub_zero]
    rw [foot, mul_comm, mul_smul, ← hparts, inv_smul_smul₀ hd, add_sub_cancel]

private theorem foot_foot : foot x d (foot x d k) = foot x d k :=
  (foot_eq_self_iff hd x _).2 (cross_foot x d k)

private theorem foot_mirror : foot x d (mirror x d k) = foot x d k := by
  have hshift : mirror x d k - x = (k - x) + ((foot x d k - k) + (foot x d k - k)) := by
    rw [mirror]
    abel
  apply foot_congr
  rw [hshift, dot_add_left, dot_add_left, dot_foot hd, add_zero, add_zero]

private theorem mirror_mirror : mirror x d (mirror x d k) = k := by
  rw [mirror, foot_mirror hd, mirror, sub_sub_cancel]

private theorem mirror_eq_self_iff (h2 : (1 + 1 : K) ≠ 0) :
    mirror x d k = k ↔ cross (k - x) d = 0 := by
  have htwice : mirror x d k - k = (1 + 1 : K) • (foot x d k - k) := by
    rw [mirror, add_smul, one_smul]
    abel
  rw [← foot_eq_self_iff hd, ← sub_eq_zero, htwice, smul_eq_zero_iff_right h2, sub_eq_zero]

private theorem dot_mirror_sub (l : K × K) :
    dot (mirror x d l - mirror x d k) (mirror x d l - mirror x d k) = dot (l - k) (l - k) := by
  have hopposite : mirror x d l - mirror x d k =
      -((l - k) - ((1 + 1) * (dot (l - k) d * (dot d d)⁻¹)) • d) := by
    rw [mul_smul, ← foot_sub_foot, add_smul, one_smul, mirror, mirror]
    abel
  rw [hopposite, dot_neg, dot_reflected hd]

end Plane

namespace NumericField.Exact

open Interpretation

variable [Field K] {I : Interpretation α σ} {φ : α → K} {V : World α σ → Prop}
  (hF : I.field.Exact φ) {l : Line α} {q : Point α} {x y k : K × K} (ha : I.AtPlace V φ l.a x)
  (hb : I.AtPlace V φ l.b y) (hq : I.AtPlace V φ q k) (h : dot (y - x) (y - x) ≠ 0) (o : Origin)

include hF ha hb hq h

private theorem atPlace_foot : I.AtPlace V φ (l.foot o q) (foot x (y - x) k) := by
  classical
  have hd := hF.displaces_towards (o.part 2) ha hb
  have hw := hF.displaces_towards (o.part 4) ha hq
  have hk := hF.hasValue_division (o.part 3) (hF.hasValue_dot (o.part 5) hw hd)
    (hF.hasValue_dot (o.part 6) hd hd) h
  exact hF.atPlace_along o ha hk hd

private theorem atPlace_reflection : I.AtPlace V φ (l.reflection o q) (mirror x (y - x) k) :=
  hF.atPlace_image o (hF.atPlace_foot ha hb hq h (o.part 2)) hq

end NumericField.Exact

/-- What is said about the feet and the images of points with coordinates. -/
structure World.Projects (F : NumericField α σ) (w : World α σ) (l : Line α) : Prop where
  evaluates {q : Point α} (o : Origin) : (∀ x ∈ q.vect, w.Evaluates F x) →
    (∀ x ∈ (l.foot o q).vect, w.Evaluates F x) ∧ ∀ x ∈ (l.reflection o q).vect, w.Evaluates F x
  inLine {q : Point α} (o : Origin) : (∀ x ∈ q.vect, w.Evaluates F x) →
    F.interpretation.holds (.inLine (l.foot o q) l) w = (.ok true, w)
  perpendicular {q : Point α} (o : Origin) : (∀ x ∈ q.vect, w.Evaluates F x) →
    F.interpretation.holds (.perpendicular l ⟨q, l.foot o q⟩) w = (.ok true, w)
  foot_foot {q : Point α} (o o' : Origin) : (∀ x ∈ q.vect, w.Evaluates F x) →
    F.interpretation.holds (.samePoint (l.foot o' (l.foot o q)) (l.foot o q)) w = (.ok true, w)
  reflection_reflection {q : Point α} (o o' : Origin) : (∀ x ∈ q.vect, w.Evaluates F x) →
    F.interpretation.holds (.samePoint (l.reflection o' (l.reflection o q)) q) w = (.ok true, w)
  lengthSquared {q r : Point α} (o o' o₁ o₂ : Origin) : (∀ x ∈ q.vect, w.Evaluates F x) →
    (∀ x ∈ r.vect, w.Evaluates F x) → ∃ x y,
      F.interpretation.value ((Segment.mk q r).lengthSquared o₁) w = (.ok x, w) ∧
      F.interpretation.value ((Segment.mk (l.reflection o q) (l.reflection o' r)).lengthSquared o₂)
        w = (.ok y, w) ∧ F.same x y = true

namespace World

variable [Field K] {F : NumericField α σ} {φ : α → K} {w : World α σ} {l : Line α} {q r : Point α}
  (hl : ∀ x ∈ l.scalars, w.Evaluates F x) (hq : ∀ x ∈ q.vect, w.Evaluates F x)
  (hd : ¬l.Isotropic (F.interpretation.place φ w))

include hl hq hd

private theorem place_foot (hF : F.Exact φ) (o : Origin) :
    let ρ := F.interpretation.place φ w
    (∀ x ∈ (l.foot o q).vect, w.Evaluates F x) ∧
      ρ (l.foot o q) = foot (ρ l.a) (ρ l.b - ρ l.a) (ρ q) := by
  intro ρ
  have hI : F.interpretation.field.Exact φ := hF
  obtain ⟨hla, hlb⟩ := List.forall_mem_append.1 hl
  have hsettled : w.SettledAt (l.foot o q) :=
    w.settled_closed.foot o (fun x hx => (hq x hx).settled) fun x hx => (hl x hx).settled
  exact hsettled.evaluates
    (hI.atPlace_foot (atPlace_at φ hla) (atPlace_at φ hlb) (atPlace_at φ hq) hd o)

private theorem place_reflection (hF : F.Exact φ) (o : Origin) :
    let ρ := F.interpretation.place φ w
    (∀ x ∈ (l.reflection o q).vect, w.Evaluates F x) ∧
      ρ (l.reflection o q) = mirror (ρ l.a) (ρ l.b - ρ l.a) (ρ q) := by
  intro ρ
  have hI : F.interpretation.field.Exact φ := hF
  obtain ⟨hla, hlb⟩ := List.forall_mem_append.1 hl
  have hsettled : w.SettledAt (l.reflection o q) :=
    w.settled_closed.reflection o (fun x hx => (hq x hx).settled) fun x hx => (hl x hx).settled
  exact hsettled.evaluates
    (hI.atPlace_reflection (atPlace_at φ hla) (atPlace_at φ hlb) (atPlace_at φ hq) hd o)

private theorem holds_reflection (hF : F.ExactEquality φ) (h2 : (1 + 1 : K) ≠ 0) (o : Origin) : ∃ b,
    F.interpretation.holds (.samePoint (l.reflection o q) q) w = (.ok b, w) ∧
      F.interpretation.holds (.inLine q l) w = (.ok b, w) := by
  obtain ⟨hreflection, hplace⟩ := place_reflection hl hq hd hF.toExact o
  obtain ⟨-, b, -, -, hb, hon⟩ :=
    hF.holds_apply (r := .inLine q l) trivial (locates_inLine hq hl) .scratch
  have hfixed := mirror_eq_self_iff hd (F.interpretation.place φ w l.a)
    (F.interpretation.place φ w q) h2
  rw [← hplace] at hfixed
  refine ⟨b, ?_, hb⟩
  exact (hF.holds_iff (locates_samePoint hreflection hq) trivial).2
    (hon.trans hfixed.symm)

omit hq

private theorem projects (hF : F.ExactEquality φ) : w.Projects F l := by
  have hI : F.interpretation.field.Exact φ := hF.toExact
  have hplace {q : Point α} (hq : ∀ x ∈ q.vect, w.Evaluates F x) (o : Origin) :=
    place_foot hl hq hd hF.toExact o
  have himage {q : Point α} (hq : ∀ x ∈ q.vect, w.Evaluates F x) (o : Origin) :=
    place_reflection hl hq hd hF.toExact o
  have hsame {p q : Point α} (hp : ∀ x ∈ p.vect, w.Evaluates F x)
      (hq : ∀ x ∈ q.vect, w.Evaluates F x)
      (h : F.interpretation.place φ w p = F.interpretation.place φ w q) :
      F.interpretation.holds (.samePoint p q) w = (.ok true, w) :=
    (hF.holds_iff (locates_samePoint hp hq) trivial).2 (iff_of_true rfl h)
  constructor
  case evaluates =>
    intro q o hq
    exact ⟨(hplace hq o).1, (himage hq o).1⟩
  case inLine =>
    intro q o hq
    obtain ⟨hfoot, hat⟩ := hplace hq o
    refine (hF.holds_iff (locates_inLine hfoot hl) trivial).2 (iff_of_true rfl ?_)
    change cross (F.interpretation.place φ w (l.foot o q) - _) _ = 0
    rw [hat, cross_foot]
  case perpendicular =>
    intro q o hq
    obtain ⟨hfoot, hat⟩ := hplace hq o
    have hacross : ∀ x ∈ (Line.mk q (l.foot o q)).scalars, w.Evaluates F x :=
      List.forall_mem_append.2 ⟨hq, hfoot⟩
    have hlocates : w.Locates F (.perpendicular l ⟨q, l.foot o q⟩) := locates_parallel hl hacross
    refine (hF.holds_iff hlocates trivial).2 (iff_of_true rfl ?_)
    change dot _ (F.interpretation.place φ w (l.foot o q) - _) = 0
    rw [hat, dot_comm, dot_foot hd]
  case foot_foot =>
    intro q o o' hq
    obtain ⟨hfoot, hat⟩ := hplace hq o
    obtain ⟨hfoot', hat'⟩ := hplace hfoot o'
    refine hsame hfoot' hfoot ?_
    rw [hat', hat, Plane.foot_foot hd]
  case reflection_reflection =>
    intro q o o' hq
    obtain ⟨hreflection, hat⟩ := himage hq o
    obtain ⟨hreflection', hat'⟩ := himage hreflection o'
    refine hsame hreflection' hq ?_
    rw [hat', hat, mirror_mirror hd]
  case lengthSquared =>
    intro q r o o' o₁ o₂ hq hr
    obtain ⟨hqimage, hqat⟩ := himage hq o
    obtain ⟨hrimage, hrat⟩ := himage hr o'
    have hpoints := hI.displaces_towards (o₁.part 0) (atPlace_at φ hq) (atPlace_at φ hr)
    have himages := hI.displaces_towards (o₂.part 0) (atPlace_at φ hqimage) (atPlace_at φ hrimage)
    obtain ⟨x, hx, hxd⟩ := (hI.hasValue_dot o₁ hpoints hpoints).apply_some (w := w) rfl
    obtain ⟨y, hy, hyd⟩ := (hI.hasValue_dot o₂ himages himages).apply_some (w := w) rfl
    refine ⟨x, y, hx, hy, (hF.same x y).2 ?_⟩
    rw [hxd, hyd, hqat, hrat, dot_mirror_sub hd]

end World

namespace Scalar

variable {I : Interpretation α σ} {a b : Scalar α} {w u t : World α σ} {x y : α} {e : Error}

private theorem value_plus_apply (o : Origin) (ha : a.value I w = (.ok x, u))
    (hb : b.value I u = (.ok y, t)) : (a.plus o b).value I w = (.ok (I.field.add x y), t) := by
  rw [plus, value, value.values, value.values, value.values, Eval.bind_apply, Eval.bind_ok ha,
    Eval.bind_apply, Eval.bind_ok hb]
  rfl

private theorem value_plus_error (o : Origin) (ha : a.value I w = (.ok x, u))
    (hb : b.value I u = (.error e, t)) : (a.plus o b).value I w = (.error e, t) := by
  rw [plus, value, value.values, value.values, value.values, Eval.bind_apply, Eval.bind_ok ha,
    Eval.bind_apply, Eval.bind_error hb]

theorem value_times_error (o : Origin) (ha : a.value I w = (.error e, u)) :
    (a.times o b).value I w = (.error e, u) := by
  rw [times, value, value.values, Eval.bind_apply, Eval.bind_error ha]

theorem value_times_error_right (o : Origin) (ha : a.value I w = (.ok x, u))
    (hb : b.value I u = (.error e, t)) : (a.times o b).value I w = (.error e, t) := by
  rw [times, value, value.values, value.values, Eval.bind_apply, Eval.bind_ok ha, Eval.bind_apply,
    Eval.bind_error hb]

theorem value_diff_error (o : Origin) (ha : a.value I w = (.ok x, u))
    (hb : b.value I u = (.error e, t)) : (diff o a b).value I w = (.error e, t) := by
  rw [value, Eval.bind_ok ha, Eval.bind_error hb]

end Scalar

/-- A point along a direction raises what its parameter raises. -/
theorem Interpretation.along_error {I : Interpretation α σ} {p : Point α} {k : Scalar α}
    {d : Displacement α} {w : World α σ} {e : Error}
    (hp : ∀ x ∈ p.vect, ∃ v, I.value x w = (.ok v, w)) (hk : I.value k w = (.error e, w))
    (o : Origin) : ∀ x ∈ (p.along o k d).vect, I.value x w = (.error e, w) := by
  simp only [Point.vect, List.forall_mem_cons] at hp ⊢
  obtain ⟨⟨x, hx⟩, ⟨y, hy⟩, -⟩ := hp
  exact ⟨Scalar.value_plus_error _ hx (Scalar.value_times_error _ hk),
    Scalar.value_plus_error _ hy (Scalar.value_times_error _ hk), by simp⟩

namespace Residues

section

variable {p : UInt64} [hprime : Fact p.toNat.Prime] (hlt : p.toNat < 2 ^ 32)

include hlt

/-- A sum is reduced, so it is zero if it stands for zero. -/
theorem add_eq_zero {x y : UInt64} (h : residue p (add p x y) = 0) : add p x y = 0 := by
  have hdvd := (residue_eq_zero_iff p _).1 h
  rw [← UInt64.toNat_inj]
  refine Nat.eq_zero_of_dvd_of_lt hdvd ?_
  rw [add_toNat hprime.out.pos hlt]
  exact Nat.mod_lt _ hprime.out.pos

variable {F : NumericField UInt64 σ} (hF : Modular p F) {w : World UInt64 σ}

include hF

theorem value_dot_eq_zero {d e : Displacement UInt64} {k l : ZMod p.toNat × ZMod p.toNat}
    (hd : F.interpretation.Displaces w.SameSources (residue p) d k)
    (he : F.interpretation.Displaces w.SameSources (residue p) e l) (h : dot k l = 0)
    (o : Origin) : (d.dot o e).value F.interpretation w = (.ok 0, w) := by
  have hexact : F.Exact (residue p) := hF.exact hlt
  have hI : F.interpretation.field.Exact (residue p) := hexact
  obtain ⟨u, hu, huk⟩ := (hI.hasValue_times (o.part 0) hd.1 he.1).apply_some (w := w) rfl
  obtain ⟨v, hv, hvk⟩ := (hI.hasValue_times (o.part 1) hd.2 he.2).apply_some (w := w) rfl
  have hsum : residue p (F.add u v) = 0 := by rwa [hexact.add, huk, hvk]
  rw [show F.add = add p from hF.add] at hsum
  have hzero : F.interpretation.field.add u v = 0 :=
    (congrFun (congrFun hF.add u) v).trans (add_eq_zero hlt hsum)
  rw [← hzero]
  exact Scalar.value_plus_apply o hu hv

omit hprime hlt in
/-- The divisor is tested for zero before it is inverted. -/
theorem value_division_error {a b : Scalar UInt64} {u t : World UInt64 σ} {x : UInt64}
    (o : Origin) (ha : a.value F.interpretation w = (.ok x, u))
    (hb : b.value F.interpretation u = (.ok 0, t)) :
    F.interpretation.value (.division o a b) w = (.error .divisionByIdentity, t) := by
  refine (Scalar.value_division_apply o ha hb).trans ?_
  rw [Scalar.nonzero, show F.interpretation.field.zero = 0 from hF.zero]
  rfl

private theorem value_foot_error {l : Line UInt64} {q : Point UInt64}
    (hl : ∀ x ∈ l.scalars, w.Evaluates F x) (hq : ∀ x ∈ q.vect, w.Evaluates F x)
    (h : l.Isotropic (F.interpretation.place (residue p) w)) (o : Origin) :
    ∀ x ∈ (l.foot o q).vect, F.interpretation.value x w = (.error .divisionByIdentity, w) := by
  have hI : F.interpretation.field.Exact (residue p) :=
    hF.exact hlt
  obtain ⟨hla, hlb⟩ := List.forall_mem_append.1 hl
  have ha := World.atPlace_at (residue p) hla
  have hd := hI.displaces_towards (o.part 2) ha (World.atPlace_at (residue p) hlb)
  have hw := hI.displaces_towards (o.part 4) ha (World.atPlace_at (residue p) hq)
  obtain ⟨x, hx, -⟩ := (hI.hasValue_dot (o.part 5) hw hd).apply_some (w := w) rfl
  have hdivisor := value_dot_eq_zero hlt hF hd hd h (o.part 6)
  exact Interpretation.along_error (fun s hs => (hla s hs).apply)
    (value_division_error hF (o.part 3) hx hdivisor) o

end

/-- Over a prime field the foot of a perpendicular has coordinates exactly if the direction of the
line has a length. If it has none, both coordinates raise a division by zero. If it has, feet are on
the line, at right angles to it and their own feet, and images are at the distances of the points
and have the points as their images. Modulo an odd prime, the points of the line are the points that
are their own images. -/
theorem foot_projects {p : UInt64} [Fact p.toNat.Prime] (hlt : p.toNat < 2 ^ 32) {σ : Type}
    {F : NumericField UInt64 σ} (hF : Modular p F) {w : World UInt64 σ}
    {l : Line UInt64} (hl : ∀ x ∈ l.scalars, w.Evaluates F x) :
    let ρ := F.interpretation.place (residue p) w
    (∀ q : Point UInt64, (∀ x ∈ q.vect, w.Evaluates F x) → ∀ o,
      (w.HasCoordinates F (l.foot o q) ↔ ¬l.Isotropic ρ) ∧
      (l.Isotropic ρ → ∀ x ∈ (l.foot o q).vect,
        F.interpretation.value x w = (.error .divisionByIdentity, w)) ∧
      (¬l.Isotropic ρ → Odd p.toNat → ∃ b,
        F.interpretation.holds (.samePoint (l.reflection o q) q) w = (.ok b, w) ∧
          F.interpretation.holds (.inLine q l) w = (.ok b, w))) ∧
    (¬l.Isotropic ρ → w.Projects F l) := by
  intro ρ
  have hexact : F.ExactEquality (residue p) := hF.exactEquality hlt
  refine ⟨fun q hq o => ⟨⟨fun hvalues hiso => ?_, fun hd => ?_⟩, ?_, ?_⟩, ?_⟩
  · have herror := value_foot_error hlt hF hl hq hiso o _ (.head _)
    obtain ⟨v, hv⟩ := Option.isSome_iff_exists.1 (hvalues _ (.head _))
    rw [Interpretation.outcome_eq_some, show (l.foot o q).x.value _ w = _ from herror] at hv
    cases hv
  · exact fun x hx => ((World.place_foot hl hq hd hexact.toExact o).1 x hx).value
  · intro hiso
    exact value_foot_error hlt hF hl hq hiso o
  · intro hd hodd
    exact World.holds_reflection hl hq hd hexact (two_ne_zero_of_odd hodd) o
  · intro hd
    exact World.projects hl hd hexact

end Residues

namespace Specimen

open Residues

/-- A point of neither line. -/
def pointThreeOne : Point UInt64 := .ofValues ⟨5, []⟩ 3 1

/-- The point is the image of its image in one line, and has no foot on the other. -/
theorem foot_projects_pointThreeOne :
    moduloFive.interpretation.holds (.samePoint
        (lineOneOne.reflection ⟨7, []⟩ (lineOneOne.reflection ⟨6, []⟩ pointThreeOne))
        pointThreeOne) emptyWorld = (.ok true, emptyWorld) ∧
      ∀ x ∈ (lineOneTwo.foot ⟨8, []⟩ pointThreeOne).vect,
        moduloFive.interpretation.value x emptyWorld =
          (.error .divisionByIdentity, emptyWorld) := by
  have haside : ∀ x ∈ pointThreeOne.vect, emptyWorld.Evaluates moduloFive x := by decide +kernel
  obtain ⟨-, hprojects⟩ := foot_projects (p := 5) (by decide) modular_moduloFive (w := emptyWorld)
    (l := lineOneOne) (by decide +kernel)
  obtain ⟨hfoot, -⟩ := foot_projects (p := 5) (by decide) modular_moduloFive (w := emptyWorld)
    (l := lineOneTwo) (by decide +kernel)
  obtain ⟨-, herror, -⟩ := hfoot pointThreeOne haside ⟨8, []⟩
  exact ⟨(hprojects (by decide +kernel)).reflection_reflection ⟨6, []⟩ ⟨7, []⟩ haside,
    herror (by decide +kernel)⟩

end Specimen
end PlaneGeometry
