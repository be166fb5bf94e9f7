import PlaneGeometry.Proofs.Coordinates
import Mathlib.NumberTheory.LegendreSymbol.Basic

/-!
# Relations and their residuals over exact fields

Where the points of a relation have places, the residual and the test of the relation are functions
of these places. Over a prime field a test of two coincident points is not a test of the residual:
a displacement other than zero may have no length there.
-/
namespace PlaneGeometry

open Plane

variable {α σ τ K : Type} [Element α]

namespace Relation

/-- The points that the relation is about. The radius of a circle plays no part in it. -/
def points : Relation α → List (Point α)
  | vertical l | horizontal l => [l.a, l.b]
  | parallel l m | perpendicular l m => [l.a, l.b, m.a, m.b]
  | inLine p l => [p, l.a, l.b]
  | inCircle p c => [p, c.center, c.rim]
  | inSegment p s => [p, s.a, s.b]
  | collinear p q r => [p, q, r]
  | samePoint p q => [p, q]

/-- Relations that are tested without an ordering. -/
def Unordered : Relation α → Prop
  | inSegment _ _ => False
  | _ => True

variable [Field K] (ρ : Point α → K × K)

/-- The residual if the points are at `ρ`. -/
def residualAt : Relation α → K
  | vertical l => (ρ l.b - ρ l.a).1
  | horizontal l => (ρ l.b - ρ l.a).2
  | parallel l m => cross (ρ l.b - ρ l.a) (ρ m.b - ρ m.a)
  | perpendicular l m => dot (ρ l.b - ρ l.a) (ρ m.b - ρ m.a)
  | inLine p l => cross (ρ p - ρ l.a) (ρ l.b - ρ l.a)
  | inSegment p s => cross (ρ p - ρ s.a) (ρ s.b - ρ s.a)
  | inCircle p c => dot (ρ p - ρ c.center) (ρ p - ρ c.center) -
      dot (ρ c.rim - ρ c.center) (ρ c.rim - ρ c.center)
  | collinear p q r => cross (ρ q - ρ p) (ρ r - ρ p)
  | samePoint p q => dot (ρ q - ρ p) (ρ q - ρ p)

/-- What the test of the relation finds out if the points are at `ρ`. -/
def TrueAt : Relation α → Prop
  | samePoint p q => ρ p = ρ q
  | r => r.residualAt ρ = 0

variable {ρ} {r : Relation α}

/-- The residual vanishes where the relation is true. Only for two points that are to coincide this
is not all. -/
theorem trueAt_iff :
    r.TrueAt ρ ↔ r.residualAt ρ = 0 ∧ ∀ p q, r = .samePoint p q → ρ p = ρ q := by
  cases r with
  | samePoint p q =>
    constructor
    · intro h
      have hpq : ρ p = ρ q := h
      refine ⟨by simp [residualAt, hpq, dot], fun p' q' he => ?_⟩
      cases he
      exact hpq
    · exact fun h => h.2 p q rfl
  | _ => exact (and_iff_left fun _ _ he => by cases he).symm

end Relation

namespace NumericField.Exact

open Interpretation

variable [Field K] {I : Interpretation α σ} {V : World α σ → Prop} {φ : α → K}
  (hF : I.field.Exact φ) {r : Relation α} {ρ : Point α → K × K}
  (hr : ∀ p ∈ r.points, I.AtPlace V φ p (ρ p))

include hF hr

private theorem hasValue_residual (o : Origin) :
    I.HasValue V φ (r.residual o) (r.residualAt ρ) := by
  cases r <;> simp only [Relation.points, List.forall_mem_cons] at hr
  case vertical l => exact (hF.displaces_towards o hr.1 hr.2.1).1
  case horizontal l => exact (hF.displaces_towards o hr.1 hr.2.1).2
  case parallel l m =>
    exact hF.hasValue_cross o (hF.displaces_towards _ hr.1 hr.2.1)
      (hF.displaces_towards _ hr.2.2.1 hr.2.2.2.1)
  case perpendicular l m =>
    exact hF.hasValue_dot o (hF.displaces_towards _ hr.1 hr.2.1)
      (hF.displaces_towards _ hr.2.2.1 hr.2.2.2.1)
  case inLine p l =>
    exact hF.hasValue_cross o (hF.displaces_towards _ hr.2.1 hr.1)
      (hF.displaces_towards _ hr.2.1 hr.2.2.1)
  case inSegment p s =>
    exact hF.hasValue_cross o (hF.displaces_towards _ hr.2.1 hr.1)
      (hF.displaces_towards _ hr.2.1 hr.2.2.1)
  case inCircle p c =>
    have hpc := hF.displaces_towards (o.part 2) hr.2.1 hr.1
    have hrc := hF.displaces_towards ((o.part 1).part 0) hr.2.1 hr.2.2.1
    exact hF.hasValue_diff o (hF.hasValue_dot _ hpc hpc) (hF.hasValue_dot _ hrc hrc)
  case collinear p q s =>
    exact hF.hasValue_cross o (hF.displaces_towards _ hr.1 hr.2.1)
      (hF.displaces_towards _ hr.1 hr.2.2.1)
  case samePoint p q =>
    have hpq := hF.displaces_towards (o.part 2) hr.1 hr.2.1
    exact hF.hasValue_dot o hpq hpq

/-- The magnitude has a value as well, which plays no part over an exact field. -/
theorem hasValue_magnitude (o : Origin) : ∃ k, I.HasValue V φ (r.magnitude o) k := by
  cases r <;> simp only [Relation.points, List.forall_mem_cons] at hr
  case vertical l | horizontal l =>
    have hl := hF.displaces_towards (o.part 2) hr.1 hr.2.1
    exact ⟨_, hF.hasValue_dot o hl hl⟩
  case parallel l m | perpendicular l m =>
    exact ⟨_, hF.hasValue_squares o (hF.displaces_towards _ hr.1 hr.2.1)
      (hF.displaces_towards _ hr.2.2.1 hr.2.2.2.1)⟩
  case inLine p l | inSegment p l =>
    exact ⟨_, hF.hasValue_squares o (hF.displaces_towards _ hr.2.1 hr.1)
      (hF.displaces_towards _ hr.2.1 hr.2.2.1)⟩
  case inCircle p c =>
    have hpc := hF.displaces_towards (o.part 2) hr.2.1 hr.1
    have hrc := hF.displaces_towards ((o.part 4).part 0) hr.2.1 hr.2.2.1
    have hsum := hF.hasValue_plus (o.part 0) (hF.hasValue_dot (o.part 3) hpc hpc)
      (hF.hasValue_dot (o.part 4) hrc hrc)
    exact ⟨_, hF.hasValue_times o hsum hsum⟩
  case collinear p q s =>
    exact ⟨_, hF.hasValue_squares o (hF.displaces_towards _ hr.1 hr.2.1)
      (hF.displaces_towards _ hr.1 hr.2.2.1)⟩
  case samePoint p q =>
    have hp : I.Displaces V φ ⟨p.x, p.y⟩ (ρ p) := hr.1
    have hq : I.Displaces V φ ⟨q.x, q.y⟩ (ρ q) := hr.2.1
    have hsum := hF.hasValue_plus (o.part 0) (hF.hasValue_dot (o.part 3) hp hp)
      (hF.hasValue_dot (o.part 4) hq hq)
    exact ⟨_, hF.hasValue_times o hsum hsum⟩

private theorem decides_residual : Decides V (I.vanishes r) (r.residualAt ρ = 0) := by
  obtain ⟨k, hk⟩ := hF.hasValue_magnitude hr .scratch
  exact hF.decides_vanishes (hF.hasValue_residual hr .scratch) hk

end NumericField.Exact

namespace NumericField.Exact

open Interpretation

variable [Field K] {F : NumericField α σ} {φ : α → K} (hF : F.Exact φ) (hR : F.Reordering)
  (heqv : ∀ x y : α, Element.eqv x y = true → x = y) {w : World α σ}

include hR heqv

omit [Field K] in
theorem eq_of_eqv {a b : Scalar α} {x y : K} (ha : w.Settled a) (hb : w.Settled b)
    (hx : F.interpretation.HasValue w.SameSources φ a x)
    (hy : F.interpretation.HasValue w.SameSources φ b y) (h : a.eqv b = true) : x = y := by
  obtain ⟨u, hu, rfl⟩ := hx.apply_some (w := w) rfl
  obtain ⟨v, hv, rfl⟩ := hy.apply_some (w := w) rfl
  have ho := ha.outcome_eq hR heqv hb h
  rw [outcome, outcome, hu, hv] at ho
  exact congrArg φ (Option.some.inj ho)

include hF

theorem decides_equals {a b : Scalar α} {x y : K} (ha : w.Settled a) (hb : w.Settled b)
    (hx : F.interpretation.HasValue w.SameSources φ a x)
    (hy : F.interpretation.HasValue w.SameSources φ b y) :
    Decides w.SameSources (F.interpretation.equals a b) (x = y) := by
  intro u hu
  obtain ⟨v, hv, hvx⟩ := hx.apply_some hu
  obtain ⟨t, ht, hty⟩ := hy.apply_some hu
  rw [equals]
  split
  · next h => exact ⟨true, rfl, iff_of_true rfl (eq_of_eqv hR heqv ha hb hx hy h)⟩
  · refine ⟨F.same v t, (Eval.bind_ok hv _).trans (Eval.bind_ok ht _), ?_⟩
    rw [← hvx, ← hty]
    exact hF.same v t

theorem decides_samePoint {p q : Point α} {k l : K × K} (hsp : ∀ x ∈ p.vect, w.Settled x)
    (hsq : ∀ x ∈ q.vect, w.Settled x) (hp : F.interpretation.AtPlace w.SameSources φ p k)
    (hq : F.interpretation.AtPlace w.SameSources φ q l) :
    Decides w.SameSources (F.interpretation.samePoint p q) (k = l) := by
  simp only [Point.vect, List.forall_mem_cons] at hsp hsq
  intro u hu
  obtain ⟨b, hb, hbx⟩ := hF.decides_equals hR heqv hsp.1 hsq.1 hp.1 hq.1 u hu
  obtain ⟨c, hc, hcy⟩ := hF.decides_equals hR heqv hsp.2.1 hsq.2.1 hp.2 hq.2 u hu
  refine ⟨b && c, samePoint_apply hb hc, ?_⟩
  rw [Bool.and_eq_true, hbx, hcy, Prod.ext_iff]

end NumericField.Exact

/-- The points of the relation have settled coordinates in the world, with values there. -/
def World.Locates (F : NumericField α σ) (w : World α σ) (r : Relation α) : Prop :=
  ∀ p ∈ r.points, ∀ x ∈ p.vect, w.Evaluates F x

instance (F : NumericField α σ) (w : World α σ) (r : Relation α) : Decidable (w.Locates F r) :=
  inferInstanceAs (Decidable (∀ p ∈ r.points, ∀ x ∈ p.vect, w.Evaluates F x))

/-- An exact field without inner product, whose sums and products come out the same in any order,
on elements that compare as equal only if they are. Over such a field structural equality says no
more than equality of values. -/
structure NumericField.ExactEquality [Field K] (F : NumericField α σ) (φ : α → K) : Prop
    extends F.Exact φ, F.Reordering where
  product : F.product = none
  element {x y : α} : Element.eqv x y = true → x = y

namespace NumericField.ExactEquality

open Interpretation

variable [Field K] {F : NumericField α σ} {φ : α → K} (hF : F.ExactEquality φ) {w : World α σ}

include hF

private theorem decides_holds {r : Relation α} (hr : r.Unordered) {ρ : Point α → K × K}
    (hs : ∀ p ∈ r.points, ∀ x ∈ p.vect, w.Settled x)
    (hp : ∀ p ∈ r.points, F.interpretation.AtPlace w.SameSources φ p (ρ p)) :
    Decides w.SameSources (F.interpretation.holds r) (r.TrueAt ρ) := by
  cases r with
  | inSegment p s => exact hr.elim
  | samePoint p q =>
    simp only [Relation.points, List.forall_mem_cons] at hs hp
    exact hF.toExact.decides_samePoint hF.toReordering (fun _ _ => hF.element) hs.1 hs.2.1 hp.1
      hp.2.1
  | _ => exact hF.decides_residual hp

theorem holds_apply {r : Relation α} (hr : r.Unordered) (hp : w.Locates F r) (o : Origin) :
    let I := F.interpretation
    ∃ v b, I.value (r.residual o) w = (.ok v, w) ∧ φ v = r.residualAt (I.place φ w) ∧
      I.holds r w = (.ok b, w) ∧ (b = true ↔ r.TrueAt (I.place φ w)) := by
  intro I
  have hplaces (q : Point α) (hq : q ∈ r.points) :
      I.AtPlace w.SameSources φ q (I.place φ w q) := World.atPlace_at φ (hp q hq)
  obtain ⟨v, hv, hφv⟩ := (hF.hasValue_residual hplaces o).apply_some (w := w) rfl
  obtain ⟨b, hb, hbr⟩ :=
    hF.decides_holds hr (fun q hq x hx => (hp q hq x hx).settled) hplaces w rfl
  exact ⟨v, b, hv, hφv, hb, hbr⟩

theorem holds_iff {r : Relation α} (hp : w.Locates F r) (hr : r.Unordered) {b : Bool} :
    F.interpretation.holds r w = (.ok b, w) ↔
      (b = true ↔ r.TrueAt (F.interpretation.place φ w)) := by
  obtain ⟨-, c, -, -, hc, htrue⟩ := hF.holds_apply hr hp .scratch
  rw [hc, ← htrue, ← Bool.eq_iff_iff, Prod.mk.injEq, Except.ok.injEq, and_iff_left rfl, eq_comm]

theorem holds_true_iff {r : Relation α} (hp : w.Locates F r) (hr : r.Unordered) :
    F.interpretation.holds r w = (.ok true, w) ↔ r.TrueAt (F.interpretation.place φ w) :=
  (hF.holds_iff hp hr).trans ⟨fun h => h.1 rfl, iff_of_true rfl⟩

theorem holds_congr {r r' : Relation α} (hp : w.Locates F r) (hp' : w.Locates F r')
    (hr : r.Unordered) (hr' : r'.Unordered)
    (h : let ρ := F.interpretation.place φ w
      r.TrueAt ρ ↔ r'.TrueAt ρ) : F.interpretation.holds r w = F.interpretation.holds r' w := by
  obtain ⟨-, b, -, -, hb, htrue⟩ := hF.holds_apply hr' hp' .scratch
  rw [hb]
  exact (hF.holds_iff hp hr).2 (htrue.trans h.symm)

end NumericField.ExactEquality

namespace Residues

section

variable {p : UInt64} [hprime : Fact p.toNat.Prime]

theorem Modular.exactEquality {F : NumericField UInt64 σ} (h : Modular p F)
    (hlt : p.toNat < 2 ^ 32) : F.ExactEquality (residue p) where
  toExact := h.exact hlt
  toReordering := h.reordering hprime.out.pos hlt
  product := h.product
  element := beq_iff_eq.1

theorem residue_surjective (hlt : p.toNat < 2 ^ 32) : Function.Surjective (residue p) := by
  intro k
  have hk : k.val < 2 ^ 64 := (ZMod.val_lt k).trans (hlt.trans (by decide))
  refine ⟨.ofNat k.val, ?_⟩
  rw [residue, UInt64.toNat_ofNat_of_lt' hk, ZMod.natCast_zmod_val]

/-- Displacements other than zero have no length exactly where minus one is a square. -/
theorem exists_isotropic_iff :
    (∃ d : ZMod p.toNat × ZMod p.toNat, d ≠ 0 ∧ dot d d = 0) ↔ p.toNat % 4 ≠ 3 := by
  constructor
  · rintro ⟨⟨x, y⟩, hd, hdot⟩
    have hsquares : x ^ 2 = -y ^ 2 := by
      rw [← add_eq_zero_iff_eq_neg, ← hdot, dot, sq, sq]
    refine ZMod.mod_four_ne_three_of_sq_eq_neg_sq' (fun hy => hd ?_) hsquares
    subst hy
    simpa using hsquares
  · intro h
    obtain ⟨i, hi⟩ := ZMod.exists_sq_eq_neg_one_iff.2 h
    refine ⟨(1, i), by simp, ?_⟩
    rw [dot, ← hi]
    simp

end

/-- The residual tells what the test of the relation finds out: whether it is a multiple of the
modulus. -/
def ResidualDecides (p : UInt64) (F : NumericField UInt64 σ) (w : World UInt64 σ)
    (r : Relation UInt64) : Prop :=
  ∀ o, ∃ v b, F.interpretation.value (r.residual o) w = (.ok v, w) ∧
    F.interpretation.holds r w = (.ok b, w) ∧ (b = true ↔ p.toNat ∣ v.toNat)

section

variable {p : UInt64} [hprime : Fact p.toNat.Prime] (hlt : p.toNat < 2 ^ 32)
  {F : NumericField UInt64 σ} (hF : Modular p F) {w : World UInt64 σ} {r : Relation UInt64}
  (hr : r.Unordered) (hp : w.Locates F r)

include hlt hF hr hp

/-- The residual decides unless it vanishes where the relation is not true. -/
theorem residualDecides_iff :
    let ρ := F.interpretation.place (residue p) w
    ResidualDecides p F w r ↔ (r.residualAt ρ = 0 → r.TrueAt ρ) := by
  intro ρ
  have happly := (hF.exactEquality hlt).holds_apply hr hp
  constructor
  · intro h hzero
    obtain ⟨v, b, hv, hφv, hb, htrue⟩ := happly .scratch
    obtain ⟨v', b', hv', hb', hdecides⟩ := h .scratch
    obtain rfl := Except.ok.inj (congrArg Prod.fst (hv'.symm.trans hv))
    obtain rfl := Except.ok.inj (congrArg Prod.fst (hb'.symm.trans hb))
    rw [← htrue, hdecides, ← residue_eq_zero_iff, hφv]
    exact hzero
  · intro h o
    obtain ⟨v, b, hv, hφv, hb, htrue⟩ := happly o
    refine ⟨v, b, hv, hb, ?_⟩
    rw [htrue, ← residue_eq_zero_iff, hφv]
    exact ⟨fun ht => (Relation.trueAt_iff.1 ht).1, h⟩

end

/-- Two points apart by a displacement without length. -/
theorem exists_not_residualDecides {p : UInt64} [Fact p.toNat.Prime] (hlt : p.toNat < 2 ^ 32)
    {F : NumericField UInt64 σ} (hF : Modular p F) (w : World UInt64 σ) (h : p.toNat % 4 ≠ 3) :
    ∃ r : Relation UInt64, r.Unordered ∧ w.Locates F r ∧ ¬ResidualDecides p F w r := by
  obtain ⟨⟨k, l⟩, hne, hdot⟩ := exists_isotropic_iff.2 h
  obtain ⟨x, rfl⟩ := residue_surjective hlt k
  obtain ⟨y, rfl⟩ := residue_surjective hlt l
  let zero : Point UInt64 := .ofValues .scratch 0 0
  let apart : Point UInt64 := .ofValues .scratch x y
  have hlocates : w.Locates F (.samePoint zero apart) := by
    simp only [World.Locates, Relation.points, List.forall_mem_cons, Point.vect]
    exact ⟨⟨w.evaluates_leaf _ _ _, w.evaluates_leaf _ _ _, by simp⟩,
      ⟨w.evaluates_leaf _ _ _, w.evaluates_leaf _ _ _, by simp⟩, by simp⟩
  refine ⟨.samePoint zero apart, trivial, hlocates, fun hdecides => hne ?_⟩
  have hzero : F.interpretation.place (residue p) w zero = 0 := by
    change (residue p 0, residue p 0) = 0
    simp [residue]
  have hapart : F.interpretation.place (residue p) w apart =
      (residue p x, residue p y) := rfl
  have htrue :=
    (residualDecides_iff hlt hF (r := .samePoint zero apart) trivial hlocates).1 hdecides
  simp only [Relation.residualAt, Relation.TrueAt, hzero, hapart, sub_zero] at htrue
  exact (htrue hdot).symm

/-- The test of a relation that needs no ordering finds a multiple of the modulus in the residual,
and if two points are to coincide, the points in one place. So the residual decides the relation,
except that two points may be apart by a displacement without length, and modulo a prime that leaves
three when divided by four it always decides. -/
theorem holds_iff_residual {p : UInt64} [Fact p.toNat.Prime] (hlt : p.toNat < 2 ^ 32)
    {F : NumericField UInt64 σ} (hF : Modular p F) (w : World UInt64 σ) :
    let I := F.interpretation
    let ρ := I.place (residue p) w
    (∀ r : Relation UInt64, r.Unordered → w.Locates F r → ∀ o : Origin,
      ∃ v b, I.value (r.residual o) w = (.ok v, w) ∧ I.holds r w = (.ok b, w) ∧
        (b = true ↔ p.toNat ∣ v.toNat ∧ ∀ q q', r = .samePoint q q' → ρ q = ρ q')) ∧
      ((∀ r : Relation UInt64, r.Unordered → w.Locates F r → ResidualDecides p F w r) ↔
        p.toNat % 4 = 3) := by
  intro I ρ
  refine ⟨fun r hr hp o => ?_, fun h => by_contra fun hmod => ?_, fun hmod r hr hp => ?_⟩
  · obtain ⟨v, b, hv, hφv, hb, htrue⟩ := (hF.exactEquality hlt).holds_apply hr hp o
    refine ⟨v, b, hv, hb, ?_⟩
    rw [htrue, Relation.trueAt_iff, ← residue_eq_zero_iff, hφv]
  · obtain ⟨r, hr, hp, hnot⟩ := exists_not_residualDecides hlt hF w hmod
    exact hnot (h r hr hp)
  · refine (residualDecides_iff hlt hF hr hp).2 fun hzero => Relation.trueAt_iff.2 ⟨hzero, ?_⟩
    rintro q q' rfl
    by_contra hne
    refine exists_isotropic_iff.1 ⟨ρ q' - ρ q, ?_, hzero⟩ hmod
    rw [Ne, sub_eq_zero]
    exact fun h => hne h.symm

end Residues

namespace Specimen

open Residues

instance prime_five : Fact (5 : UInt64).toNat.Prime := ⟨by change Nat.Prime 5; decide⟩

abbrev moduloFive : NumericField UInt64 Unit := ofPrime zeros 5

theorem modular_moduloFive : Modular 5 moduloFive := modular_ofPrime zeros 5

/-- From the origin to this point it is `1` and `4`, which is zero modulo five. -/
def coincidenceOneTwo : Relation UInt64 :=
  .samePoint (.ofValues ⟨1, []⟩ 0 0) (.ofValues ⟨2, []⟩ 1 2)

/-- The test tells the points apart. Modulo seven the residual would, too. -/
theorem holds_iff_residual_coincidenceOneTwo :
    moduloFive.interpretation.holds coincidenceOneTwo emptyWorld = (.ok false, emptyWorld) ∧
      ResidualDecides 7 moduloSeven emptyWorld coincidenceOneTwo := by
  obtain ⟨hfive, -⟩ := holds_iff_residual (p := 5) (by decide) modular_moduloFive emptyWorld
  obtain ⟨-, hseven⟩ := holds_iff_residual (p := 7) (by decide) modular_moduloSeven emptyWorld
  obtain ⟨v, b, -, hb, hiff⟩ := hfive coincidenceOneTwo trivial (by decide +kernel) .scratch
  have hplaces : moduloFive.interpretation.place (residue 5) emptyWorld (.ofValues ⟨1, []⟩ 0 0) ≠
      moduloFive.interpretation.place (residue 5) emptyWorld (.ofValues ⟨2, []⟩ 1 2) := by
    decide +kernel
  obtain rfl : b = false := Bool.eq_false_iff.2 fun h => hplaces ((hiff.1 h).2 _ _ rfl)
  exact ⟨hb, hseven.2 (by decide) coincidenceOneTwo trivial (by decide +kernel)⟩

/-- Modulo five the residual vanishes although the points do not coincide. -/
theorem not_residualDecides_coincidenceOneTwo : coincidenceOneTwo.Unordered ∧
    emptyWorld.Locates moduloFive coincidenceOneTwo ∧
    ¬ResidualDecides 5 moduloFive emptyWorld coincidenceOneTwo := by
  refine ⟨trivial, by decide +kernel, fun h => ?_⟩
  obtain ⟨v, b, hv, hb, hiff⟩ := h ⟨3, []⟩
  have hvalue : (moduloFive.interpretation.value (coincidenceOneTwo.residual ⟨3, []⟩)
      emptyWorld).1.toOption = some 0 := by decide +kernel
  have htest : (moduloFive.interpretation.holds coincidenceOneTwo emptyWorld).1.toOption =
      some false := by decide +kernel
  rw [hv] at hvalue
  rw [hb] at htest
  obtain rfl : v = 0 := Option.some.inj hvalue
  obtain rfl : b = false := Option.some.inj htest
  exact Bool.false_ne_true (hiff.2 (Nat.dvd_zero _))

end Specimen
end PlaneGeometry
