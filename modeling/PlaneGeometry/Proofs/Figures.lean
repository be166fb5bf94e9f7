import PlaneGeometry.Proofs.Denotation
import Mathlib.Algebra.Module.Prod
import Mathlib.Tactic.LinearCombination
import Mathlib.Tactic.Ring

/-!
# Figures over exact fields

The points of a figure have places in the plane over `K`, and what is built from the figure is
computed from these places. A relation holds exactly if its residual is zero there.
-/
namespace PlaneGeometry

variable {α σ K : Type} [Element α]

namespace Plane

variable [Field K]

def dot (d e : K × K) : K := d.1 * e.1 + d.2 * e.2
def cross (d e : K × K) : K := d.1 * e.2 - d.2 * e.1

/-- A quarter turn counterclockwise. -/
def turned (d : K × K) : K × K := (-d.2, d.1)

theorem cross_self (d : K × K) : cross d d = 0 := by simp [cross, mul_comm]

theorem dot_turned (d : K × K) : dot d (turned d) = 0 := by simp [dot, turned, mul_comm]

theorem dot_comm (d e : K × K) : dot d e = dot e d := by simp [dot, mul_comm]

private theorem cross_pushed (t u : K) (d : K × K) :
    cross (t • d + u • turned d) d = -(u * dot d d) := by
  simp only [cross, dot, turned, Prod.fst_add, Prod.snd_add, Prod.smul_fst, Prod.smul_snd,
    smul_eq_mul]
  ring

/-- A point of a line that is pushed along the normal stays on the line just if the direction has no
length. -/
theorem cross_pushed_eq_zero (x : K × K) (t : K) {u : K} (hu : u ≠ 0) (d : K × K) :
    cross (x + t • d + u • turned d - x) d = 0 ↔ dot d d = 0 := by
  rw [add_assoc, add_sub_cancel_left, cross_pushed, neg_eq_zero, mul_eq_zero, or_iff_right hu]

theorem cross_smul_self (t : K) (d : K × K) : cross (t • d) d = 0 := by
  simp only [cross, Prod.smul_fst, Prod.smul_snd, smul_eq_mul]
  ring

theorem smul_dot_self (e d : K × K) : dot d d • e = dot e d • d - cross e d • turned d := by
  ext <;> simp only [dot, cross, turned, Prod.fst_sub, Prod.snd_sub, Prod.smul_fst, Prod.smul_snd,
    smul_eq_mul] <;> ring

theorem dot_neg (d : K × K) : dot (-d) (-d) = dot d d := by simp [dot]

theorem dot_smul_left (s : K) (d e : K × K) : dot (s • d) e = s * dot d e := by
  simp only [dot, Prod.smul_fst, Prod.smul_snd, smul_eq_mul]
  ring

theorem dot_smul (s : K) (d : K × K) : dot (s • d) (s • d) = s ^ 2 * dot d d := by
  simp only [dot, Prod.smul_fst, Prod.smul_snd, smul_eq_mul]
  ring

theorem dot_reflected {e u : K × K} (hu : dot u u ≠ 0) :
    dot (e - ((1 + 1) * (dot e u * (dot u u)⁻¹)) • u)
      (e - ((1 + 1) * (dot e u * (dot u u)⁻¹)) • u) = dot e e := by
  have hexpand (k : K) :
      dot (e - k • u) (e - k • u) = dot e e - k * (2 * dot e u - k * dot u u) := by
    simp only [dot, Prod.fst_sub, Prod.snd_sub, Prod.smul_fst, Prod.smul_snd, smul_eq_mul]
    ring
  rw [hexpand]
  linear_combination 4 * dot e u ^ 2 * (dot u u)⁻¹ * inv_mul_cancel₀ hu

end Plane

open Plane

namespace Interpretation

variable (I : Interpretation α σ) (V : World α σ → Prop) (φ : α → K)

/-- From every world of the class the scalar evaluates to something that stands for `k`. -/
def HasValue (s : Scalar α) (k : K) : Prop := Stands V φ (s.value I) (some k)

def AtPlace (p : Point α) (k : K × K) : Prop := I.HasValue V φ p.x k.1 ∧ I.HasValue V φ p.y k.2

def Displaces (d : Displacement α) (k : K × K) : Prop :=
  I.HasValue V φ d.x k.1 ∧ I.HasValue V φ d.y k.2

/-- From every world of the class the test changes nothing and tells whether `P` holds. -/
def Decides (V : World α σ → Prop) (m : Eval α σ Bool) (P : Prop) : Prop :=
  ∀ w, V w → ∃ b, m w = (.ok b, w) ∧ (b = true ↔ P)

namespace Decides

variable {V : World α σ → Prop} {m : Eval α σ Bool} {P Q : Prop}

theorem of_true (h : Decides V m P) {w u : World α σ} (hw : V w) (hm : m w = (.ok true, u)) :
    P := by
  obtain ⟨b, hb, hP⟩ := h w hw
  exact hP.1 (Except.ok.inj (congrArg Prod.fst (hb.symm.trans hm)))

theorem congr (h : Decides V m P) (hPQ : P ↔ Q) : Decides V m Q := by
  intro w hw
  obtain ⟨b, hb, hP⟩ := h w hw
  exact ⟨b, hb, hP.trans hPQ⟩

theorem not (h : Decides V m P) : Decides V (do return !(← m)) ¬P := by
  intro w hw
  obtain ⟨b, hb, hP⟩ := h w hw
  refine ⟨!b, Eval.bind_ok hb _, ?_⟩
  rw [← hP, Bool.not_eq_true', Bool.not_eq_true]

end Decides

/-- The test changes nothing, and is passed where `P` holds. -/
def Accepts (V : World α σ → Prop) (m : Eval α σ Bool) (P : Prop) : Prop :=
  ∀ w, V w → ∃ b, m w = (.ok b, w) ∧ (P → b = true)

theorem Decides.accepts {V : World α σ → Prop} {m : Eval α σ Bool} {P : Prop}
    (h : Decides V m P) : Accepts V m P := by
  intro w hw
  obtain ⟨b, hb, hP⟩ := h w hw
  exact ⟨b, hb, hP.2⟩

theorem samePoint_apply {I : Interpretation α σ} {p q : Point α} {w : World α σ} {b c : Bool}
    (hb : I.equals p.x q.x w = (.ok b, w)) (hc : I.equals p.y q.y w = (.ok c, w)) :
    I.samePoint p q w = (.ok (b && c), w) := by
  refine (Eval.bind_ok hb _).trans ?_
  cases b with
  | false => rfl
  | true =>
    refine (Eval.bind_ok hc _).trans ?_
    cases c <;> rfl

end Interpretation

namespace NumericField.Exact

open Interpretation

variable [Field K] {I : Interpretation α σ} {V : World α σ → Prop} {φ : α → K}
  (hF : I.field.Exact φ)

section

variable {a b : Scalar α} {x y : K} (o : Origin)

include hF

theorem hasValue_one : I.HasValue V φ (.one o) 1 := by
  rw [HasValue, ← hF.one]
  exact .pure I.field.one

theorem hasValue_plus (ha : I.HasValue V φ a x) (hb : I.HasValue V φ b y) :
    I.HasValue V φ (a.plus o b) (x + y) := by
  have h := hF.stands_sum o (.cons ha (.cons hb .nil))
  simpa [HasValue, Scalar.plus] using h

theorem hasValue_times (ha : I.HasValue V φ a x) (hb : I.HasValue V φ b y) :
    I.HasValue V φ (a.times o b) (x * y) := by
  have h := hF.stands_product o (.cons ha (.cons hb .nil))
  simpa [HasValue, Scalar.times] using h

theorem hasValue_diff (ha : I.HasValue V φ a x) (hb : I.HasValue V φ b y) :
    I.HasValue V φ (.diff o a b) (x - y) := hF.stands_diff o ha hb

theorem hasValue_opposite (ha : I.HasValue V φ a x) : I.HasValue V φ (.opposite o a) (-x) :=
  hF.stands_opposite o ha

theorem hasValue_division [DecidableEq K] (ha : I.HasValue V φ a x) (hb : I.HasValue V φ b y)
    (hy : y ≠ 0) : I.HasValue V φ (.division o a b) (x * y⁻¹) := by
  have h := hF.stands_division o ha hb
  simpa [HasValue, reciprocal?, hy] using h

theorem hasValue_two : I.HasValue V φ (.two o) (1 + 1) :=
  hF.hasValue_plus o (hF.hasValue_one _) (hF.hasValue_one _)

end

section

variable {p q : Point α} {d e : Displacement α} {k l : K × K} (o : Origin)

include hF

theorem displaces_towards (hp : I.AtPlace V φ p k) (hq : I.AtPlace V φ q l) :
    I.Displaces V φ (p.towards o q) (l - k) :=
  ⟨hF.hasValue_diff _ hq.1 hp.1, hF.hasValue_diff _ hq.2 hp.2⟩

theorem displaces_turned (hd : I.Displaces V φ d k) : I.Displaces V φ (d.turned o) (turned k) :=
  ⟨hF.hasValue_opposite o hd.2, hd.1⟩

theorem atPlace_shifted (hp : I.AtPlace V φ p k) (hd : I.Displaces V φ d l) :
    I.AtPlace V φ (p.shifted o d) (k + l) :=
  ⟨hF.hasValue_plus _ hp.1 hd.1, hF.hasValue_plus _ hp.2 hd.2⟩

theorem atPlace_along {t : Scalar α} {x : K} (hp : I.AtPlace V φ p k) (ht : I.HasValue V φ t x)
    (hd : I.Displaces V φ d l) : I.AtPlace V φ (p.along o t d) (k + x • l) :=
  hF.atPlace_shifted o hp ⟨hF.hasValue_times _ ht hd.1, hF.hasValue_times _ ht hd.2⟩

theorem atPlace_perpendicularThrough {l : Line α} {x y : K × K} (ha : I.AtPlace V φ l.a x)
    (hb : I.AtPlace V φ l.b y) (hq : I.AtPlace V φ q k) :
    I.AtPlace V φ (l.perpendicularThrough o q).b (k + turned (y - x)) :=
  hF.atPlace_shifted o hq (hF.displaces_turned _ (hF.displaces_towards _ ha hb))

theorem atPlace_image (hp : I.AtPlace V φ p k) (hq : I.AtPlace V φ q l) :
    I.AtPlace V φ (p.image o q) (k + k - l) := by
  have htwice {s : Scalar α} {x : K} (hs : I.HasValue V φ s x) (o o' : Origin) :
      I.HasValue V φ (.times o (.two o') s) (x + x) := by
    have h := hF.hasValue_times o (hF.hasValue_two o') hs
    rwa [add_mul, one_mul] at h
  exact ⟨hF.hasValue_diff _ (htwice hp.1 _ _) hq.1, hF.hasValue_diff _ (htwice hp.2 _ _) hq.2⟩

theorem hasValue_dot (hd : I.Displaces V φ d k) (he : I.Displaces V φ e l) :
    I.HasValue V φ (d.dot o e) (dot k l) :=
  hF.hasValue_plus o (hF.hasValue_times (o.part 0) hd.1 he.1)
    (hF.hasValue_times (o.part 1) hd.2 he.2)

theorem hasValue_cross (hd : I.Displaces V φ d k) (he : I.Displaces V φ e l) :
    I.HasValue V φ (d.cross o e) (cross k l) :=
  hF.hasValue_diff o (hF.hasValue_times _ hd.1 he.2) (hF.hasValue_times _ hd.2 he.1)

theorem hasValue_squares (hd : I.Displaces V φ d k) (he : I.Displaces V φ e l) :
    I.HasValue V φ (Relation.magnitude.squares o d e) (dot k k * dot l l) :=
  hF.hasValue_times o (hF.hasValue_dot _ hd hd) (hF.hasValue_dot _ he he)

end

section

variable [DecidableEq K] {center q : Point α} {u : Displacement α} {x y e : K × K} (o : Origin)
  (hc : I.AtPlace V φ center x) (hq : I.AtPlace V φ q y) (hu : I.Displaces V φ u e)

include hF hc hq hu

theorem atPlace_mirrored (he : dot e e ≠ 0) : I.AtPlace V φ (.mirrored o center q u)
    (y - ((1 + 1) * (dot (y - x) e * (dot e e)⁻¹)) • e) := by
  have hw := hF.displaces_towards (o.part 3) hc hq
  have hk := hF.hasValue_times (o.part 4) (hF.hasValue_two (o.part 5))
    (hF.hasValue_division (o.part 6) (hF.hasValue_dot (o.part 7) hw hu)
      (hF.hasValue_dot (o.part 8) hu hu) he)
  exact ⟨hF.hasValue_diff _ hq.1 (hF.hasValue_times _ hk hu.1),
    hF.hasValue_diff _ hq.2 (hF.hasValue_times _ hk hu.2)⟩

/-- There is no image in a line along a direction without length. -/
theorem stands_mirrored_none (he : dot e e = 0) :
    Stands V φ ((Point.mirrored o center q u).x.value I) none := by
  have hw := hF.displaces_towards (o.part 3) hc hq
  have hdivision := hF.stands_division (o.part 6) (hF.hasValue_dot (o.part 7) hw hu)
    (hF.hasValue_dot (o.part 8) hu hu)
  rw [he] at hdivision
  have hk := hF.stands_product (o.part 4)
    (.cons (hF.hasValue_two (o.part 5)) (.cons hdivision .nil))
  have hx := hF.stands_product ((o.part 0).part 0) (.cons hk (.cons hu.1 .nil))
  have hdiff := hF.stands_diff (o.part 0) hq.1 hx
  simpa [reciprocal?, Point.mirrored, Scalar.times] using hdiff

end

section

include hF

/-- Structural equality may spare the evaluation, and then says that values are equal. -/
theorem accepts_equals {a b : Scalar α} {x y : K} (ha : I.HasValue V φ a x)
    (hb : I.HasValue V φ b y) : Accepts V (I.equals a b) (x = y) := by
  intro w hw
  obtain ⟨u, hu, rfl⟩ := ha.apply_some hw
  obtain ⟨v, hv, rfl⟩ := hb.apply_some hw
  rw [equals]
  split
  · exact ⟨true, rfl, fun _ => rfl⟩
  · exact ⟨I.field.same u v, (Eval.bind_ok hu _).trans (Eval.bind_ok hv _), (hF.same u v).2⟩

theorem accepts_samePoint {p q : Point α} {k l : K × K} (hp : I.AtPlace V φ p k)
    (hq : I.AtPlace V φ q l) : Accepts V (I.samePoint p q) (k = l) := by
  intro w hw
  obtain ⟨b, hb, hbx⟩ := hF.accepts_equals hp.1 hq.1 w hw
  obtain ⟨c, hc, hcy⟩ := hF.accepts_equals hp.2 hq.2 w hw
  refine ⟨b && c, samePoint_apply hb hc, ?_⟩
  rintro rfl
  rw [hbx rfl, hcy rfl, Bool.and_self]

end

section

variable {p a b : Point α} {k x y : K × K} (hp : I.AtPlace V φ p k) (ha : I.AtPlace V φ a x)
  (hb : I.AtPlace V φ b y)

include hF

theorem decides_vanishes {r : Relation α} {x y : K}
    (hr : I.HasValue V φ (r.residual .scratch) x) (hm : I.HasValue V φ (r.magnitude .scratch) y) :
    Decides V (I.vanishes r) (x = 0) := by
  intro w hw
  obtain ⟨residual, hres, rfl⟩ := hr.apply_some hw
  obtain ⟨magnitude, hmag, rfl⟩ := hm.apply_some hw
  refine ⟨I.field.negligible residual magnitude, ?_, hF.negligible _ _⟩
  rw [vanishes]
  exact (Eval.bind_ok hres _).trans (Eval.bind_ok hmag _)

include hp ha hb

theorem decides_inLine :
    Decides V (I.holds (.inLine p ⟨a, b⟩)) (cross (k - x) (y - x) = 0) := by
  have hpa := hF.displaces_towards (Origin.part .scratch 2) ha hp
  have hab := hF.displaces_towards (Origin.part .scratch 3) ha hb
  exact hF.decides_vanishes (hF.hasValue_cross .scratch hpa hab)
    (hF.hasValue_squares .scratch hpa hab)

theorem decides_inCircle (radius : Scalar α) :
    Decides V (I.holds (.inCircle p ⟨a, radius, b⟩))
      (dot (k - x) (k - x) - dot (y - x) (y - x) = 0) := by
  have hpa := hF.displaces_towards (Origin.part .scratch 2) ha hp
  have hr (o : Origin) := hF.hasValue_dot o (hF.displaces_towards (o.part 0) ha hb)
    (hF.displaces_towards (o.part 0) ha hb)
  have hresidual := hF.hasValue_diff .scratch (hF.hasValue_dot (Origin.part .scratch 0) hpa hpa)
    (hr (Origin.part .scratch 1))
  have hmagnitude := hF.hasValue_plus (Origin.part .scratch 0)
    (hF.hasValue_dot (Origin.part .scratch 3) hpa hpa) (hr (Origin.part .scratch 4))
  exact hF.decides_vanishes hresidual (hF.hasValue_times .scratch hmagnitude hmagnitude)

end
end NumericField.Exact

namespace Interpretation

/-- Where a point is in the world. The place of a point that has none is of no account. -/
def place [Zero K] (I : Interpretation α σ) (φ : α → K) (w : World α σ) (p : Point α) : K × K :=
  match (I.point p w).1 with
  | .ok v => (φ v.1, φ v.2)
  | .error _ => 0

variable {F : NumericField α σ} {w : World α σ}

theorem hasValue_of_settled (φ : α → K) {s : Scalar α} (h : w.Settled s) {v : α} {u : World α σ}
    (hv : F.interpretation.value s w = (.ok v, u)) :
    u = w ∧ F.interpretation.HasValue w.SameSources φ s (φ v) := by
  obtain ⟨r, hr⟩ := h.value_same F
  obtain ⟨rfl, rfl⟩ := Prod.mk.inj ((hr w rfl).symm.trans hv)
  refine ⟨rfl, fun u hu => ?_⟩
  rw [show s.value F.interpretation u = _ from hr u hu]
  exact ⟨rfl, rfl⟩

theorem atPlace_of_settled [Zero K] (φ : α → K) {p : Point α} (h : ∀ x ∈ p.vect, w.Settled x)
    {v : α × α} (hv : (F.interpretation.point p w).1 = .ok v) :
    F.interpretation.AtPlace w.SameSources φ p (F.interpretation.place φ w p) := by
  simp only [Point.vect, List.forall_mem_cons] at h
  rw [place, hv]
  obtain ⟨w', hw'⟩ : ∃ w', F.interpretation.point p w = (.ok v, w') := ⟨_, Prod.ext hv rfl⟩
  obtain ⟨x, u, hx, hrest⟩ := Eval.bind_eq_ok hw'
  obtain ⟨y, t, hy, hpair⟩ := Eval.bind_eq_ok hrest
  obtain ⟨rfl, hpx⟩ := hasValue_of_settled φ h.1 hx
  obtain ⟨rfl, hpy⟩ := hasValue_of_settled φ h.2.1 hy
  cases hpair
  exact ⟨hpx, hpy⟩

end Interpretation
end PlaneGeometry
