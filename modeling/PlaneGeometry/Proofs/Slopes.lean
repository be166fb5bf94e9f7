import PlaneGeometry.Analytics
import PlaneGeometry.Proofs.CommonPoints

/-!
# Lines as functions over exact fields

A line whose points differ in the abscissa is the graph of a function, and what is computed at an
abscissa is the one ordinate that belongs to it. The computation divides by the difference of the
abscissas, which the test before it has found to be other than zero.
-/
namespace PlaneGeometry

open Plane

variable {α β σ K : Type} [Element α]

namespace Plane

variable [Field K]

/-- The ordinate at `k` on the line through `x` along `d`. -/
def height (x d : K × K) (k : K) : K := x.2 + d.2 * d.1⁻¹ * (k - x.1)

private theorem cross_eq_zero_iff_height {d : K × K} (hd : d.1 ≠ 0) (x k : K × K) :
    cross (k - x) d = 0 ↔ k.2 = height x d k.1 := by
  have hcross : cross (k - x) d = d.1 * (height x d k.1 - k.2) := by
    simp only [cross, height, Prod.fst_sub, Prod.snd_sub]
    linear_combination -(d.2 * (k.1 - x.1)) * mul_inv_cancel₀ hd
  rw [hcross, mul_eq_zero, or_iff_right hd, sub_eq_zero, eq_comm]

private theorem cross_swap (d e : K × K) : cross d.swap e.swap = -cross d e := by
  simp only [cross, Prod.fst_swap, Prod.snd_swap]
  ring

private theorem cross_eq_zero_iff_height_swap {d : K × K} (hd : d.2 ≠ 0) (x k : K × K) :
    cross (k - x) d = 0 ↔ k.1 = height x.swap d.swap k.2 := by
  rw [← neg_eq_zero, ← cross_swap]
  exact cross_eq_zero_iff_height (d := d.swap) hd x.swap k.swap

private theorem height_eq_height_zero_add (x d : K × K) (k : K) :
    height x d k = height x d 0 + d.2 * d.1⁻¹ * k := by
  simp only [height]
  ring

end Plane

def Point.height (p : Point α) (d : Displacement α) (x : Scalar α) : Scalar α :=
  .plus .scratch p.y (.times .scratch (.division .scratch d.y d.x) (.diff .scratch x p.x))

private theorem NumericField.Exact.hasValue_height [Field K] {I : Interpretation α σ} {φ : α → K}
    {V : World α σ → Prop} (hF : I.field.Exact φ) {p : Point α} {d : Displacement α} {s : Scalar α}
    {x e : K × K} {k : K} (hp : I.AtPlace V φ p x) (hd : I.Displaces V φ d e)
    (hs : I.HasValue V φ s k) (he : e.1 ≠ 0) : I.HasValue V φ (p.height d s) (height x e k) := by
  classical
  exact hF.hasValue_plus _ hp.2
    (hF.hasValue_times _ (hF.hasValue_division _ hd.2 hd.1 he) (hF.hasValue_diff _ hs hp.1))

namespace Interpretation

variable {I : Interpretation α σ} {l : Line α} {w u : World α σ} {b : Bool}

/-- Where the test is passed the error is raised, and otherwise the rest is run. -/
theorem unless_apply {r : Relation α} (h : I.holds r w = (.ok b, u)) (e : Error)
    (m : Eval α σ β) :
    (do if ← I.holds r then throw e
        m : Eval α σ β) w = if b then (.error e, u) else m u := by
  refine (Eval.bind_ok h _).trans ?_
  cases b <;> rfl

private theorem slope_apply (h : I.holds (.vertical l) w = (.ok b, u)) :
    I.slope l w = if b then (.error .noSlope, u) else
      I.value (.division .scratch (l.direction .scratch).y (l.direction .scratch).x) u :=
  unless_apply h _ _

private theorem yAt_apply (h : I.holds (.vertical l) w = (.ok b, u)) (x : Scalar α) :
    I.yAt l x w = if b then (.error .notFunctionOfX, u) else
      I.value (l.a.height (l.direction .scratch) x) u :=
  unless_apply h _ _

private theorem xAt_apply (h : I.holds (.horizontal l) w = (.ok b, u)) (y : Scalar α) :
    I.xAt l y w = if b then (.error .notFunctionOfY, u) else
      I.value (Point.height ⟨l.a.y, l.a.x⟩
        ⟨(l.direction .scratch).y, (l.direction .scratch).x⟩ y) u :=
  unless_apply h _ _

end Interpretation

/-- At each scalar with a value, `f` finds the one value that makes a point of the line with it. -/
structure World.Graph [Zero K] (F : NumericField α σ) (φ : α → K) (w : World α σ) (l : Line α)
    (point : Scalar α → Scalar α → Point α) (f : Scalar α → Eval α σ α) : Prop where
  succeeds {x : Scalar α} : w.Evaluates F x → ∃ y, f x w = (.ok y, w)
  inLine {x : Scalar α} {y : α} (o : Origin) : w.Evaluates F x → f x w = (.ok y, w) →
    F.interpretation.holds (.inLine (point x (.leaf o y)) l) w = (.ok true, w)
  unique {x s : Scalar α} {y : α} : w.Evaluates F x → w.Evaluates F s → f x w = (.ok y, w) →
    F.interpretation.holds (.inLine (point x s) l) w = (.ok true, w) →
      F.interpretation.valueAt φ w s = φ y

namespace World

/-- The line and what is computed from it agree, whether it is a function of the abscissa, of the
ordinate or of both. -/
structure Charted [Field K] (F : NumericField α σ) (φ : α → K) (w : World α σ) (l : Line α) :
    Prop where
  tested : ∃ b c, F.interpretation.holds (.vertical l) w = (.ok b, w) ∧
    F.interpretation.holds (.horizontal l) w = (.ok c, w)
  vertical : F.interpretation.holds (.vertical l) w = (.ok true, w) →
    F.interpretation.slope l w = (.error .noSlope, w) ∧
      F.interpretation.intercept l w = (.error .notFunctionOfX, w) ∧
        ∀ x, F.interpretation.yAt l x w = (.error .notFunctionOfX, w)
  slope : F.interpretation.holds (.vertical l) w = (.ok false, w) →
    let ρ := F.interpretation.place φ w
    ∃ m, F.interpretation.slope l w = (.ok m, w) ∧ φ m * (ρ l.b - ρ l.a).1 = (ρ l.b - ρ l.a).2
  intercept : F.interpretation.holds (.vertical l) w = (.ok false, w) →
    ∃ c, F.interpretation.intercept l w = (.ok c, w) ∧
      ∀ {m x y}, F.interpretation.slope l w = (.ok m, w) → w.Evaluates F x →
        F.interpretation.yAt l x w = (.ok y, w) →
          φ y = φ c + φ m * F.interpretation.valueAt φ w x
  yAt : F.interpretation.holds (.vertical l) w = (.ok false, w) →
    w.Graph F φ l (fun x y => ⟨x, y⟩) (F.interpretation.yAt l)
  horizontal : F.interpretation.holds (.horizontal l) w = (.ok true, w) →
    ∀ y, F.interpretation.xAt l y w = (.error .notFunctionOfY, w)
  xAt : F.interpretation.holds (.horizontal l) w = (.ok false, w) →
    w.Graph F φ l (fun y x => ⟨x, y⟩) (F.interpretation.xAt l)
  xAt_yAt {x : Scalar α} {y : α} (o : Origin) :
    F.interpretation.holds (.vertical l) w = (.ok false, w) →
      F.interpretation.holds (.horizontal l) w = (.ok false, w) → w.Evaluates F x →
        F.interpretation.yAt l x w = (.ok y, w) →
          ∃ x', F.interpretation.xAt l (.leaf o y) w = (.ok x', w) ∧
            φ x' = F.interpretation.valueAt φ w x

variable {F : NumericField α σ} {w : World α σ} {l : Line α} {x y : Scalar α}

private theorem evaluates_mk (hx : w.Evaluates F x) (hy : w.Evaluates F y) :
    ∀ s ∈ (Point.mk x y).vect, w.Evaluates F s := by
  simp only [Point.vect, List.forall_mem_cons]
  exact ⟨hx, hy, by simp⟩

private theorem place_mk [Zero K] (φ : α → K) (hx : w.Evaluates F x) (hy : w.Evaluates F y) :
    F.interpretation.place φ w ⟨x, y⟩ =
      (F.interpretation.valueAt φ w x, F.interpretation.valueAt φ w y) :=
  (atPlace_at φ (evaluates_mk hx hy)).unique ⟨hx.hasValue φ, hy.hasValue φ⟩

/-- Coming back along the line, one is where one started. -/
theorem Graph.inverse [Zero K] {φ : α → K} {f g : Scalar α → Eval α σ α}
    (hf : w.Graph F φ l (fun x y => ⟨x, y⟩) f) (hg : w.Graph F φ l (fun y x => ⟨x, y⟩) g) {y : α}
    (o : Origin) (hx : w.Evaluates F x) (hy : f x w = (.ok y, w)) :
    ∃ x', g (.leaf o y) w = (.ok x', w) ∧ φ x' = F.interpretation.valueAt φ w x := by
  have hleaf := w.evaluates_leaf F o y
  obtain ⟨x', hx'⟩ := hg.succeeds hleaf
  exact ⟨x', hx', (hg.unique hleaf hx hx' (hf.inLine o hx hy)).symm⟩

/-- What is computed by `f` is `g`, and the line is the graph of `g`. -/
theorem Graph.of_value [Zero K] {φ : α → K} {point : Scalar α → Scalar α → Point α}
    {f : Scalar α → Eval α σ α} {g : K → K}
    (hvalue : ∀ x, w.Evaluates F x →
      ∃ y, f x w = (.ok y, w) ∧ φ y = g (F.interpretation.valueAt φ w x))
    (hline : ∀ x s, w.Evaluates F x → w.Evaluates F s →
      (F.interpretation.holds (.inLine (point x s) l) w = (.ok true, w) ↔
        F.interpretation.valueAt φ w s = g (F.interpretation.valueAt φ w x))) :
    w.Graph F φ l point f := by
  have hat {x : Scalar α} {y : α} (hx : w.Evaluates F x) (hy : f x w = (.ok y, w)) :
      φ y = g (F.interpretation.valueAt φ w x) := by
    obtain ⟨y', hy', hg⟩ := hvalue x hx
    obtain rfl := Eval.ok_unique hy' hy
    exact hg
  constructor
  case succeeds =>
    intro x hx
    obtain ⟨y, hy, -⟩ := hvalue x hx
    exact ⟨y, hy⟩
  case inLine =>
    intro x y o hx hy
    exact (hline x _ hx (w.evaluates_leaf F o y)).2 (hat hx hy)
  case unique =>
    intro x s y hx hs hy hon
    exact ((hline x s hx hs).1 hon).trans (hat hx hy).symm

private theorem locates_vertical (hl : ∀ s ∈ l.scalars, w.Evaluates F s) :
    w.Locates F (.vertical l) := by
  obtain ⟨hla, hlb⟩ := List.forall_mem_append.1 hl
  simp only [Locates, Relation.points, List.forall_mem_cons]
  exact ⟨hla, hlb, by simp⟩

private theorem locates_horizontal (hl : ∀ s ∈ l.scalars, w.Evaluates F s) :
    w.Locates F (.horizontal l) := locates_vertical hl

variable [Field K] {φ : α → K} (hF : F.ExactEquality φ) (hl : ∀ s ∈ l.scalars, w.Evaluates F s)

include hF hl

private theorem fst_ne_zero (h : F.interpretation.holds (.vertical l) w = (.ok false, w)) :
    (F.interpretation.place φ w l.b - F.interpretation.place φ w l.a).1 ≠ 0 := by
  intro hzero
  cases ((hF.holds_iff (locates_vertical hl) trivial).1 h).2 hzero

private theorem snd_ne_zero (h : F.interpretation.holds (.horizontal l) w = (.ok false, w)) :
    (F.interpretation.place φ w l.b - F.interpretation.place φ w l.a).2 ≠ 0 := by
  intro hzero
  cases ((hF.holds_iff (locates_horizontal hl) trivial).1 h).2 hzero

private theorem holds_inLine_mk_iff (hx : w.Evaluates F x) (hy : w.Evaluates F y) :
    let ρ := F.interpretation.place φ w
    F.interpretation.holds (.inLine ⟨x, y⟩ l) w = (.ok true, w) ↔
      cross ((F.interpretation.valueAt φ w x, F.interpretation.valueAt φ w y) - ρ l.a)
        (ρ l.b - ρ l.a) = 0 := by
  intro ρ
  rw [← place_mk φ hx hy]
  exact hF.holds_true_iff (locates_inLine (evaluates_mk hx hy) hl) trivial

private theorem atPlace_direction (o : Origin) :
    let ρ := F.interpretation.place φ w
    F.interpretation.AtPlace w.SameSources φ l.a (ρ l.a) ∧
      F.interpretation.Displaces w.SameSources φ (l.direction o) (ρ l.b - ρ l.a) := by
  have hI : F.interpretation.field.Exact φ := hF.toExact
  obtain ⟨hla, hlb⟩ := List.forall_mem_append.1 hl
  have ha := atPlace_at φ hla
  exact ⟨ha, hI.displaces_towards o ha (atPlace_at φ hlb)⟩

section

variable (h : F.interpretation.holds (.vertical l) w = (.ok false, w))

include h

private theorem slope_value :
    let ρ := F.interpretation.place φ w
    ∃ m, F.interpretation.slope l w = (.ok m, w) ∧
      φ m = (ρ l.b - ρ l.a).2 * (ρ l.b - ρ l.a).1⁻¹ := by
  classical
  have hI : F.interpretation.field.Exact φ := hF.toExact
  obtain ⟨-, hd⟩ := atPlace_direction hF hl .scratch
  rw [Interpretation.slope_apply h]
  exact (hI.hasValue_division .scratch hd.2 hd.1 (fst_ne_zero hF hl h)).apply_some rfl

private theorem yAt_value (hx : w.Evaluates F x) :
    let ρ := F.interpretation.place φ w
    ∃ y, F.interpretation.yAt l x w = (.ok y, w) ∧
      φ y = height (ρ l.a) (ρ l.b - ρ l.a) (F.interpretation.valueAt φ w x) := by
  have hI : F.interpretation.field.Exact φ := hF.toExact
  obtain ⟨ha, hd⟩ := atPlace_direction hF hl .scratch
  rw [Interpretation.yAt_apply h]
  exact (hI.hasValue_height ha hd (hx.hasValue φ) (fst_ne_zero hF hl h)).apply_some rfl

private theorem graph_yAt : w.Graph F φ l (fun x y => ⟨x, y⟩) (F.interpretation.yAt l) := by
  refine .of_value (fun x hx => yAt_value hF hl h hx) fun x s hx hs => ?_
  exact (holds_inLine_mk_iff hF hl hx hs).trans
    (cross_eq_zero_iff_height (fst_ne_zero hF hl h) _ _)

end

section

variable (h : F.interpretation.holds (.horizontal l) w = (.ok false, w))

include h

private theorem xAt_value (hy : w.Evaluates F y) :
    let ρ := F.interpretation.place φ w
    ∃ x, F.interpretation.xAt l y w = (.ok x, w) ∧
      φ x = height (ρ l.a).swap (ρ l.b - ρ l.a).swap (F.interpretation.valueAt φ w y) := by
  intro ρ
  have hI : F.interpretation.field.Exact φ := hF.toExact
  obtain ⟨ha, hd⟩ := atPlace_direction hF hl .scratch
  have ha' : F.interpretation.AtPlace w.SameSources φ ⟨l.a.y, l.a.x⟩ (ρ l.a).swap := ha.symm
  have hd' : F.interpretation.Displaces w.SameSources φ
      ⟨(l.direction .scratch).y, (l.direction .scratch).x⟩ (ρ l.b - ρ l.a).swap := hd.symm
  rw [Interpretation.xAt_apply h]
  exact (hI.hasValue_height ha' hd' (hy.hasValue φ) (snd_ne_zero hF hl h)).apply_some rfl

private theorem graph_xAt : w.Graph F φ l (fun y x => ⟨x, y⟩) (F.interpretation.xAt l) := by
  refine .of_value (fun y hy => xAt_value hF hl h hy) fun y s hy hs => ?_
  exact (holds_inLine_mk_iff hF hl hs hy).trans
    (cross_eq_zero_iff_height_swap (snd_ne_zero hF hl h) _ _)

end

private theorem charted : w.Charted F φ l := by
  have hzero : w.Evaluates F (.zero .scratch) := ⟨⟨rfl, by simp [Scalar.sources]⟩, rfl⟩
  constructor
  case tested =>
    obtain ⟨-, b, -, -, hb, -⟩ :=
      hF.holds_apply (r := .vertical l) trivial (locates_vertical hl) .scratch
    obtain ⟨-, c, -, -, hc, -⟩ :=
      hF.holds_apply (r := .horizontal l) trivial (locates_horizontal hl) .scratch
    exact ⟨b, c, hb, hc⟩
  case vertical =>
    intro h
    have hy (x : Scalar α) := Interpretation.yAt_apply h x
    exact ⟨Interpretation.slope_apply h, hy (.zero .scratch), hy⟩
  case slope =>
    intro h ρ
    obtain ⟨m, hm, hφm⟩ := slope_value hF hl h
    refine ⟨m, hm, ?_⟩
    rw [hφm, inv_mul_cancel_right₀ (fst_ne_zero hF hl h)]
  case intercept =>
    intro h
    obtain ⟨c, hc, hφc⟩ := yAt_value hF hl h hzero
    have hstart : F.interpretation.valueAt φ w (.zero .scratch) = 0 := hF.zero
    rw [hstart] at hφc
    refine ⟨c, hc, fun {m x y} hm hx hy => ?_⟩
    obtain ⟨m', hm', hφm⟩ := slope_value hF hl h
    obtain rfl := Eval.ok_unique hm' hm
    obtain ⟨y', hy', hφy⟩ := yAt_value hF hl h hx
    obtain rfl := Eval.ok_unique hy' hy
    rw [hφy, hφc, hφm, ← height_eq_height_zero_add]
  case yAt =>
    intro h
    exact graph_yAt hF hl h
  case horizontal =>
    intro h y
    exact Interpretation.xAt_apply h y
  case xAt =>
    intro h
    exact graph_xAt hF hl h
  case xAt_yAt =>
    intro x y o hv hh hx hy
    exact (graph_yAt hF hl hv).inverse (graph_xAt hF hl hh) o hx hy

end World

/-- Over a prime field every line with coordinates agrees with what is computed from it. It has no
slope exactly if the test for vertical lines is passed, and then it is not a function of the
abscissa. Otherwise it is the graph of an affine function with its slope and intercept. The same
goes for horizontal lines and the ordinate, and the one function takes back what the other does. -/
theorem Residues.line_charted {p : UInt64} [Fact p.toNat.Prime] (hlt : p.toNat < 2 ^ 32) {σ : Type}
    {F : NumericField UInt64 σ} (hF : Modular p F) {w : World UInt64 σ} {l : Line UInt64}
    (hl : ∀ s ∈ l.scalars, w.Evaluates F s) : w.Charted F (residue p) l :=
  World.charted (hF.exactEquality hlt) hl

namespace Specimen

open Residues

/-- From `(1, 15)` to the anchor, which is at `(10, 9)`. -/
def risingLine : Line UInt64 := ⟨.ofValues ⟨71, []⟩ 1 15, pointA⟩

/-- The abscissas are different, but not modulo seven. -/
def verticalModSeven : Line UInt64 := ⟨.ofValues ⟨72, []⟩ 1 0, .ofValues ⟨73, []⟩ 8 1⟩

/-- The one line is a function of the abscissa, here at five modulo seven, and the other is not. -/
theorem line_charted_risingLine :
    (∃ m c y, moduloSeven.interpretation.slope risingLine figureA = (.ok m, figureA) ∧
      moduloSeven.interpretation.intercept risingLine figureA = (.ok c, figureA) ∧
      moduloSeven.interpretation.yAt risingLine affineInA figureA = (.ok y, figureA) ∧
      residue 7 y = residue 7 c + residue 7 m * 5 ∧
      moduloSeven.interpretation.holds (.inLine ⟨affineInA, .leaf ⟨74, []⟩ y⟩ risingLine) figureA =
        (.ok true, figureA)) ∧
      moduloSeven.interpretation.slope verticalModSeven figureA = (.error .noSlope, figureA) := by
  have hrising := line_charted (p := 7) (by decide) modular_moduloSeven (w := figureA)
    (l := risingLine) (by decide +kernel)
  have hleaning := line_charted (p := 7) (by decide) modular_moduloSeven (w := figureA)
    (l := verticalModSeven) (by decide +kernel)
  constructor
  · obtain ⟨b, -, hb, -⟩ := hrising.tested
    have hvertical : moduloSeven.interpretation.holds (.vertical risingLine) figureA =
        (.ok false, figureA) := Eval.ok_of_toOption hb (by decide +kernel)
    have haffine : figureA.Evaluates moduloSeven affineInA := by decide +kernel
    have hfive : moduloSeven.interpretation.valueAt (residue 7) figureA affineInA = 5 := by
      decide +kernel
    obtain ⟨m, hm, -⟩ := hrising.slope hvertical
    obtain ⟨c, hc, hy⟩ := hrising.intercept hvertical
    obtain ⟨y, hyx⟩ := (hrising.yAt hvertical).succeeds haffine
    have hvalue := hy hm haffine hyx
    rw [hfive] at hvalue
    exact ⟨m, c, y, hm, hc, hyx, hvalue, (hrising.yAt hvertical).inLine ⟨74, []⟩ haffine hyx⟩
  · obtain ⟨b, -, hb, -⟩ := hleaning.tested
    exact (hleaning.vertical (Eval.ok_of_toOption hb (by decide +kernel))).1

end Specimen
end PlaneGeometry
