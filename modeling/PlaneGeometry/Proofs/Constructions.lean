import PlaneGeometry.Proofs.Draws
import PlaneGeometry.Proofs.Reachable
import PlaneGeometry.Proofs.Relations

/-!
# Constructions keep their relations

What a construction draws is kept in leaves, and what it is given is not resolved. So the relation
that the result is built to obey is an identity between places, whatever has been drawn and wherever
anchors have been moved since.
-/
namespace PlaneGeometry

open Plane

variable {α σ τ K : Type} [Element α]

namespace World

private theorem settled_iff {w : World α σ} {s : Scalar α} : w.Settled s ↔
    s.isDeterministic = true ∧ ∀ i ∈ s.sources, (w.place? i).isSome = true :=
  ⟨fun h => ⟨h.deterministic, h.placed⟩, fun h => ⟨h.1, h.2⟩⟩

theorem settled_closed (w : World α σ) : Scalar.Closed w.Settled := by
  have h := Scalar.closed_deterministic.and
    (Scalar.closed_sources (α := α) fun i => (w.place? i).isSome = true)
  simpa only [← settled_iff] using h

theorem SameShape.place?_eq {w u : World α σ} (h : w.SameShape u) : u.place? = w.place? := by
  funext i
  cases hs : w.source? i with
  | none =>
    have hu : u.source? i = none := by
      have hi := h i
      rwa [hs, Option.map_none, Option.map_eq_none_iff] at hi
    rw [World.place?, World.place?, hs, hu]
  | some t =>
    cases t with
    | anchor name p => rw [World.place?, World.place?, hs, h.anchor hs]
    | dynamic label r c =>
      obtain ⟨c', hc'⟩ := h.dynamic hs
      rw [World.place?, World.place?, hs, hc']

/-- A move puts leaves in the place of leaves. -/
theorem place?_moveTo {w : World α σ} (o : Origin) (a : Anchor) (x y : α) {i : SourceId}
    (hi : (w.place? i).isSome = true) : ((a.moveTo o x y w).2.place? i).isSome = true := by
  obtain ⟨p, hp⟩ := Option.isSome_iff_exists.1 hi
  obtain ⟨name, o₁, o₂, hs⟩ := source?_of_place? hp
  rw [place?, source?_moveTo, hs]
  by_cases h : a.source = i <;> simp [h, Source.withPosition, Point.ofValues]

private theorem place?_addSource {w : World α σ} (s : Source α) {i : SourceId}
    (hi : (w.place? i).isSome = true) : ((addSource s w).2.place? i).isSome = true := by
  obtain ⟨p, hp⟩ := Option.isSome_iff_exists.1 hi
  obtain ⟨name, o₁, o₂, hs⟩ := source?_of_place? hp
  have hold : i ≠ w.sources.size := by
    rintro rfl
    simp [source?] at hs
  rw [place?, source?_addSource, if_neg hold, hs]
  rfl

end World

theorem Operation.Outcome.place? {w v : World α σ} (h : Outcome w v) {i : SourceId}
    (hi : (w.place? i).isSome = true) : (v.place? i).isSome = true := by
  cases h with
  | samples hu => rwa [hu.place?_eq]
  | moved o a x y hu =>
    rw [← hu.place?_eq] at hi
    exact World.place?_moveTo o a x y hi
  | added _ => exact World.place?_addSource _ hi

namespace World

theorem Leads.place? {w u : World α σ} (h : w.Leads u) {i : SourceId}
    (hi : (w.place? i).isSome = true) : (u.place? i).isSome = true :=
  h.keeps (P := fun v => (v.place? i).isSome = true) hi
    fun _ op hop hv => (op.outcome hop).place? hv

theorem Leads.settled {w u : World α σ} (h : w.Leads u) {s : Scalar α} (hs : w.Settled s) :
    u.Settled s where
  deterministic := hs.deterministic
  placed i hi := h.place? (hs.placed i hi)

theorem SameSources.leads {w u : World α σ} (h : w.SameSources u) : w.Leads u := by
  refine ⟨[.sample u.sampler], ⟨trivial, trivial⟩, ?_⟩
  change ({ w with sampler := u.sampler } : World α σ) = u
  rw [← h]

def SettledAt (w : World α σ) (p : Point α) : Prop := ∀ x ∈ p.vect, w.Settled x

def HasCoordinates (F : NumericField α σ) (w : World α σ) (p : Point α) : Prop :=
  ∀ x ∈ p.vect, (F.interpretation.outcome w x).isSome = true

instance (w : World α σ) (p : Point α) : Decidable (w.SettledAt p) :=
  inferInstanceAs (Decidable (∀ x ∈ p.vect, w.Settled x))

instance (F : NumericField α σ) (w : World α σ) (p : Point α) :
    Decidable (w.HasCoordinates F p) :=
  inferInstanceAs (Decidable (∀ x ∈ p.vect, (F.interpretation.outcome w x).isSome = true))

/-- Whatever is done from now on, the test of the relation answers `b` as long as the points of the
relation have coordinates. -/
def Stays (F : NumericField α σ) (w : World α σ) (r : Relation α) (b : Bool) : Prop :=
  ∀ u, w.Leads u → (∀ p ∈ r.points, u.HasCoordinates F p) →
    F.interpretation.holds r u = (.ok b, u)

variable {F : NumericField α σ} {w : World α σ} {r : Relation α} {b : Bool}

theorem Stays.leads {u : World α σ} (h : w.Stays F r b) (hu : w.Leads u) : u.Stays F r b :=
  fun v hv => h v (hu.trans hv)

theorem SettledAt.leads {u : World α σ} {p : Point α} (h : w.SettledAt p) (hu : w.Leads u) :
    u.SettledAt p := fun x hx => hu.settled (h x hx)

private theorem Locates.of_settledAt (hs : ∀ p ∈ r.points, w.SettledAt p)
    (hv : ∀ p ∈ r.points, w.HasCoordinates F p) : w.Locates F r :=
  fun p hp x hx => ⟨hs p hp x hx, hv p hp x hx⟩

/-- A relation stays as it is if this can be told from what its points have in common with others,
wherever these are. -/
theorem stays_of [Field K] {φ : α → K} (hF : F.ExactEquality φ) (hr : r.Unordered)
    (hs : ∀ p ∈ r.points, w.SettledAt p)
    (h : ∀ (u : World α σ) (ρ : Point α → K × K),
      (∀ p ∈ r.points, F.interpretation.AtPlace u.SameSources φ p (ρ p)) →
        (r.TrueAt ρ ↔ b = true)) : w.Stays F r b := by
  intro u hu hvalues
  have hlocates := Locates.of_settledAt (fun p hp => (hs p hp).leads hu) hvalues
  have hplaces := h u _ fun p hp => atPlace_at φ (hlocates p hp)
  exact (hF.holds_iff hlocates hr).2 hplaces.symm

/-- A relation stays true if its residual vanishes wherever the points are. -/
theorem stays_of_residual [Field K] {φ : α → K} (hF : F.ExactEquality φ) (hr : r.Unordered)
    (hne : ∀ p q, r ≠ .samePoint p q) (hs : ∀ p ∈ r.points, w.SettledAt p)
    (h : ∀ (u : World α σ) (ρ : Point α → K × K),
      (∀ p ∈ r.points, F.interpretation.AtPlace u.SameSources φ p (ρ p)) → r.residualAt ρ = 0) :
    w.Stays F r true := by
  refine stays_of hF hr hs fun u ρ hρ => iff_of_true (Relation.trueAt_iff.2 ?_) rfl
  exact ⟨h u ρ hρ, fun p q hpq => absurd hpq (hne p q)⟩

end World

namespace Interpretation

variable {I : Interpretation α σ} {φ : α → K} {w : World α σ}

theorem HasValue.unique {s : Scalar α} {k l : K} (h : I.HasValue w.SameSources φ s k)
    (h' : I.HasValue w.SameSources φ s l) : k = l :=
  Option.some.inj ((h w rfl).2.symm.trans (h' w rfl).2)

theorem AtPlace.unique {p : Point α} {k l : K × K} (h : I.AtPlace w.SameSources φ p k)
    (h' : I.AtPlace w.SameSources φ p l) : k = l :=
  Prod.ext (h.1.unique h'.1) (h.2.unique h'.2)

end Interpretation

namespace World

variable {w : World α σ} {l : Line α} {q : Point α} (o : Origin) (ha : w.SettledAt l.a)
  (hb : w.SettledAt l.b) (hq : w.SettledAt q)

theorem SettledAt.shifted {d : Displacement α} (hq : w.SettledAt q)
    (hd : ∀ x ∈ d.vect, w.Settled x) : w.SettledAt (q.shifted o d) :=
  w.settled_closed.shifted o hq hd

include ha hb in
theorem settledAt_pointAt (o' : Origin) (v : α) : w.SettledAt (l.pointAt o (.leaf o' v)) :=
  w.settled_closed.pointAt o (List.forall_mem_append.2 ⟨ha, hb⟩) (w.settled_closed.leaf o' v)

include hq

private theorem settledAt_verticalThrough : w.SettledAt (Line.verticalThrough o q).b :=
  (List.forall_mem_append.1 (w.settled_closed.verticalThrough o hq)).2

private theorem settledAt_horizontalThrough : w.SettledAt (Line.horizontalThrough o q).b :=
  (List.forall_mem_append.1 (w.settled_closed.horizontalThrough o hq)).2

include ha hb

private theorem settledAt_parallelThrough : w.SettledAt (l.parallelThrough o q).b :=
  (List.forall_mem_append.1
    (w.settled_closed.parallelThrough o hq (List.forall_mem_append.2 ⟨ha, hb⟩))).2

theorem settledAt_perpendicularThrough : w.SettledAt (l.perpendicularThrough o q).b :=
  (List.forall_mem_append.1
    (w.settled_closed.perpendicularThrough o hq (List.forall_mem_append.2 ⟨ha, hb⟩))).2

end World

namespace World

variable [Field K] {F : NumericField α σ} {φ : α → K} (hF : F.ExactEquality φ) {w : World α σ}
  {l : Line α} {c : Circle α} {q : Point α} (o : Origin)

include hF

theorem stays_inLine_first (hl : l.a = q) (ha : w.SettledAt l.a) (hb : w.SettledAt l.b) :
    w.Stays F (.inLine q l) true := by
  subst hl
  refine stays_of_residual hF trivial nofun (by simp [Relation.points, ha, hb]) fun u ρ _ => ?_
  simp [Relation.residualAt, cross]

private theorem stays_inCircle_rim (hq : c.rim = q) (hc : w.SettledAt c.center)
    (hr : w.SettledAt c.rim) : w.Stays F (.inCircle q c) true := by
  subst hq
  refine stays_of_residual hF trivial nofun (by simp [Relation.points, hc, hr]) fun u ρ _ => ?_
  simp [Relation.residualAt]

section

variable (hq : w.SettledAt q)

include hq

theorem stays_verticalThrough : w.Stays F (.vertical (.verticalThrough o q)) true := by
  have hstart : w.SettledAt (Line.verticalThrough o q).a := hq
  have hend : w.SettledAt (Line.verticalThrough o q).b := settledAt_verticalThrough o hq
  refine stays_of_residual hF trivial nofun (by simp [Relation.points, hstart, hend])
    fun u ρ hρ => ?_
  simp only [Relation.points, List.forall_mem_cons] at hρ
  -- Both points of the line have the very same first coordinate.
  have hx := hρ.2.1.1.unique hρ.1.1
  simp [Relation.residualAt, hx]

theorem stays_horizontalThrough : w.Stays F (.horizontal (.horizontalThrough o q)) true := by
  have hstart : w.SettledAt (Line.horizontalThrough o q).a := hq
  have hend : w.SettledAt (Line.horizontalThrough o q).b := settledAt_horizontalThrough o hq
  refine stays_of_residual hF trivial nofun (by simp [Relation.points, hstart, hend])
    fun u ρ hρ => ?_
  simp only [Relation.points, List.forall_mem_cons] at hρ
  -- Both points of the line have the very same second coordinate.
  have hy := hρ.2.1.2.unique hρ.1.2
  simp [Relation.residualAt, hy]

end

section

variable (ha : w.SettledAt l.a) (hb : w.SettledAt l.b) (hq : w.SettledAt q)

include ha hb hq

private theorem stays_parallelThrough : w.Stays F (.parallel l (l.parallelThrough o q)) true := by
  have hI : F.interpretation.field.Exact φ := hF.toExact
  have hstart : w.SettledAt (l.parallelThrough o q).a := hq
  have hend : w.SettledAt (l.parallelThrough o q).b := settledAt_parallelThrough o ha hb hq
  refine stays_of_residual hF trivial nofun (by simp [Relation.points, ha, hb, hstart, hend])
    fun u ρ hρ => ?_
  simp only [Relation.points, List.forall_mem_cons] at hρ
  obtain ⟨hla, hlb, hqa, hqb, -⟩ := hρ
  have hd := hI.displaces_towards (o.part 2) hla hlb
  have hplace := hqb.unique (hI.atPlace_shifted o hqa hd)
  rw [Relation.residualAt, hplace, add_sub_cancel_left, Plane.cross_self]

private theorem stays_perpendicularThrough :
    w.Stays F (.perpendicular l (l.perpendicularThrough o q)) true := by
  have hI : F.interpretation.field.Exact φ := hF.toExact
  have hstart : w.SettledAt (l.perpendicularThrough o q).a := hq
  have hend : w.SettledAt (l.perpendicularThrough o q).b :=
    settledAt_perpendicularThrough o ha hb hq
  refine stays_of_residual hF trivial nofun (by simp [Relation.points, ha, hb, hstart, hend])
    fun u ρ hρ => ?_
  simp only [Relation.points, List.forall_mem_cons] at hρ
  obtain ⟨hla, hlb, hqa, hqb, -⟩ := hρ
  have hplace := hqb.unique (hI.atPlace_perpendicularThrough o hla hlb hqa)
  rw [Relation.residualAt, hplace, add_sub_cancel_left, Plane.dot_turned]

end

end World

/-- Draws that have been kept. -/
def Displacement.Kept (d : Displacement α) : Prop :=
  ∃ o a o' b, d = ⟨.leaf o a, .leaf o' b⟩

namespace Displacement.Kept

variable {d : Displacement α} (h : d.Kept)

include h

theorem settled (w : World α σ) : ∀ x ∈ d.vect, w.Settled x := by
  obtain ⟨o, a, o', b, rfl⟩ := h
  simp [Displacement.vect, w.settled_closed.leaf]

private theorem displaces (φ : α → K) : ∃ e : K × K,
    ∀ (I : Interpretation α σ) (V : World α σ → Prop), I.Displaces V φ d e := by
  obtain ⟨o, a, o', b, rfl⟩ := h
  exact ⟨(φ a, φ b), fun I V => ⟨.pure a, .pure b⟩⟩

end Displacement.Kept

/-- Draws that have been kept. The second does not stand for zero. -/
def Displacement.Frozen [Zero K] (φ : α → K) (d : Displacement α) : Prop :=
  ∃ o a o' b, φ b ≠ 0 ∧ d = ⟨.leaf o a, .leaf o' b⟩

namespace Displacement.Frozen

variable [Zero K] {φ : α → K} {d : Displacement α} (h : d.Frozen φ)

include h

theorem kept : d.Kept := by
  obtain ⟨o, a, o', b, -, rfl⟩ := h
  exact ⟨o, a, o', b, rfl⟩

private theorem displaces : ∃ e : K × K, e.2 ≠ 0 ∧
    ∀ (I : Interpretation α σ) (V : World α σ → Prop), I.Displaces V φ d e := by
  obtain ⟨o, a, o', b, hb, rfl⟩ := h
  exact ⟨(φ a, φ b), hb, fun I V => ⟨.pure a, .pure b⟩⟩

end Displacement.Frozen

namespace World

variable [Field K] {F : NumericField α σ} {φ : α → K} (hF : F.ExactEquality φ) {w : World α σ}
  {l : Line α} {c : Circle α} {q : Point α} {d : Displacement α} (o : Origin)

include hF

/-- A point at a kept parameter of a line lies on it. -/
theorem stays_pointAt (ha : w.SettledAt l.a) (hb : w.SettledAt l.b) (o' : Origin) (v : α) :
    w.Stays F (.inLine (l.pointAt o (.leaf o' v)) l) true := by
  have hI : F.interpretation.field.Exact φ := hF.toExact
  have hpoint := settledAt_pointAt o ha hb o' v
  refine stays_of_residual hF trivial nofun (by simp [Relation.points, hpoint, ha, hb])
    fun u ρ hρ => ?_
  simp only [Relation.points, List.forall_mem_cons] at hρ
  obtain ⟨hp, hla, hlb, -⟩ := hρ
  have hplace := hp.unique (hI.atPlace_along o hla (.pure v) (hI.displaces_towards _ hla hlb))
  rw [Relation.residualAt, hplace, add_sub_cancel_left, cross_smul_self]

/-- Points at two different parameters of a line coincide exactly where its points do. -/
theorem holds_ends (ha : w.SettledAt l.a) (hb : w.SettledAt l.b) {o₁ o₂ o₁' o₂' : Origin}
    {x y : α} (hxy : φ x ≠ φ y) {s : Segment α}
    (hs : s = ⟨l.pointAt o₁ (.leaf o₁' x), l.pointAt o₂ (.leaf o₂' y)⟩)
    (hv : ∀ p ∈ [s.a, s.b, l.a, l.b], w.HasCoordinates F p) :
    F.interpretation.holds (.samePoint s.a s.b) w =
      F.interpretation.holds (.samePoint l.a l.b) w := by
  have hI : F.interpretation.field.Exact φ := hF.toExact
  have hsa : w.SettledAt s.a := hs ▸ settledAt_pointAt o₁ ha hb o₁' x
  have hsb : w.SettledAt s.b := hs ▸ settledAt_pointAt o₂ ha hb o₂' y
  simp only [List.forall_mem_cons] at hv
  have hends : w.Locates F (.samePoint s.a s.b) :=
    .of_settledAt (by simp [Relation.points, hsa, hsb]) (by simp [Relation.points, hv])
  have hline : w.Locates F (.samePoint l.a l.b) :=
    .of_settledAt (by simp [Relation.points, ha, hb]) (by simp [Relation.points, hv])
  let ρ := F.interpretation.place φ w
  have hplace {r : Relation α} (hr : w.Locates F r) {p : Point α} (hp : p ∈ r.points) :
      F.interpretation.AtPlace w.SameSources φ p (ρ p) := atPlace_at φ (hr p hp)
  have hla := hplace hline (p := l.a) (by simp [Relation.points])
  have hlb := hplace hline (p := l.b) (by simp [Relation.points])
  have hends_a : ρ s.a = ρ l.a + φ x • (ρ l.b - ρ l.a) := by
    refine (hplace hends (by simp [Relation.points])).unique ?_
    rw [hs]
    exact hI.atPlace_along o₁ hla (.pure x) (hI.displaces_towards _ hla hlb)
  have hends_b : ρ s.b = ρ l.a + φ y • (ρ l.b - ρ l.a) := by
    refine (hplace hends (by simp [Relation.points])).unique ?_
    rw [hs]
    exact hI.atPlace_along o₂ hla (.pure y) (hI.displaces_towards _ hla hlb)
  have hiff : ρ s.a = ρ s.b ↔ ρ l.a = ρ l.b := by
    rw [hends_a, hends_b, add_right_inj, ← sub_eq_zero, ← sub_smul, smul_eq_zero_iff_right
      (sub_ne_zero.2 hxy), sub_eq_zero, eq_comm]
  exact hF.holds_congr hends hline trivial trivial hiff

private theorem stays_apart (hq : w.SettledAt q) (hd : d.Frozen φ) :
    w.Stays F (.samePoint q (q.shifted o d)) false ∧
      w.Stays F (.samePoint (q.shifted o d) q) false := by
  have hI : F.interpretation.field.Exact φ := hF.toExact
  obtain ⟨e, he, hde⟩ := hd.displaces
  have hshifted := hq.shifted o (hd.kept.settled w)
  have hapart (u : World α σ) {k l : K × K} (hk : F.interpretation.AtPlace u.SameSources φ q k)
      (hl : F.interpretation.AtPlace u.SameSources φ (q.shifted o d) l) : k ≠ l := by
    rw [hl.unique (hI.atPlace_shifted o hk (hde _ _))]
    intro h
    exact he (congrArg Prod.snd (add_eq_left.1 h.symm))
  constructor
  · refine stays_of hF trivial (by simp [Relation.points, hq, hshifted]) fun u ρ hρ => ?_
    simp only [Relation.points, List.forall_mem_cons] at hρ
    exact iff_of_false (hapart u hρ.1 hρ.2.1) Bool.false_ne_true
  · refine stays_of hF trivial (by simp [Relation.points, hq, hshifted]) fun u ρ hρ => ?_
    simp only [Relation.points, List.forall_mem_cons] at hρ
    exact iff_of_false (hapart u hρ.2.1 hρ.1).symm Bool.false_ne_true

/-- Where the image of a point in a line through the center has a place, it has the same distance
from the center. -/
theorem dot_mirrored {center : Point α} (hd : d.Kept) {x y k : K × K}
    (hc : F.interpretation.AtPlace w.SameSources φ center x)
    (hq : F.interpretation.AtPlace w.SameSources φ q y)
    (hp : F.interpretation.AtPlace w.SameSources φ (.mirrored o center q d) k) :
    dot (k - x) (k - x) = dot (y - x) (y - x) := by
  classical
  have hI : F.interpretation.field.Exact φ := hF.toExact
  obtain ⟨e, hde⟩ := hd.displaces φ
  by_cases he : dot e e = 0
  · have hnone := hI.stands_mirrored_none o hc hq (hde _ _) he
    cases (hnone w rfl).2.symm.trans (hp.1 w rfl).2
  · rw [hp.unique (hI.atPlace_mirrored o hc hq (hde _ _) he), sub_right_comm, dot_reflected he]

private theorem stays_mirrored (hc : w.SettledAt c.center) (hr : w.SettledAt c.rim) (hd : d.Kept) :
    w.Stays F (.inCircle (.mirrored o c.center c.rim d) c) true := by
  have himage : w.SettledAt (.mirrored o c.center c.rim d) :=
    w.settled_closed.mirrored o hc hr (hd.settled w)
  refine stays_of_residual hF trivial nofun (by simp [Relation.points, himage, hc, hr])
    fun u ρ hρ => ?_
  simp only [Relation.points, List.forall_mem_cons] at hρ
  exact sub_eq_zero.2 (dot_mirrored hF o hd hρ.2.1 hρ.2.2.1 hρ.1)

end World

namespace NumericField.Exact

open Interpretation

variable [Field K] {I : Interpretation α σ} {φ : α → K} {V : World α σ → Prop}
  (hF : I.field.Exact φ) (hV : ∀ w t, V w → V { w with sampler := t })
  (hdraw : ∀ x t, φ (I.field.drawOther x t).1 ≠ φ x) (o : Origin) {l : Line α} {q : Point α}

include hV

omit [Field K] in
theorem produces_pointAt :
    Produces V (fun q => ∃ o' x, q = l.pointAt o (.leaf o' x)) (I.pointInLine o l) :=
  fun w hw => ⟨rfl, hV w _ hw, _, _, rfl⟩

omit [Field K] in
include hdraw in
theorem produces_ends :
    Produces V (fun s => ∃ o₁ x o₂ y, φ x ≠ φ y ∧
      s = ⟨l.pointAt (o.part 0) (.leaf o₁ x), l.pointAt (o.part 1) (.leaf o₂ y)⟩)
      (I.segmentInLine o l) :=
  fun w hw => ⟨rfl, hV _ _ (hV w _ hw), _, _, _, _, (hdraw _ _).symm, rfl⟩

omit [Field K] in
theorem produces_kept : Produces V Displacement.Kept (I.nonzeroDirection o) :=
  fun w hw => ⟨rfl, hV _ _ (hV w _ hw), _, _, _, _, rfl⟩

include hF hdraw

private theorem produces_frozen : Produces V (Displacement.Frozen φ) (I.nonzeroDirection o) := by
  intro w hw
  refine ⟨rfl, hV _ _ (hV w _ hw), _, _, _, _, ?_, rfl⟩
  have h := hdraw I.field.zero (I.field.draw w.sampler).2
  rwa [hF.zero] at h

private theorem produces_lineThrough :
    Produces V (fun l => ∃ d : Displacement α, d.Frozen φ ∧ l = ⟨q, q.shifted o d⟩)
      (I.lineThrough o q) := by
  apply (hF.produces_frozen hV hdraw _).bind
  intro d hd
  exact .pure ⟨d, hd, rfl⟩

private theorem produces_circleThrough :
    Produces V (fun c => ∃ d : Displacement α, d.Frozen φ ∧
      c = .through o (q.shifted (o.part 3) d) q) (I.circleThrough o q) := by
  apply (hF.produces_frozen hV hdraw _).bind
  intro d hd
  exact .pure ⟨d, hd, rfl⟩

private theorem produces_circleAround :
    Produces V (fun c => ∃ d : Displacement α, d.Frozen φ ∧
      c = .through o q (q.shifted (o.part 3) d)) (I.circleAround o q) := by
  apply (hF.produces_frozen hV hdraw _).bind
  intro d hd
  exact .pure ⟨d, hd, rfl⟩

omit hdraw

/-- A direction without length is replaced by another one that is drawn in the same way. -/
theorem produces_anisotropic_kept (n : Nat) {d : Displacement α} (hd : d.Kept) :
    Produces V Displacement.Kept (I.anisotropic o n d) := by
  induction n generalizing d with
  | zero => exact .pure hd
  | succ n ih =>
    intro w hw
    obtain ⟨e, hde⟩ := hd.displaces φ
    obtain ⟨v, hv, -⟩ := (hF.hasValue_dot .scratch (hde I V) (hde I V)).apply_some hw
    rw [anisotropic_apply hv]
    split
    · exact (produces_kept hV o).bind (fun d hd => ih hd) w hw
    · exact ⟨rfl, hw, hd⟩

theorem produces_mirrored {center : Point α} :
    Produces V (fun p => ∃ d : Displacement α, d.Kept ∧ p = .mirrored o center q d)
      (I.reflectAbout o center q) := by
  apply (produces_kept hV _).bind
  intro d hd
  apply (hF.produces_anisotropic_kept hV _ _ hd).bind
  intro d hd
  exact .pure ⟨d, hd, rfl⟩

end NumericField.Exact

/-- What each construction makes of settled points obeys its relation from then on, and what has to
be apart is apart from then on. -/
structure World.ConstructionsStay (F : NumericField α σ) (w : World α σ) : Prop where
  pointInLine {o : Origin} {l : Line α} {q : Point α} {u : World α σ} : w.SettledAt l.a →
    w.SettledAt l.b → F.interpretation.pointInLine o l w = (q, u) → u.Stays F (.inLine q l) true
  segmentInLine {o : Origin} {l : Line α} {s : Segment α} {u : World α σ} : w.SettledAt l.a →
    w.SettledAt l.b → F.interpretation.segmentInLine o l w = (s, u) →
      u.Stays F (.inLine s.a l) true ∧ u.Stays F (.inLine s.b l) true ∧
        ∀ v, u.Leads v → (∀ p ∈ [s.a, s.b, l.a, l.b], v.HasCoordinates F p) →
          F.interpretation.holds (.samePoint s.a s.b) v =
            F.interpretation.holds (.samePoint l.a l.b) v
  pointInCircle {o : Origin} {c : Circle α} {q : Point α} {u : World α σ} : w.SettledAt c.center →
    w.SettledAt c.rim → F.interpretation.pointInCircle o c w = (q, u) →
      u.Stays F (.inCircle q c) true
  circleThrough {o : Origin} {q : Point α} {c : Circle α} {u : World α σ} : w.SettledAt q →
    F.interpretation.circleThrough o q w = (c, u) →
      u.Stays F (.inCircle q c) true ∧ u.Stays F (.samePoint c.center q) false
  circleAround {o : Origin} {q : Point α} {c : Circle α} {u : World α σ} : w.SettledAt q →
    F.interpretation.circleAround o q w = (c, u) →
      c.center = q ∧ u.Stays F (.inCircle c.rim c) true ∧ u.Stays F (.samePoint q c.rim) false
  lineThrough {o : Origin} {q : Point α} {l : Line α} {u : World α σ} : w.SettledAt q →
    F.interpretation.lineThrough o q w = (l, u) →
      u.Stays F (.inLine q l) true ∧ u.Stays F (.samePoint l.a l.b) false
  parallelThrough (o : Origin) {l : Line α} {q : Point α} : w.SettledAt l.a → w.SettledAt l.b →
    w.SettledAt q → w.Stays F (.parallel l (l.parallelThrough o q)) true ∧
      w.Stays F (.inLine q (l.parallelThrough o q)) true
  perpendicularThrough (o : Origin) {l : Line α} {q : Point α} : w.SettledAt l.a →
    w.SettledAt l.b → w.SettledAt q →
      w.Stays F (.perpendicular l (l.perpendicularThrough o q)) true ∧
        w.Stays F (.inLine q (l.perpendicularThrough o q)) true
  verticalThrough (o : Origin) {q : Point α} : w.SettledAt q →
    w.Stays F (.vertical (.verticalThrough o q)) true
  horizontalThrough (o : Origin) {q : Point α} : w.SettledAt q →
    w.Stays F (.horizontal (.horizontalThrough o q)) true

namespace NumericField.ExactEquality

open World

variable [Field K] {F : NumericField α σ} {φ : α → K} (hF : F.ExactEquality φ)
  (hdraw : ∀ x t, φ (F.drawOther x t).1 ≠ φ x)

include hF hdraw

private theorem constructionsStay (w : World α σ) : w.ConstructionsStay F := by
  have hI : F.interpretation.field.Exact φ := hF.toExact
  have hV (u : World α σ) (t : σ) (hu : w.SameSources u) :
      w.SameSources { u with sampler := t } := hu
  constructor
  case pointInLine =>
    intro o l q u ha hb h
    obtain ⟨hu, o', x, rfl⟩ := (Exact.produces_pointAt hV o).apply rfl h
    exact (stays_pointAt hF o ha hb o' x).leads hu.leads
  case segmentInLine =>
    intro o l s u ha hb h
    obtain ⟨hu, o₁, x, o₂, y, hxy, hs⟩ := (Exact.produces_ends hV hdraw o).apply rfl h
    refine ⟨?_, ?_, fun v hv => ?_⟩
    · rw [hs]
      exact (stays_pointAt hF _ ha hb o₁ x).leads hu.leads
    · rw [hs]
      exact (stays_pointAt hF _ ha hb o₂ y).leads hu.leads
    · have hwv := hu.leads.trans hv
      exact holds_ends hF (ha.leads hwv) (hb.leads hwv) hxy hs
  case pointInCircle =>
    intro o c q u hc hr h
    obtain ⟨hu, d, hd, rfl⟩ := (hI.produces_mirrored hV o).apply rfl h
    exact (stays_mirrored hF o hc hr hd).leads hu.leads
  case circleThrough =>
    intro o q c u hq h
    obtain ⟨hu, d, hd, rfl⟩ := (hI.produces_circleThrough hV hdraw o).apply rfl h
    have hcenter := hq.shifted (o.part 3) (hd.kept.settled w)
    have hc := stays_inCircle_rim (c := .through o (q.shifted (o.part 3) d) q) hF rfl hcenter hq
    exact ⟨hc.leads hu.leads,
      (stays_apart hF (o.part 3) hq hd).2.leads hu.leads⟩
  case circleAround =>
    intro o q c u hq h
    obtain ⟨hu, d, hd, rfl⟩ := (hI.produces_circleAround hV hdraw o).apply rfl h
    have hrim := hq.shifted (o.part 3) (hd.kept.settled w)
    exact ⟨rfl, (stays_inCircle_rim hF rfl hq hrim).leads hu.leads,
      (stays_apart hF (o.part 3) hq hd).1.leads hu.leads⟩
  case lineThrough =>
    intro o q l u hq h
    obtain ⟨hu, d, hd, rfl⟩ := (hI.produces_lineThrough hV hdraw o).apply rfl h
    have hend := hq.shifted o (hd.kept.settled w)
    have hl := stays_inLine_first (l := ⟨q, q.shifted o d⟩) hF rfl hq hend
    exact ⟨hl.leads hu.leads,
      (stays_apart hF o hq hd).1.leads hu.leads⟩
  case parallelThrough =>
    intro o l q ha hb hq
    exact ⟨stays_parallelThrough hF o ha hb hq,
      stays_inLine_first hF rfl hq (settledAt_parallelThrough o ha hb hq)⟩
  case perpendicularThrough =>
    intro o l q ha hb hq
    exact ⟨stays_perpendicularThrough hF o ha hb hq,
      stays_inLine_first hF rfl hq (settledAt_perpendicularThrough o ha hb hq)⟩
  case verticalThrough =>
    intro o q hq
    exact stays_verticalThrough hF o hq
  case horizontalThrough =>
    intro o q hq
    exact stays_horizontalThrough hF o hq

end NumericField.ExactEquality

/-- Over a prime field every construction keeps its relation, whatever is drawn for it. All that is
asked of the draws is that a value other than a given one differs from it as a residue, and draws by
a shift keep to that if what is drawn below a bound is below it. -/
theorem Residues.constructions_stay {p : UInt64} [hprime : Fact p.toNat.Prime]
    (hlt : p.toNat < 2 ^ 32) :
    (∀ {σ : Type} {below : UInt64 → Draw σ UInt64}, DrawsBelow below → ∀ x t,
      residue p ((ofPrime below p).drawOther x t).1 ≠ residue p x) ∧
      ∀ {σ : Type} (F : NumericField UInt64 σ), Modular p F →
        (∀ x t, residue p (F.drawOther x t).1 ≠ residue p x) →
          ∀ w : World UInt64 σ, w.ConstructionsStay F := by
  constructor
  · exact residue_drawOther_ne hprime.out.one_lt hlt
  · intro σ F hagrees hdraw w
    have hF : F.ExactEquality (residue p) := hagrees.exactEquality hlt
    exact hF.constructionsStay hdraw w

namespace Specimen

open Residues

def pointA : Point UInt64 := .live ⟨31, []⟩ 0 "A"

/-- A circle has been drawn through the anchor. -/
def circleDrawnThroughA : Circle UInt64 × World UInt64 Unit :=
  moduloSeven.interpretation.circleThrough ⟨32, []⟩ pointA figureA

/-- Then the anchor has moved. -/
def circleCarried : World UInt64 Unit :=
  Operation.runAll [.moveTo ⟨33, []⟩ ⟨0, "A"⟩ 2 20] circleDrawnThroughA.2

/-- The circle has moved along. -/
theorem constructions_stay_circleCarried :
    moduloSeven.interpretation.holds (.inCircle pointA circleDrawnThroughA.1) circleCarried =
        (.ok true, circleCarried) ∧
      moduloSeven.interpretation.holds (.samePoint circleDrawnThroughA.1.center pointA)
        circleCarried = (.ok false, circleCarried) := by
  obtain ⟨hdraw, hstay⟩ := constructions_stay (p := 7) (by decide)
  obtain ⟨hon, hapart⟩ := (hstay moduloSeven modular_moduloSeven
    (hdraw drawsBelow_zeros) figureA).circleThrough
    (o := ⟨32, []⟩) (q := pointA) (c := circleDrawnThroughA.1) (u := circleDrawnThroughA.2)
    (by decide +kernel) rfl
  have hleads : circleDrawnThroughA.2.Leads circleCarried := ⟨_, by decide +kernel, rfl⟩
  exact ⟨hon circleCarried hleads (by decide +kernel),
    hapart circleCarried hleads (by decide +kernel)⟩

end Specimen
end PlaneGeometry
