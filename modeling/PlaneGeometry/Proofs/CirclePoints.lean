import PlaneGeometry.Proofs.Intersections

/-!
# Constructions at a point of a circle

The caller supplies the point, so each construction asks first whether it is on the circle. If it
is not, or if this cannot be told, all coordinates of the result throw. Otherwise none does, and
what is built keeps to the circle, over every prime field and whatever is drawn.
-/
namespace PlaneGeometry

open Plane

variable {α σ K : Type} [Element α]

/-- The error names the relation that does not hold, or is the one of the test. -/
theorem Interpretation.violation_apply {I : Interpretation α σ} {r : Relation α}
    {answer : Except Error Bool} {w u : World α σ} (h : I.holds r w = (answer, u)) :
    I.violation r w = (match answer with
      | .ok true => none
      | .ok false => some (.precondition r.text)
      | .error e => some e, u) := by
  rw [violation, Act.bind_apply, show (I.holds r).run w = (answer, u) from h]
  rcases answer with e | b
  · rfl
  · cases b <;> rfl

namespace Interpretation

variable {I : Interpretation α σ} {c : Circle α} {q : Point α} {w u : World α σ} (o : Origin)

private theorem chordThrough_apply (h : I.violation (.inCircle q c) w = (none, u)) :
    I.chordThrough o c q w =
      (⟨q, (I.reflectAbout o c.center q u).1⟩, (I.reflectAbout o c.center q u).2) := by
  rw [chordThrough, Act.bind_apply, h]
  rfl

private theorem diameterThrough_apply (h : I.violation (.inCircle q c) w = (none, u)) :
    I.diameterThrough o c q w = (⟨q, c.center.image o q⟩, u) := by
  rw [diameterThrough, Act.bind_apply, h]
  rfl

private theorem tangentAt_apply (h : I.violation (.inCircle q c) w = (none, u)) :
    I.tangentAt o c q w = ((Line.mk c.center q).perpendicularThrough o q, u) := by
  rw [tangentAt, Act.bind_apply, h]
  rfl

/-- What the check objects to, all of the result throws. -/
theorem throwing_apply {e : Error} (h : I.violation (.inCircle q c) w = (some e, u)) :
    I.chordThrough o c q w = (.throwing o e, u) ∧ I.diameterThrough o c q w = (.throwing o e, u) ∧
      I.tangentAt o c q w = (.throwing o e, u) := by
  rw [chordThrough, diameterThrough, tangentAt, Act.bind_apply, Act.bind_apply, Act.bind_apply, h]
  exact ⟨rfl, rfl, rfl⟩

end Interpretation

namespace World

variable (F : NumericField α σ) (w : World α σ) (c : Circle α) (q : Point α)

/-- The segment begins at the point. Its other end is on the circle, and from then on, where it has
coordinates, the test whether it is on the circle answers what it answers for the point. -/
structure ChordDrawn (s : Segment α) : Prop where
  first : s.a = q
  isThrowing : s.a.isThrowing = false ∧ s.b.isThrowing = false
  second : w.HasCoordinates F s.b → F.interpretation.holds (.inCircle s.b c) w = (.ok true, w)
  follows {v : World α σ} {b : Bool} : w.Leads v → v.HasCoordinates F s.b →
    F.interpretation.holds (.inCircle q c) v = (.ok b, v) →
      F.interpretation.holds (.inCircle s.b c) v = (.ok b, v)

/-- The center is in the middle of the chord. -/
structure DiameterDrawn [Field K] (φ : α → K) (s : Segment α) : Prop
    extends w.ChordDrawn F c q s where
  evaluates {v : World α σ} : w.Leads v → v.HasCoordinates F c.center → v.HasCoordinates F q →
    v.HasCoordinates F s.b
  sum {v : World α σ} : w.Leads v → v.HasCoordinates F s.b →
    let ρ := F.interpretation.place φ v
    ρ s.a + ρ s.b = ρ c.center + ρ c.center

/-- The line goes through the point, at right angles to the radius. -/
structure TangentDrawn (l : Line α) : Prop where
  isThrowing : l.a.isThrowing = false ∧ l.b.isThrowing = false
  located : w.HasCoordinates F c.center ∧ w.HasCoordinates F q
  contains {v : World α σ} : w.Leads v → v.HasCoordinates F c.center → v.HasCoordinates F q →
    F.interpretation.holds (.inLine q l) v = (.ok true, v)
  perpendicular {v : World α σ} : w.Leads v → v.HasCoordinates F c.center →
    v.HasCoordinates F q →
      F.interpretation.holds (.perpendicular l ⟨c.center, q⟩) v = (.ok true, v)

end World

namespace World

variable [Field K] {F : NumericField α σ} {φ : α → K} (hF : F.ExactEquality φ) {w : World α σ}
  {c : Circle α} {q : Point α} (o : Origin)

include hF

private theorem dot_mirrored_at {d : Displacement α} (hd : d.Kept)
    (h : ∀ x ∈ (Point.mirrored o c.center q d).vect, w.Evaluates F x) :
    let ρ := F.interpretation.place φ w
    dot (ρ (.mirrored o c.center q d) - ρ c.center) (ρ (.mirrored o c.center q d) - ρ c.center) =
      dot (ρ q - ρ c.center) (ρ q - ρ c.center) := by
  obtain ⟨hcenter, hq⟩ := evaluates_of_mirrored h
  exact dot_mirrored hF o hd (atPlace_at φ hcenter) (atPlace_at φ hq) (atPlace_at φ h)

private theorem place_image (h : ∀ x ∈ (c.center.image o q).vect, w.Evaluates F x) :
    let ρ := F.interpretation.place φ w
    ρ (c.center.image o q) = ρ c.center + ρ c.center - ρ q := by
  have hI : F.interpretation.field.Exact φ := hF.toExact
  obtain ⟨hcenter, hq⟩ := evaluates_of_image h
  exact (atPlace_at φ h).unique (hI.atPlace_image o (atPlace_at φ hcenter) (atPlace_at φ hq))

/-- Of points at the same distance from the center both or neither are on the circle. -/
theorem holds_inCircle_eq {p : Point α} {b : Bool} (hpoints : w.Locates F (.inCircle q c))
    (hp : ∀ x ∈ p.vect, w.Evaluates F x)
    (h : let ρ := F.interpretation.place φ w
      dot (ρ p - ρ c.center) (ρ p - ρ c.center) = dot (ρ q - ρ c.center) (ρ q - ρ c.center))
    (hb : F.interpretation.holds (.inCircle q c) w = (.ok b, w)) :
    F.interpretation.holds (.inCircle p c) w = (.ok b, w) := by
  let ρ := F.interpretation.place φ w
  have hpoints' : w.Locates F (.inCircle p c) := by
    simp only [Locates, Relation.points, List.forall_mem_cons] at hpoints ⊢
    exact ⟨hp, hpoints.2⟩
  have hiff : Relation.TrueAt ρ (.inCircle p c) ↔ Relation.TrueAt ρ (.inCircle q c) := by
    change dot (ρ p - ρ c.center) (ρ p - ρ c.center) - _ = 0 ↔ dot _ _ - _ = 0
    rw [h]
  exact (hF.holds_congr hpoints' hpoints trivial trivial hiff).trans hb

variable (hs : ∀ p ∈ (Relation.inCircle q c).points, w.SettledAt p)
  (hon : F.interpretation.holds (.inCircle q c) w = (.ok true, w))

include hs hon

private theorem ChordDrawn.of_dot_eq {p : Point α} (hp : w.SettledAt p)
    (hthrow : p.isThrowing = false)
    (hsame : ∀ v : World α σ, w.Leads v → (∀ x ∈ p.vect, v.Evaluates F x) →
      let ρ := F.interpretation.place φ v
      dot (ρ p - ρ c.center) (ρ p - ρ c.center) = dot (ρ q - ρ c.center) (ρ q - ρ c.center)) :
    w.ChordDrawn F c q ⟨q, p⟩ := by
  have hfollows {v : World α σ} {b : Bool} (hv : w.Leads v) (hvalues : v.HasCoordinates F p)
      (hb : F.interpretation.holds (.inCircle q c) v = (.ok b, v)) :
      F.interpretation.holds (.inCircle p c) v = (.ok b, v) := by
    have hpoints := Locates.of_holds F (fun s h => (hs s h).leads hv) trivial nofun hb
    have hpv := hvalues.evaluates hp hv
    exact holds_inCircle_eq hF hpoints hpv (hsame v hv hpv) hb
  have hpoints := Locates.of_holds F hs trivial nofun hon
  have hqvalues : w.HasCoordinates F q := fun x hx => (hpoints q (.head _) x hx).value
  constructor
  case first => rfl
  case isThrowing => exact ⟨hqvalues.isThrowing, hthrow⟩
  case second =>
    intro hvalues
    exact hfollows (SameSources.leads rfl) hvalues hon
  case follows =>
    intro v b hv hvalues hb
    exact hfollows hv hvalues hb

private theorem chordDrawn_mirrored {d : Displacement α} (hd : d.Kept) :
    w.ChordDrawn F c q ⟨q, .mirrored o c.center q d⟩ := by
  have hq : w.SettledAt q := hs q (.head _)
  have hcenter : w.SettledAt c.center := hs c.center (.tail _ (.head _))
  have himage : w.SettledAt (.mirrored o c.center q d) :=
    w.settled_closed.mirrored o hcenter hq (hd.settled w)
  exact .of_dot_eq hF hs hon himage rfl fun v _ h => dot_mirrored_at hF o hd h

private theorem diameterDrawn_image : w.DiameterDrawn F c q φ ⟨q, c.center.image o q⟩ := by
  have hI : F.interpretation.field.Exact φ := hF.toExact
  have hq : w.SettledAt q := hs q (.head _)
  have hcenter : w.SettledAt c.center := hs c.center (.tail _ (.head _))
  have himage : w.SettledAt (c.center.image o q) := w.settled_closed.image o hcenter hq
  constructor
  case toChordDrawn =>
    refine .of_dot_eq hF hs hon himage rfl fun v hv h => ?_
    -- The image is as far from the center as the point, in the opposite direction.
    intro ρ
    have hopposite : ρ (c.center.image o q) - ρ c.center = -(ρ q - ρ c.center) := by
      rw [show ρ _ = _ from place_image hF o h]
      abel
    rw [hopposite, dot_neg]
  case evaluates =>
    intro v hv hcvalues hqvalues x hx
    have hplace := hI.atPlace_image o (atPlace_at φ (hcvalues.evaluates hcenter hv))
      (atPlace_at φ (hqvalues.evaluates hq hv))
    exact (((himage.leads hv).evaluates hplace).1 x hx).value
  case sum =>
    intro v hv h ρ
    have himage : ρ (c.center.image o q) = ρ c.center + ρ c.center - ρ q :=
      place_image hF o (h.evaluates himage hv)
    change ρ q + ρ (c.center.image o q) = _
    rw [himage, add_sub_cancel]

private theorem tangentDrawn_perpendicularThrough :
    w.TangentDrawn F c q ((Line.mk c.center q).perpendicularThrough o q) := by
  let radius : Line α := ⟨c.center, q⟩
  let tangent := radius.perpendicularThrough o q
  have hq : w.SettledAt q := hs q (.head _)
  have hcenter : w.SettledAt c.center := hs c.center (.tail _ (.head _))
  have htangent : w.SettledAt tangent.b := settledAt_perpendicularThrough o hcenter hq hq
  have hpoints := Locates.of_holds F hs trivial nofun hon
  have hqvalues : w.HasCoordinates F q := fun x hx => (hpoints q (.head _) x hx).value
  have hcvalues : w.HasCoordinates F c.center :=
    fun x hx => (hpoints c.center (.tail _ (.head _)) x hx).value
  have hend {v : World α σ} (hv : w.Leads v) (hcv : v.HasCoordinates F c.center)
      (hqv : v.HasCoordinates F q) : let ρ := F.interpretation.place φ v
      v.Locates F (.perpendicular tangent radius) ∧
        ρ tangent.b - ρ q = turned (ρ q - ρ c.center) := by
    have hend := hqv.evaluates hq hv
    have hradius : ∀ x ∈ radius.scalars, v.Evaluates F x :=
      List.forall_mem_append.2 ⟨hcv.evaluates hcenter hv, hend⟩
    obtain ⟨htangent, hturned⟩ := place_perpendicularThrough hF.toExact hradius hend o
    exact ⟨locates_parallel htangent hradius, hturned⟩
  constructor
  case isThrowing => exact ⟨hqvalues.isThrowing, rfl⟩
  case located => exact ⟨hcvalues, hqvalues⟩
  case contains =>
    intro v hv hcv hqv
    obtain ⟨hlocates, -⟩ := hend hv hcv hqv
    have hb : v.HasCoordinates F tangent.b :=
      fun x hx => (hlocates tangent.b (.tail _ (.head _)) x hx).value
    refine stays_inLine_first (l := tangent) hF rfl hq htangent v hv ?_
    simp only [Relation.points, List.forall_mem_cons]
    exact ⟨hqv, hqv, hb, by simp⟩
  case perpendicular =>
    intro v hv hcv hqv
    obtain ⟨hlocates, hturned⟩ := hend hv hcv hqv
    let ρ := F.interpretation.place φ v
    have hzero : dot (ρ tangent.b - ρ q) (ρ q - ρ c.center) = 0 := by
      rw [hturned, dot_comm, dot_turned]
    exact (hF.holds_iff hlocates trivial).2 (iff_of_true rfl hzero)

end World

namespace World

variable (F : NumericField α σ) (w : World α σ) (c : Circle α) (q : Point α)

/-- Each construction returns what it is for. Only the chord draws something. -/
structure DrawsAt [Field K] (φ : α → K) : Prop where
  chord (o : Origin) : ∃ s u, F.interpretation.chordThrough o c q w = (s, u) ∧
    w.SameSources u ∧ u.ChordDrawn F c q s
  diameter (o : Origin) : ∃ s, F.interpretation.diameterThrough o c q w = (s, w) ∧
    w.DiameterDrawn F c q φ s
  tangent (o : Origin) : ∃ l, F.interpretation.tangentAt o c q w = (l, w) ∧
    w.TangentDrawn F c q l

/-- Each construction returns coordinates that raise the error, whichever is evaluated, and nothing
is drawn. -/
structure ThrowsAt (e : Error) : Prop where
  chord (o : Origin) : ∃ s, F.interpretation.chordThrough o c q w = (s, w) ∧
    ∀ x ∈ s.scalars, F.Raises e x
  diameter (o : Origin) : ∃ s, F.interpretation.diameterThrough o c q w = (s, w) ∧
    ∀ x ∈ s.scalars, F.Raises e x
  tangent (o : Origin) : ∃ l, F.interpretation.tangentAt o c q w = (l, w) ∧
    ∀ x ∈ l.scalars, F.Raises e x

variable {F w c q}

private theorem throwsAt {e : Error}
    (h : F.interpretation.violation (.inCircle q c) w = (some e, w)) :
    w.ThrowsAt F c q e := by
  constructor <;> intro o
  case chord => exact ⟨_, (Interpretation.throwing_apply o h).1, F.raises_throwingEnds e o⟩
  case diameter => exact ⟨_, (Interpretation.throwing_apply o h).2.1, F.raises_throwingEnds e o⟩
  case tangent => exact ⟨_, (Interpretation.throwing_apply o h).2.2, F.raises_throwingEnds e o⟩

variable [Field K] {φ : α → K} (hF : F.ExactEquality φ)
  (hs : ∀ p ∈ (Relation.inCircle q c).points, w.SettledAt p)

include hF hs

private theorem drawsAt (hon : F.interpretation.holds (.inCircle q c) w = (.ok true, w)) :
    w.DrawsAt F c q φ := by
  have hI : F.interpretation.field.Exact φ := hF.toExact
  have hV (u : World α σ) (t : σ) (hu : w.SameSources u) :
      w.SameSources { u with sampler := t } := hu
  have hcheck := Interpretation.violation_apply hon
  constructor <;> intro o
  case chord =>
    refine ⟨_, _, Interpretation.chordThrough_apply o hcheck, ?_⟩
    obtain ⟨hu, d, hd, hend⟩ := (hI.produces_mirrored hV o (q := q)).apply rfl (Prod.mk.eta.symm)
    refine ⟨hu, ?_⟩
    rw [hend]
    obtain ⟨r, hr⟩ := inert_holds F hs
    obtain rfl : r = .ok true := congrArg Prod.fst ((hr w rfl).symm.trans hon)
    exact chordDrawn_mirrored hF o (fun p hp => (hs p hp).leads hu.leads) (hr _ hu) hd
  case diameter =>
    exact ⟨_, Interpretation.diameterThrough_apply o hcheck, diameterDrawn_image hF o hs hon⟩
  case tangent =>
    exact ⟨_, Interpretation.tangentAt_apply o hcheck,
      tangentDrawn_perpendicularThrough hF o hs hon⟩

private theorem drawsAt_or_throwsAt :
    ∃ answer, F.interpretation.holds (.inCircle q c) w = (answer, w) ∧
    (answer = .ok true → w.DrawsAt F c q φ) ∧
      (answer = .ok false → w.ThrowsAt F c q (.precondition (Relation.inCircle q c).text)) ∧
        ∀ e, answer = .error e → w.ThrowsAt F c q e := by
  obtain ⟨answer, hanswer⟩ := inert_holds F hs
  have hholds := hanswer w rfl
  have hcheck := Interpretation.violation_apply hholds
  refine ⟨answer, hholds, ?_, ?_, ?_⟩
  · rintro rfl
    exact drawsAt hF hs hholds
  · rintro rfl
    exact throwsAt hcheck
  · rintro e rfl
    exact throwsAt hcheck

end World

/-- Over a prime field, whatever is drawn, a chord, a diameter and a tangent at a point of a circle
are what they are meant to be if the test at construction says that the point is on the circle. If
it says that it is not, or fails, then all coordinates raise the violation or the error of the
test from then on. -/
theorem Residues.throughPoint_drawn_or_thrown {p : UInt64} [Fact p.toNat.Prime]
    (hlt : p.toNat < 2 ^ 32) {σ : Type} {F : NumericField UInt64 σ} (hF : Modular p F)
    {w : World UInt64 σ} {c : Circle UInt64} {q : Point UInt64}
    (hs : ∀ s ∈ [q, c.center, c.rim], w.SettledAt s) :
    ∃ answer, F.interpretation.holds (.inCircle q c) w = (answer, w) ∧
      (answer = .ok true → w.DrawsAt F c q (residue p)) ∧
        (answer = .ok false → w.ThrowsAt F c q (.precondition (Relation.inCircle q c).text)) ∧
          ∀ e, answer = .error e → w.ThrowsAt F c q e :=
  World.drawsAt_or_throwsAt (hF.exactEquality hlt) hs

namespace Specimen

open Residues

/-- The anchor is on this circle. -/
def circleAroundOrigin : Circle UInt64 :=
  .through ⟨41, []⟩ (.ofValues ⟨42, []⟩ 0 0) (.ofValues ⟨43, []⟩ 3 2)

def pointOneOne : Point UInt64 := .ofValues ⟨44, []⟩ 1 1

theorem throughPoint_drawn_or_thrown_circleAroundOrigin :
    figureA.DrawsAt moduloSeven circleAroundOrigin pointA (residue 7) ∧
      figureA.ThrowsAt moduloSeven circleAroundOrigin pointOneOne
        (.precondition (Relation.inCircle pointOneOne circleAroundOrigin).text) := by
  constructor
  · obtain ⟨answer, hanswer, hdrawn, -⟩ := throughPoint_drawn_or_thrown (p := 7) (by decide)
      modular_moduloSeven (w := figureA) (c := circleAroundOrigin) (q := pointA) (by decide +kernel)
    have htrue : (moduloSeven.interpretation.holds (.inCircle pointA circleAroundOrigin)
        figureA).1.toOption = some true := by decide +kernel
    rw [hanswer] at htrue
    exact hdrawn (congrArg Prod.fst (Eval.eq_ok_of_toOption htrue))
  · obtain ⟨answer, hanswer, -, hthrown, -⟩ := throughPoint_drawn_or_thrown (p := 7) (by decide)
      modular_moduloSeven (w := figureA) (c := circleAroundOrigin) (q := pointOneOne)
      (by decide +kernel)
    have hfalse : (moduloSeven.interpretation.holds (.inCircle pointOneOne circleAroundOrigin)
        figureA).1.toOption = some false := by decide +kernel
    rw [hanswer] at hfalse
    exact hthrown (congrArg Prod.fst (Eval.eq_ok_of_toOption hfalse))

end Specimen
end PlaneGeometry
