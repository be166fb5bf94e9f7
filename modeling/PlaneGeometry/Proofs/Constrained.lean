import PlaneGeometry.Proofs.NoteTaking

/-!
# Dynamic objects obey their rules

The probe tests a sample by leaves, before it is stored. Callers test the live point, through reads
that probe again. Where notes answer the reads the two points have the same values, so the two tests
differ only where structural equality spares an evaluation.
-/
namespace PlaneGeometry

variable {α σ τ : Type} [Element α]

namespace Interpretation

variable (I : Interpretation α σ)

/-- The coordinates are evaluated in the same way. -/
def SameValues (v w : Vect α) : Prop := v.map (Scalar.value I) = w.map (Scalar.value I)

variable {I}

theorem sameValues_pair {a b a' b' : Scalar α} :
    I.SameValues [a, b] [a', b'] ↔ a.value I = a'.value I ∧ b.value I = b'.value I := by
  simp [SameValues]

namespace SameValues

variable {v w : Vect α} (h : I.SameValues v w)

theorem refl (v : Vect α) : I.SameValues v v := rfl

include h

theorem values : Scalar.value.values I v = Scalar.value.values I w := by
  induction v generalizing w with
  | nil =>
    cases w with
    | nil => rfl
    | cons y w => cases h
  | cons x v ih =>
    cases w with
    | nil => cases h
    | cons y w =>
      obtain ⟨hx, hv⟩ := List.cons.inj h
      simp only [Scalar.value.values, hx, ih hv]

theorem sum (o : Origin) : (Scalar.sum o v).value I = (Scalar.sum o w).value I := by
  simp only [Scalar.value, h.values]

theorem product (o : Origin) : (Scalar.product o v).value I = (Scalar.product o w).value I := by
  simp only [Scalar.value, h.values]

end SameValues

private theorem value_diff {a b a' b' : Scalar α} (ha : a.value I = a'.value I)
    (hb : b.value I = b'.value I) (o : Origin) :
    (Scalar.diff o a b).value I = (Scalar.diff o a' b').value I := by
  simp only [Scalar.value, ha, hb]

private theorem value_times {a b a' b' : Scalar α} (ha : a.value I = a'.value I)
    (hb : b.value I = b'.value I) (o : Origin) :
    (Scalar.times o a b).value I = (Scalar.times o a' b').value I :=
  SameValues.product (sameValues_pair.2 ⟨ha, hb⟩) o

private theorem value_squared {a a' : Scalar α} (ha : a.value I = a'.value I) (o : Origin) :
    (Scalar.squared o a).value I = (Scalar.squared o a').value I :=
  SameValues.product (sameValues_pair.2 ⟨ha, ha⟩) o

private theorem value_plus {a b a' b' : Scalar α} (ha : a.value I = a'.value I)
    (hb : b.value I = b'.value I) (o : Origin) :
    (Scalar.plus o a b).value I = (Scalar.plus o a' b').value I :=
  SameValues.sum (sameValues_pair.2 ⟨ha, hb⟩) o

theorem SameValues.towards {p q : Point α} (h : I.SameValues p.vect q.vect) (o : Origin)
    (c : Point α) : I.SameValues (c.towards o p).vect (c.towards o q).vect := by
  obtain ⟨hx, hy⟩ := sameValues_pair.1 h
  exact sameValues_pair.2 ⟨value_diff hx rfl _, value_diff hy rfl _⟩

section

variable {d d' e e' : Displacement α} (hd : I.SameValues d.vect d'.vect)
  (he : I.SameValues e.vect e'.vect) (o : Origin)

include hd he

private theorem value_dot : (d.dot o e).value I = (d'.dot o e').value I := by
  obtain ⟨hdx, hdy⟩ := sameValues_pair.1 hd
  obtain ⟨hex, hey⟩ := sameValues_pair.1 he
  exact SameValues.sum (sameValues_pair.2 ⟨value_times hdx hex _, value_times hdy hey _⟩) o

private theorem value_cross : (d.cross o e).value I = (d'.cross o e').value I := by
  obtain ⟨hdx, hdy⟩ := sameValues_pair.1 hd
  obtain ⟨hex, hey⟩ := sameValues_pair.1 he
  exact value_diff (value_times hdx hey _) (value_times hdy hex _) o

private theorem value_squares :
    (Relation.magnitude.squares o d e).value I = (Relation.magnitude.squares o d' e').value I :=
  value_times (value_dot hd hd _) (value_dot he he _) o

end

section

variable {p q : Point α} (h : I.SameValues p.vect q.vect)

include h

private theorem value_normSquared (o o' : Origin) (c : Point α) :
    ((c.towards o p).normSquared o').value I = ((c.towards o q).normSquared o').value I :=
  value_dot (h.towards o c) (h.towards o c) o'

private theorem vanishes_inLine (l : Line α) :
    I.vanishes (.inLine p l) = I.vanishes (.inLine q l) := by
  have hp := h.towards (Origin.scratch.part 2) l.a
  have hr := value_cross hp (.refl (l.direction (Origin.scratch.part 3)).vect) .scratch
  have hm := value_squares hp (.refl (l.direction (Origin.scratch.part 3)).vect) .scratch
  simp only [vanishes, value, Relation.residual, Relation.magnitude]
  rw [hr, hm]

private theorem vanishes_inSegment (s : Segment α) :
    I.vanishes (.inSegment p s) = I.vanishes (.inSegment q s) := by
  have hp := h.towards (Origin.scratch.part 2) s.a
  have hr := value_cross hp (.refl (s.a.towards (Origin.scratch.part 3) s.b).vect) .scratch
  have hm := value_squares hp (.refl (s.a.towards (Origin.scratch.part 3) s.b).vect) .scratch
  simp only [vanishes, value, Relation.residual, Relation.magnitude]
  rw [hr, hm]

private theorem vanishes_inCircle (c : Circle α) :
    I.vanishes (.inCircle p c) = I.vanishes (.inCircle q c) := by
  have hr := value_diff (value_normSquared h (Origin.scratch.part 2) (Origin.scratch.part 0)
    c.center) (rfl : (c.radiusSquared (Origin.scratch.part 1)).value I = _) .scratch
  have hn := value_normSquared h (Origin.scratch.part 2) (Origin.scratch.part 3) c.center
  have hm := value_squared (value_plus hn
    (rfl : (c.radiusSquared (Origin.scratch.part 4)).value I = _) (Origin.scratch.part 0)) .scratch
  simp only [vanishes, value, Relation.residual, Relation.magnitude]
  rw [hr, hm]

private theorem radialOrder_same (c : Circle α) : I.radialOrder p c = I.radialOrder q c := by
  have hn := value_normSquared h .scratch .scratch c.center
  simp only [radialOrder, value]
  rw [hn]

end

end Interpretation

namespace Scalar

private theorem eqv_leaf {o : Origin} {v : α} {b : Scalar α} (hb : b.origin.serial ≠ o.serial)
    (h : (leaf o v).eqv b = true) : ∃ o' v', b = leaf o' v' ∧ Element.eqv v v' = true := by
  cases b with
  | leaf o' v' =>
    refine ⟨o', v', rfl, ?_⟩
    have hne : leaf o v ≠ leaf o' v' := by
      intro he
      cases he
      exact hb rfl
    simp only [eqv, hne, decide_false, Bool.false_or, Bool.and_eq_true] at h
    exact h.2
  | _ => simp [eqv] at h

private theorem leaf_eqv {o : Origin} {v : α} {b : Scalar α} (hb : b.origin.serial ≠ o.serial)
    (h : b.eqv (leaf o v) = true) : ∃ o' v', b = leaf o' v' ∧ Element.eqv v' v = true := by
  cases b with
  | leaf o' v' =>
    refine ⟨o', v', rfl, ?_⟩
    have hne : leaf o' v' ≠ leaf o v := by
      intro he
      cases he
      exact hb rfl
    simp only [eqv, hne, decide_false, Bool.false_or, Bool.and_eq_true] at h
    exact h.2
  | _ => simp [eqv] at h

private theorem eqv_live {o : Origin} {i : SourceId} {label : String} {k : Nat} {b : Scalar α}
    (hb : i ∉ b.sources) : (live o i label k).eqv b = false := by
  cases b with
  | live o' j label' k' =>
    have hij : i ≠ j := by simpa [sources] using hb
    simp [eqv, hij]
  | _ => simp [eqv]

private theorem live_eqv {o : Origin} {i : SourceId} {label : String} {k : Nat} {b : Scalar α}
    (hb : i ∉ b.sources) : b.eqv (live o i label k) = false := by
  cases b with
  | live o' j label' k' =>
    have hij : j ≠ i := by simpa [sources, eq_comm] using hb
    simp [eqv, hij]
  | _ => simp [eqv]

end Scalar

namespace Interpretation

variable {I : Interpretation α σ}

/-- Nodes with the same values are equal to the same ones, if structural equality spares only the
evaluation of leaves that are the same. -/
theorem equals_congr {a b a' b' : Scalar α} (ha : a.value I = a'.value I)
    (hb : b.value I = b'.value I) (hne : a'.eqv b' = false)
    (hleaf : a.eqv b = true → ∃ o x o' y, a = .leaf o x ∧ b = .leaf o' y ∧
      I.field.same x y = true) : I.equals a b = I.equals a' b' := by
  have hne' : ¬ a'.eqv b' = true := by simp [hne]
  unfold equals
  rw [if_neg hne']
  by_cases he : a.eqv b = true
  · obtain ⟨o, x, o', y, rfl, rfl, hxy⟩ := hleaf he
    rw [if_pos he]
    simp only [value, ← ha, ← hb]
    change pure true = (return I.field.same x y : Eval α σ Bool)
    rw [hxy]
  · rw [if_neg he]
    simp only [value, ha, hb]

private theorem samePoint_congr {p q p' q' : Point α} (hx : I.equals p.x q.x = I.equals p'.x q'.x)
    (hy : I.equals p.y q.y = I.equals p'.y q'.y) : I.samePoint p q = I.samePoint p' q' := by
  change I.vectEquals [p.x, p.y] [q.x, q.y] = I.vectEquals [p'.x, p'.y] [q'.x, q'.y]
  simp only [vectEquals, vectEquals.go, hx, hy]
  rfl

variable {i : SourceId} {v : α × α}
  (hsame : ∀ x y, Element.eqv x y = true → I.field.same x y = true)
  (hread : I.read i = return v) (o : Origin) (label : String)

include hread

private theorem sameValues_live :
    I.SameValues (Point.ofValues .scratch v.1 v.2).vect (Point.live o i label).vect := by
  refine sameValues_pair.2 ⟨?_, ?_⟩ <;>
    simp only [Point.ofValues, Point.live, Scalar.value, hread] <;> rfl

include hsame

private theorem samePoint_ofValues {p : Point α}
    (hp : ∀ x ∈ p.vect, x.origin.serial ≠ 0 ∧ i ∉ x.sources) :
    I.samePoint (.ofValues .scratch v.1 v.2) p = I.samePoint (.live o i label) p := by
  obtain ⟨hx, hy⟩ := sameValues_pair.1 (sameValues_live hread o label)
  have hequals {k : Nat} {x : α} {a b : Scalar α} (ha : (Scalar.leaf (.part .scratch k) x).value I =
      a.value I) (hb : b.origin.serial ≠ 0) (hab : a.eqv b = false) :
      I.equals (.leaf (.part .scratch k) x) b = I.equals a b := by
    apply equals_congr ha rfl hab
    intro he
    obtain ⟨o', y, rfl, hxy⟩ := Scalar.eqv_leaf (o := .part .scratch k) hb he
    exact ⟨_, x, o', y, rfl, rfl, hsame x y hxy⟩
  simp only [Point.vect, List.forall_mem_cons] at hp
  apply samePoint_congr
  · exact hequals hx hp.1.1 (Scalar.eqv_live hp.1.2)
  · exact hequals hy hp.2.1.1 (Scalar.eqv_live hp.2.1.2)

private theorem ofValues_samePoint {p : Point α}
    (hp : ∀ x ∈ p.vect, x.origin.serial ≠ 0 ∧ i ∉ x.sources) :
    I.samePoint p (.ofValues .scratch v.1 v.2) = I.samePoint p (.live o i label) := by
  obtain ⟨hx, hy⟩ := sameValues_pair.1 (sameValues_live hread o label)
  have hequals {k : Nat} {x : α} {a b : Scalar α} (ha : (Scalar.leaf (.part .scratch k) x).value I =
      a.value I) (hb : b.origin.serial ≠ 0) (hba : b.eqv a = false) :
      I.equals b (.leaf (.part .scratch k) x) = I.equals b a := by
    apply equals_congr rfl ha hba
    intro he
    obtain ⟨o', y, rfl, hyx⟩ := Scalar.leaf_eqv (o := .part .scratch k) hb he
    exact ⟨o', y, _, x, rfl, rfl, hsame y x hyx⟩
  simp only [Point.vect, List.forall_mem_cons] at hp
  apply samePoint_congr
  · exact hequals hx hp.1.1 (Scalar.live_eqv hp.1.2)
  · exact hequals hy hp.2.1.1 (Scalar.live_eqv hp.2.1.2)

/-- A constraint admits the leaves of a sample as it admits the live point. -/
theorem admits_ofValues {c : Constraint α}
    (hc : ∀ x ∈ c.scalars, x.origin.serial ≠ 0 ∧ i ∉ x.sources) :
    I.admits (.ofValues .scratch v.1 v.2) c = I.admits (.live o i label) c := by
  have hv := sameValues_live hread o label
  cases c with
  | free => rfl
  | inLine l => exact vanishes_inLine hv l
  | outsideLine l =>
    have hl := vanishes_inLine hv l
    change (do return !(← I.vanishes _)) = (do return !(← I.vanishes _) : Eval α σ Bool)
    rw [hl]
  | inSegment s =>
    have hs := samePoint_ofValues hsame hread o label (List.forall_mem_append.1 hc).1
    have hd := value_dot (hv.towards .scratch s.a) (.refl (s.a.towards .scratch s.b).vect) .scratch
    change I.inSegment _ s = I.inSegment _ s
    simp only [inSegment, value]
    rw [hs, vanishes_inSegment hv s, hd]
  | inCircle c => exact vanishes_inCircle hv c
  | insideCircle c | outsideCircle c =>
    have hr := radialOrder_same hv c
    simp only [admits]
    rw [hr]

end Interpretation

namespace NumericField

/-- Sources answer what the notes say, whatever the world. -/
def answers (F : NumericField α σ) (ρ : Notes α) : Interpretation α σ where
  field := F
  read i := match ρ i with
    | some v => return v
    | none => throw (.unknownSource i)

private theorem answers_read {F : NumericField α σ} {ρ : Notes α} {i : SourceId} {v : α × α}
    (h : ρ i = some v) : (F.answers ρ).read i = return v := by
  simp only [answers, h]

variable {F : NumericField α σ} {ρ : Notes α} {u : World α σ}

private theorem forces_answers (i : SourceId) :
    Forces ⟨ρ, #[]⟩ u (F.remembered.read i) ((F.answers ρ).read i) := by
  intro v u' h
  obtain ⟨rfl, hi⟩ := F.remembered_read_ok h
  rw [answers_read hi]
  exact ⟨rfl, rfl⟩

namespace Holds

variable (h : F.Holds ρ u) (ho : u.Ordered)

include h ho

private theorem answers_forces (i : SourceId) :
    Forces u u ((F.answers ρ).read i) (F.read i) := by
  intro v u' hv
  cases hi : ρ i with
  | none =>
    simp only [answers, hi] at hv
    cases hv
  | some p =>
    rw [answers_read hi] at hv
    cases hv
    have hnote := (F.remembered_read hi).self #[]
    exact ⟨rfl, (h.read ho (.refl F) (fun _ => rfl) i v _ hnote).2⟩

variable (hsame : ∀ x y, Element.eqv x y = true → F.same x y = true) (hb : u.RulesBuilt)
  {i : SourceId} {v : α × α} (hi : ρ i = some v)

include hi

private theorem read_ok : F.read i u = (.ok v, u) :=
  (h.answers_forces ho i v u (by rw [answers_read hi]; rfl)).2

private theorem point_live (o : Origin) (label : String) :
    F.interpretation.point (.live o i label) u = (.ok v, u) := by
  have hr := h.read_ok ho hi
  have hx : F.interpretation.value (.live (o.part 0) i label 0) u = (.ok v.1, u) :=
    Eval.bind_ok hr fun p => liftM (liveCoordinate label p 0)
  have hy : F.interpretation.value (.live (o.part 1) i label 1) u = (.ok v.2, u) :=
    Eval.bind_ok hr fun p => liftM (liveCoordinate label p 1)
  change (F.interpretation.value _ >>= fun x => F.interpretation.value _ >>= fun y => pure (x, y)) u
    = _
  rw [Point.live, Eval.bind_ok hx, Eval.bind_ok hy]
  rfl

omit ho in
theorem sample {label : String} {r : Rule α} {c : Option (α × α)}
    (hs : u.source? i = some (.dynamic label r c)) : u.sample i = some v := by
  obtain ⟨s, hs', -, hv⟩ := h i v hi
  obtain rfl := Option.some.inj (hs.symm.trans hs')
  rw [World.sample_of_source? hs, hv.1]

omit ho in
/-- The sample of a noted source is probed successfully under the answers of the notes. -/
theorem answers_probe {label : String} {r : Rule α} {c : Option (α × α)}
    (hs : u.source? i = some (.dynamic label r c)) :
    (F.answers ρ).probe v r u = (.ok true, u) := by
  obtain ⟨s, hs', hd, hv⟩ := h i v hi
  obtain rfl := Option.some.inj (hs.symm.trans hs')
  have hforces : ∀ x ∈ r.scalars,
      Forces ⟨ρ, #[]⟩ u (x.value F.remembered) (x.value (F.answers ρ)) := by
    intro x hx
    exact (Forces.simulation _ u).value (I := F.remembered) (J := F.answers ρ)
      (NumericField.Agrees.refl F).muted (.inl (hd x hx)) fun j _ => forces_answers j
  exact ((Forces.simulation _ u).probe (I := F.remembered) (J := F.answers ρ)
    (NumericField.Agrees.refl F).muted v hforces true _ (hv.2.self #[])).2

omit hi in
theorem forces_value {x : Scalar α} (hx : x.isDeterministic = true) :
    Forces u u (x.value (F.answers ρ)) (x.value F.interpretation) :=
  (Forces.simulation u u).value (I := F.answers ρ) (J := F.interpretation) (.refl F) (.inl hx)
    fun j _ => h.answers_forces ho j

omit hi in
theorem forces_live (o : Origin) (label : String) : ∀ x ∈ (Point.live o i label : Point α).vect,
    Forces u u (x.value (F.answers ρ)) (x.value F.interpretation) := by
  intro x hx
  refine h.forces_value ho ?_
  simp only [Point.vect, Point.live, List.mem_cons, List.not_mem_nil, or_false] at hx
  rcases hx with rfl | rfl <;> rfl

include hsame hb

private theorem admits_live {label : String} {c : Constraint α} {s : Option (α × α)}
    (hs : u.source? i = some (.dynamic label (.within c) s)) (o : Origin) (label' : String) :
    F.interpretation.admits (.live o i label') c u = (.ok true, u) := by
  have hprobe := h.answers_probe hi hs
  have hc : ∀ x ∈ c.scalars, x.origin.serial ≠ 0 ∧ i ∉ x.sources := by
    intro x hx
    refine ⟨hb i label _ s hs x hx, fun hmem => ?_⟩
    exact Nat.lt_irrefl i (ho i i ⟨_, hs, x, hx, hmem⟩)
  change (F.answers ρ).admits _ c u = _ at hprobe
  rw [Interpretation.admits_ofValues hsame (answers_read hi) o label' hc] at hprobe
  obtain ⟨s', hs', hd, -⟩ := h i v hi
  obtain rfl := Option.some.inj (hs.symm.trans hs')
  exact ((Forces.simulation u u).admits (I := F.answers ρ) (J := F.interpretation) (.refl F)
    (h.forces_live ho o label') (fun x hx => h.forces_value ho (hd x hx)) true u hprobe).2

private theorem apart_live {label : String} {q : Point α} {s : Option (α × α)}
    (hs : u.source? i = some (.dynamic label (.awayFrom q) s)) (o : Origin) (label' : String) :
    F.interpretation.samePoint q (.live o i label') u = (.ok false, u) := by
  have hprobe := h.answers_probe hi hs
  have hq : ∀ x ∈ q.vect, x.origin.serial ≠ 0 ∧ i ∉ x.sources := by
    intro x hx
    refine ⟨hb i label _ s hs x hx, fun hmem => ?_⟩
    exact Nat.lt_irrefl i (ho i i ⟨_, hs, x, hx, hmem⟩)
  obtain ⟨equal, w, hequal, hnot⟩ := Eval.bind_eq_ok hprobe
  cases equal with
  | true => cases hnot
  | false =>
    cases hnot
    rw [Interpretation.ofValues_samePoint hsame (answers_read hi) o label' hq] at hequal
    obtain ⟨s', hs', hd, -⟩ := h i v hi
    obtain rfl := Option.some.inj (hs.symm.trans hs')
    exact ((Forces.simulation u u).samePoint (I := F.answers ρ) (J := F.interpretation) (.refl F)
      (fun x hx => h.forces_value ho (hd x hx)) (h.forces_live ho o label') false u hequal).2

end Holds

private theorem exists_note {w₀ w : World α σ} (ho : w₀.Ordered) {i : SourceId}
    (hq : w₀.QuietSource i) (hw : w₀.SameShape w) {v : α × α} (h : F.read i w = (.ok v, u)) :
    w₀.SameShape u ∧ ∃ ρ, F.Holds ρ u ∧ ρ i = some v := by
  obtain ⟨ρ, -, hs, hρ, hv⟩ := F.read_noting ho hq w _ hw (F.holds_empty w)
  rw [h] at hs hρ hv
  exact ⟨hs, ρ, hρ, (F.remembered_read_ok ((hv v rfl).self #[])).2⟩

end NumericField

namespace NumericField

variable {F : NumericField α σ} {w u : World α σ} {i : SourceId}

private theorem read_of_value_live {o : Origin} {label : String} {k : Nat} {x : α}
    (h : F.interpretation.value (.live o i label k) w = (.ok x, u)) :
    ∃ v, F.read i w = (.ok v, u) := by
  obtain ⟨v, u', hv, hx⟩ := Eval.bind_eq_ok h
  cases hc : liveCoordinate label v k with
  | error e => rw [hc] at hx; cases hx
  | ok y => rw [hc] at hx; cases hx; exact ⟨v, hv⟩

private theorem read_of_point_live {o : Origin} {label : String} {p : α × α}
    (h : F.interpretation.point (.live o i label) w = (.ok p, u)) :
    ∃ w', w.SameShape w' ∧ ∃ v, F.read i w' = (.ok v, u) := by
  obtain ⟨x, w₁, hx, hrest⟩ := Eval.bind_eq_ok h
  obtain ⟨y, w₂, hy, hpure⟩ := Eval.bind_eq_ok hrest
  cases hpure
  have hs : w.SameShape (F.interpretation.value (.live (o.part 0) i label 0) w).2 :=
    F.value_sameShape _ w
  have hx' : F.interpretation.value (.live (o.part 0) i label 0) w = (.ok x, w₁) := hx
  rw [hx'] at hs
  exact ⟨w₁, hs, read_of_value_live hy⟩

variable (hsame : ∀ x y, Element.eqv x y = true → F.same x y = true) {w₀ : World α σ}
  (ho : w₀.Ordered) (hb : w₀.RulesBuilt) (hw : w₀.SameShape w)

include hsame ho hb hw

private theorem point_obeys {d : DynamicPoint α} (hd : d.In w₀) (hq : w₀.QuietSource d.source)
    {v : α × α} (h : F.read d.source w = (.ok v, u)) : u.sample d.source = some v ∧ ∀ o,
      F.interpretation.point (d.point o) u = (.ok v, u) ∧
        F.interpretation.admits (d.point o) d.constraint u = (.ok true, u) := by
  obtain ⟨hu, ρ, hρ, hv⟩ := exists_note ho hq hw h
  obtain ⟨s, hs⟩ := hd
  obtain ⟨s', hs'⟩ := hu.dynamic hs
  have huo := hu.ordered ho
  refine ⟨hρ.sample hv hs', fun o => ⟨hρ.point_live huo hv o d.label, ?_⟩⟩
  exact hρ.admits_live huo hsame (hu.rulesBuilt hb) hv hs' o d.label

private theorem line_obeys {d : DynamicLine α} (hd : d.In w₀) (hq : w₀.QuietSource d.source)
    {v : α × α} (h : F.read d.source w = (.ok v, u)) (o : Origin) :
    F.interpretation.holds (.samePoint (d.line o).a (d.line o).b) u = (.ok false, u) := by
  obtain ⟨hu, ρ, hρ, hv⟩ := exists_note ho hq hw h
  obtain ⟨s, hs⟩ := hd
  obtain ⟨s', hs'⟩ := hu.dynamic hs
  exact hρ.apart_live (hu.ordered ho) hsame (hu.rulesBuilt hb) hv hs' o d.label

end NumericField

/-- A dynamic point that does not come to sample in what its constraint reads obeys the constraint
once it has been read or drawn anew: its sample is the result, the live point has the coordinates of
the sample, and the constraint admits the live point. The second point of a dynamic line that has
been read is apart from the first. The field has to take equal elements to be the same. -/
theorem World.Reachable.obeys (F : NumericField α σ)
    (hsame : ∀ x y, Element.eqv x y = true → F.same x y = true) {w u : World α σ}
    (hw : w.Reachable) :
    (∀ d : DynamicPoint α, d.In w → w.QuietSource d.source → ∀ x y,
      d.position F w = (.ok (x, y), u) ∨ d.resample F w = (.ok (x, y), u) →
        u.sample d.source = some (x, y) ∧ ∀ o,
          F.interpretation.point (d.point o) u = (.ok (x, y), u) ∧
            F.interpretation.admits (d.point o) d.constraint u = (.ok true, u)) ∧
    (∀ d : DynamicLine α, d.In w → w.QuietSource d.source →
      (∃ p, F.read d.source w = (.ok p, u)) ∨
        (∃ o p, F.interpretation.point (d.line o).b w = (.ok p, u)) ∨
        (∃ o l, d.resample F o w = (.ok l, u)) →
      ∀ o, F.interpretation.holds (.samePoint (d.line o).a (d.line o).b) u = (.ok false, u)) := by
  have ho := hw.ordered
  have hb := hw.rulesBuilt
  constructor
  · intro d hd hq x y h
    rcases h with h | h
    · exact NumericField.point_obeys hsame ho hb (.refl w) hd hq h
    · have hi := SameShape.withSample w d.source none
      exact NumericField.point_obeys hsame ho hb hi hd hq h
  · rintro d hd hq (⟨p, h⟩ | ⟨o', p, h⟩ | ⟨o', l, h⟩) o
    · exact NumericField.line_obeys hsame ho hb (.refl w) hd hq h o
    · obtain ⟨w', hs, v, hv⟩ := NumericField.read_of_point_live h
      exact NumericField.line_obeys hsame ho hb hs hd hq hv o
    · have hi := SameShape.withSample w d.source none
      obtain ⟨v, w', hv, hl⟩ := Eval.bind_eq_ok
        (show (F.read d.source >>= fun _ => pure (d.line o')) (w.update d.source _) = _ from h)
      cases hl
      exact NumericField.line_obeys hsame ho hb hi hd hq hv o

namespace Specimen

private theorem same_of_eqv (x y : UInt64) (h : Element.eqv x y = true) :
    scriptedSeven.same x y = true := by
  have hxy : x = y := by simpa [Element.eqv] using h
  subst hxy
  simp [scriptedSeven, Script.field, Residues.ofPrime, Residues.same]

theorem obeys_figureMoved :
    scriptedSeven.interpretation.admits (pointOnAB.point ⟨7, []⟩) pointOnAB.constraint
        (scriptedSeven.read 2 figureMoved).2 = (.ok true, (scriptedSeven.read 2 figureMoved).2) ∧
      scriptedSeven.interpretation.holds
          (.samePoint (lineThroughP.line ⟨8, []⟩).a (lineThroughP.line ⟨8, []⟩).b)
          (scriptedSeven.read 3 figureMoved).2 =
        (.ok false, (scriptedSeven.read 3 figureMoved).2) := by
  have hquiet (i : SourceId) : figureMoved.QuietSource i := World.quietSource (by decide +kernel)
  have hpoint : (scriptedSeven.read 2 figureMoved).1.toOption = some (5, 4) := by decide +kernel
  have hline : (scriptedSeven.read 3 figureMoved).1.toOption = some (1, 6) := by decide +kernel
  have hp := (reachable_figureMoved.obeys scriptedSeven same_of_eqv).1 pointOnAB
    pointOnAB_in_figureMoved (hquiet 2) 5 4
    (.inl (Eval.eq_ok_of_toOption hpoint))
  have hl := (reachable_figureMoved.obeys scriptedSeven same_of_eqv).2 lineThroughP
    lineThroughP_in_figureMoved (hquiet 3)
    (.inl ⟨(1, 6), Eval.eq_ok_of_toOption hline⟩) ⟨8, []⟩
  exact ⟨(hp.2 ⟨7, []⟩).2, hl⟩

end Specimen
end PlaneGeometry
