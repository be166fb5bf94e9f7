import PlaneGeometry.Field.Residues
import PlaneGeometry.Field.Scripted
import PlaneGeometry.Proofs.Dependence
import PlaneGeometry.World.Objects

/-!
# The worlds that callers can reach

A caller creates anchors and dynamic objects out of expressions built so far, moves, invalidates,
resamples, reads and evaluates. Main statement: no source ever comes to depend on itself, so
evaluation ends.
-/
namespace PlaneGeometry

variable {α σ : Type} [Element α]

/-- An expression that a caller has built when there are `n` sources. Acts of building are numbered
from one, zero being for expressions that are dropped at once, and live nodes name some of the
sources. -/
structure Scalar.BuiltBefore (n : Nat) (x : Scalar α) : Prop where
  serial : x.origin.serial ≠ 0
  sources : ∀ i ∈ x.sources, i < n

instance (n : Nat) (x : Scalar α) : Decidable (x.BuiltBefore n) :=
  decidable_of_iff (x.origin.serial ≠ 0 ∧ ∀ i ∈ x.sources, i < n)
    ⟨fun h => ⟨h.1, h.2⟩, fun h => ⟨h.serial, h.sources⟩⟩

/-- What a caller does. The field may change from one operation to the next. Evaluation of
relations and constructions is made of evaluations of scalars, and draws outside of any expression
leave another state of the sampler. -/
inductive Operation (α σ : Type) [Element α] where
  | createAnchor (name : String) (p : Point α)
  | createPoint (label : String) (c : Constraint α)
  | createLine (label : String) (p : Point α)
  | moveTo (o : Origin) (a : Anchor) (x y : α)
  | moveToPoint (F : NumericField α σ) (o : Origin) (a : Anchor) (p : Point α)
  | moveBy (F : NumericField α σ) (o : Origin) (a : Anchor) (dx dy : α)
  | invalidatePoint (d : DynamicPoint α)
  | invalidateLine (d : DynamicLine α)
  | resamplePoint (F : NumericField α σ) (d : DynamicPoint α)
  | resampleLine (F : NumericField α σ) (o : Origin) (d : DynamicLine α)
  | read (F : NumericField α σ) (i : SourceId)
  | evaluate (F : NumericField α σ) (x : Scalar α)
  | sample (t : σ)

namespace Operation

/-- A failed operation leaves what it had done before it failed. -/
def run : Operation α σ → Act α σ Unit
  | createAnchor name p => do let _ ← Anchor.create name p
  | createPoint label c => do let _ ← DynamicPoint.create label c
  | createLine label p => do let _ ← DynamicLine.create label p
  | moveTo o a x y => a.moveTo o x y
  | moveToPoint F o a p => do let _ ← (a.moveToPoint F o p).run
  | moveBy F o a dx dy => do let _ ← (a.moveBy F o dx dy).run
  | invalidatePoint d => d.invalidate
  | invalidateLine d => d.invalidate
  | resamplePoint F d => do let _ ← (d.resample F).run
  | resampleLine F o d => do let _ ← (d.resample F o).run
  | read F i => do let _ ← (F.read i).run
  | evaluate F x => do let _ ← (F.interpretation.value x).run
  | sample t => modify fun w => { w with sampler := t }

/-- The handles and the live nodes of the arguments name sources among the first `n`. What is stored
has been built by the caller. -/
def Known (n : Nat) : Operation α σ → Prop
  | createAnchor _ p | createLine _ p => ∀ x ∈ p.vect, x.BuiltBefore n
  | createPoint _ c => ∀ x ∈ c.scalars, x.BuiltBefore n
  | moveTo _ a _ _ | moveBy _ _ a _ _ => a.source < n
  | moveToPoint _ _ a p => a.source < n ∧ ∀ x ∈ p.vect, ∀ i ∈ x.sources, i < n
  | invalidatePoint d | resamplePoint _ d => d.source < n
  | invalidateLine d | resampleLine _ _ d => d.source < n
  | read _ i => i < n
  | evaluate _ x => ∀ i ∈ x.sources, i < n
  | sample _ => True

instance decidableKnown (n : Nat) : (op : Operation α σ) → Decidable (op.Known n)
  | createAnchor _ p | createLine _ p =>
    inferInstanceAs (Decidable (∀ x ∈ p.vect, x.BuiltBefore n))
  | createPoint _ c => inferInstanceAs (Decidable (∀ x ∈ c.scalars, x.BuiltBefore n))
  | moveTo _ a _ _ | moveBy _ _ a _ _ => inferInstanceAs (Decidable (a.source < n))
  | moveToPoint _ _ a p =>
    inferInstanceAs (Decidable (a.source < n ∧ ∀ x ∈ p.vect, ∀ i ∈ x.sources, i < n))
  | invalidatePoint d | resamplePoint _ d => inferInstanceAs (Decidable (d.source < n))
  | invalidateLine d | resampleLine _ _ d => inferInstanceAs (Decidable (d.source < n))
  | read _ i => inferInstanceAs (Decidable (i < n))
  | evaluate _ x => inferInstanceAs (Decidable (∀ i ∈ x.sources, i < n))
  | sample _ => inferInstanceAs (Decidable True)

def runAll : List (Operation α σ) → World α σ → World α σ
  | [], w => w
  | op :: ops, w => runAll ops (op.run w).2

def KnownAll : List (Operation α σ) → World α σ → Prop
  | [], _ => True
  | op :: ops, w => op.Known w.sources.size ∧ KnownAll ops (op.run w).2

instance decidableKnownAll : (ops : List (Operation α σ)) → (w : World α σ) →
    Decidable (KnownAll ops w)
  | [], _ => inferInstanceAs (Decidable True)
  | op :: ops, w =>
    have := decidableKnownAll ops (op.run w).2
    inferInstanceAs (Decidable (op.Known w.sources.size ∧ KnownAll ops (op.run w).2))

end Operation

namespace World

/-- The second world is reached from the first by operations on expressions built so far. -/
def Leads (w u : World α σ) : Prop :=
  ∃ ops : List (Operation α σ), Operation.KnownAll ops w ∧ Operation.runAll ops w = u

/-- What every operation keeps, every run keeps. -/
theorem Leads.keeps {P : World α σ → Prop} {w u : World α σ} (h : w.Leads u) (hw : P w)
    (hstep : ∀ v (op : Operation α σ), op.Known v.sources.size → P v → P (op.run v).2) : P u := by
  obtain ⟨ops, hops, rfl⟩ := h
  induction ops generalizing w with
  | nil => exact hw
  | cons op ops ih => exact ih (hstep w op hops.1 hw) hops.2

theorem Leads.trans {w u v : World α σ} (h : w.Leads u) (h' : u.Leads v) : w.Leads v := by
  obtain ⟨ops, hops, rfl⟩ := h
  induction ops generalizing w with
  | nil => exact h'
  | cons op ops ih =>
    obtain ⟨all, hall, he⟩ := ih hops.2 h'
    exact ⟨op :: all, ⟨hops.1, hall⟩, he⟩

/-- Reached from a world without sources. -/
def Reachable (w : World α σ) : Prop := ∃ t, Leads ⟨t, #[]⟩ w

theorem Reachable.leads {w u : World α σ} (hw : w.Reachable) (h : w.Leads u) : u.Reachable := by
  obtain ⟨t, ht⟩ := hw
  exact ⟨t, ht.trans h⟩

theorem source?_addSource (w : World α σ) (s : Source α) (i : SourceId) :
    (addSource s w).2.source? i = if i = w.sources.size then some s else w.source? i := by
  simp [source?, addSource, Array.getElem?_push]

theorem source?_moveTo (w : World α σ) (o : Origin) (a : Anchor) (x y : α) (i : SourceId) :
    (a.moveTo o x y w).2.source? i =
      if a.source = i then (w.source? i).map (Source.withPosition (.ofValues o x y))
      else w.source? i :=
  source?_update w a.source i _

end World

namespace NumericField

variable (F : NumericField α σ)

theorem point_sameShape (p : Point α) (w : World α σ) :
    w.SameShape (F.interpretation.point p w).2 := by
  have h := (Alike.simulation w.SameShape).point (I := F.interpretation) (J := F.interpretation)
    (p := p) fun x _ u hu => ⟨rfl, hu.trans (F.value_sameShape x u), trivial⟩
  exact (h w (.refl w)).2.1

end NumericField

namespace World

/-- The rules of the dynamic sources are made of expressions that callers have built. -/
def RulesBuilt (w : World α σ) : Prop :=
  ∀ i label r c, w.source? i = some (.dynamic label r c) → ∀ x ∈ r.scalars, x.origin.serial ≠ 0

theorem SameShape.rulesBuilt {w u : World α σ} (h : w.SameShape u) (hw : w.RulesBuilt) :
    u.RulesBuilt := by
  intro i label r c hs
  obtain ⟨c', hc'⟩ := h.symm.dynamic hs
  exact hw i label r c' hc'

end World

namespace Operation

/-- Samples change, an anchor is moved to values, or a source is added to those that it reads. -/
inductive Outcome (w : World α σ) : World α σ → Prop where
  | samples {u : World α σ} : w.SameShape u → Outcome w u
  | moved {u : World α σ} (o : Origin) (a : Anchor) (x y : α) : w.SameShape u →
      Outcome w (a.moveTo o x y u).2
  | added {s : Source α} : (∀ x ∈ s.scalars, x.BuiltBefore w.sources.size) →
      Outcome w (World.addSource s w).2

/-- An anchor is moved only after the new position has been computed. -/
theorem Outcome.bind_moveTo {w : World α σ} {m : Eval α σ (α × α)} (hm : w.SameShape (m w).2)
    (o : Origin) (a : Anchor) (f : α × α → α × α) :
    Outcome w ((m >>= fun r => liftM (a.moveTo o (f r).1 (f r).2 : Act α σ Unit)) w).2 := by
  rw [Eval.bind_apply]
  rcases hr : m w with ⟨e | r, u⟩ <;> rw [hr] at hm
  · exact .samples hm
  · exact .moved o a _ _ hm

theorem outcome {w : World α σ} {op : Operation α σ} (hop : op.Known w.sources.size) :
    Outcome w (op.run w).2 := by
  cases op with
  | createAnchor name p => exact .added (s := .anchor name p) hop
  | createPoint label c => exact .added (s := .dynamic label (.within c) none) hop
  | createLine label p => exact .added (s := .dynamic label (.awayFrom p) none) hop
  | moveTo o a x y => exact .moved o a x y (.refl w)
  | moveToPoint F o a p => exact .bind_moveTo (F.point_sameShape p w) o a id
  | moveBy F o a dx dy =>
    exact .bind_moveTo (F.read_sameShape a.source w) o a fun r => (F.add r.1 dx, F.add r.2 dy)
  | invalidatePoint d => exact .samples (.withSample w d.source none)
  | invalidateLine d => exact .samples (.withSample w d.source none)
  | resamplePoint F d =>
    have hi := World.SameShape.withSample w d.source none
    exact .samples (hi.trans (F.read_sameShape d.source _))
  | resampleLine F o d =>
    have hi := World.SameShape.withSample w d.source none
    have hr := hi.trans (F.read_sameShape d.source _)
    refine .samples ?_
    change w.SameShape
      ((F.read d.source >>= fun _ => pure (d.line o)) (w.update d.source _)).2
    rw [Eval.bind_apply]
    rcases hm : F.read d.source (w.update d.source _) with ⟨e | p, u⟩ <;> rw [hm] at hr <;>
      exact hr
  | read F i => exact .samples (F.read_sameShape i w)
  | evaluate F x => exact .samples (F.value_sameShape x w)
  | sample t => exact .samples (.sampler w t)

end Operation

namespace Operation.Outcome

variable {w v : World α σ}

theorem ordered (h : Outcome w v) (hw : w.Ordered) : v.Ordered := by
  cases h with
  | samples hu => exact hu.ordered hw
  | @moved u o a x y hu =>
    have huo := hu.ordered hw
    intro i j hij
    obtain ⟨t, ht, z, hz, hj⟩ := hij
    rw [World.source?_moveTo] at ht
    split at ht
    · obtain ⟨s, hs, rfl⟩ := Option.map_eq_some_iff.1 ht
      cases s with
      | anchor name p =>
        have hz' : ∀ z ∈ (Point.ofValues o x y).vect, z.sources = [] := by
          simp [Point.ofValues, Point.vect, Scalar.sources]
        rw [hz' z hz] at hj
        cases hj
      | dynamic label r c => exact huo i j ⟨.dynamic label r c, hs, z, hz, hj⟩
    · exact huo i j ⟨t, ht, z, hz, hj⟩
  | @added s hs =>
    intro i j hij
    obtain ⟨t, ht, x, hx, hj⟩ := hij
    rw [World.source?_addSource] at ht
    split at ht
    · next hi =>
      cases ht
      rw [hi]
      exact (hs x hx).sources j hj
    · exact hw i j ⟨t, ht, x, hx, hj⟩

/-- A dynamic source may get another sample, but not another rule. -/
theorem dynamic (h : Outcome w v) {i : SourceId} {label : String} {r : Rule α}
    {c : Option (α × α)} (hs : w.source? i = some (.dynamic label r c)) :
    ∃ c', v.source? i = some (.dynamic label r c') := by
  cases h with
  | samples hu => exact hu.dynamic hs
  | moved o a x y hu =>
    obtain ⟨c', hc'⟩ := hu.dynamic hs
    refine ⟨c', ?_⟩
    rw [World.source?_moveTo, hc']
    split <;> rfl
  | added _ =>
    have hi : i ≠ w.sources.size := by
      rintro rfl
      simp [World.source?] at hs
    refine ⟨c, ?_⟩
    rw [World.source?_addSource, if_neg hi, hs]

theorem rulesBuilt (h : Outcome w v) (hw : w.RulesBuilt) : v.RulesBuilt := by
  cases h with
  | samples hu => exact hu.rulesBuilt hw
  | @moved u o a x y hu =>
    have hub := hu.rulesBuilt hw
    intro i label r c hs
    rw [World.source?_moveTo] at hs
    split at hs
    · obtain ⟨s, hs', he⟩ := Option.map_eq_some_iff.1 hs
      cases s with
      | anchor name p => cases he
      | dynamic label' r' c' =>
        cases he
        exact hub i label r c hs'
    · exact hub i label r c hs
  | added hb =>
    intro i label r c hs x hx
    rw [World.source?_addSource] at hs
    split at hs
    · cases hs
      exact (hb x hx).serial
    · exact hw i label r c hs x hx

end Operation.Outcome

namespace World

theorem Reachable.ordered {w : World α σ} (hw : w.Reachable) : w.Ordered := by
  obtain ⟨t, h⟩ := hw
  refine h.keeps ?_ fun v op hop hv => (op.outcome hop).ordered hv
  intro i j hij
  obtain ⟨s, hs, -⟩ := hij
  simp [source?] at hs

theorem Reachable.rulesBuilt {w : World α σ} (hw : w.Reachable) : w.RulesBuilt := by
  obtain ⟨t, h⟩ := hw
  refine h.keeps ?_ fun v op hop hv => (op.outcome hop).rulesBuilt hv
  intro i label r c hs
  simp [source?] at hs

theorem Leads.dynamic {w u : World α σ} (h : w.Leads u) {i : SourceId} {label : String}
    {r : Rule α} {c : Option (α × α)} (hs : w.source? i = some (.dynamic label r c)) :
    ∃ c', u.source? i = some (.dynamic label r c') := by
  refine h.keeps (P := fun v => ∃ c', v.source? i = some (.dynamic label r c')) ⟨c, hs⟩ ?_
  intro v op hop hv
  obtain ⟨c', hc'⟩ := hv
  exact (op.outcome hop).dynamic hc'

end World

/-- The handle names a source of the world, which has the constraint of the handle. -/
def DynamicPoint.In (d : DynamicPoint α) (w : World α σ) : Prop :=
  ∃ c, w.source? d.source = some (.dynamic d.label (.within d.constraint) c)

def DynamicLine.In (d : DynamicLine α) (w : World α σ) : Prop :=
  ∃ c, w.source? d.source = some (.dynamic d.label (.awayFrom d.through) c)

private theorem DynamicPoint.in_create (label : String) (c : Constraint α) (w : World α σ) :
    (create label c w).1.In (create label c w).2 := by
  refine ⟨none, ?_⟩
  exact (w.source?_addSource (.dynamic label (.within c) none) w.sources.size).trans (if_pos rfl)

private theorem DynamicLine.in_create (label : String) (p : Point α) (w : World α σ) :
    (create label p w).1.In (create label p w).2 := by
  refine ⟨none, ?_⟩
  exact (w.source?_addSource (.dynamic label (.awayFrom p) none) w.sources.size).trans (if_pos rfl)

theorem DynamicPoint.In.leads {d : DynamicPoint α} {w u : World α σ} (hd : d.In w)
    (h : w.Leads u) : d.In u := by
  obtain ⟨c, hc⟩ := hd
  exact h.dynamic hc

theorem DynamicLine.In.leads {d : DynamicLine α} {w u : World α σ} (hd : d.In w)
    (h : w.Leads u) : d.In u := by
  obtain ⟨c, hc⟩ := hd
  exact h.dynamic hc

namespace NumericField

variable (F : NumericField α σ)

/-- Reading that follows live nodes wherever they lead. `stop` answers once `n` reads are nested. -/
def readDeep (stop : SourceId → Eval α σ (α × α)) : Nat → SourceId → Eval α σ (α × α)
  | 0, i => stop i
  | n + 1, i => do
    match (← get).source? i with
    | some s => Interpretation.current ⟨F, readDeep stop n⟩ i s
    | none => throw (.unknownSource i)

private theorem readDeep_succ (stop : SourceId → Eval α σ (α × α)) (n : Nat) (i : SourceId)
    (w : World α σ) : F.readDeep stop (n + 1) i w = match w.source? i with
      | some s => Interpretation.current ⟨F, F.readDeep stop n⟩ i s w
      | none => (.error (.unknownSource i), w) := by
  change (match w.source? i with
    | some s => Interpretation.current ⟨F, F.readDeep stop n⟩ i s
    | none => throw (.unknownSource i) : Eval α σ (α × α)) w = _
  cases w.source? i <;> rfl

/-- In an ordered world the reads inside a read of source `i` are nested at most `i` deep, so a
read with more depth than that never stops early. -/
theorem readDeep_alike {w : World α σ} (hw : w.Ordered) (stop : SourceId → Eval α σ (α × α))
    {n : Nat} {i : SourceId} (hi : i < n) :
    Alike w.SameShape (F.readDeep stop n i) (F.read i) := by
  induction n generalizing i with
  | zero => exact absurd hi (Nat.not_lt_zero i)
  | succ n ih =>
    intro u hu
    have hread : F.readDeep stop (n + 1) i u = F.read i u := by
      rw [readDeep_succ]
      cases hs : u.source? i with
      | none => rw [F.read_eq_error hs]
      | some s =>
        -- The reads inside are of sources below `i`, for which one level less is enough.
        have hx : ∀ x ∈ s.scalars, ∀ j ∈ x.sources, j < n := by
          intro x hx j hj
          have hji : j < i := hu.ordered hw i j ⟨s, hs, x, hx, hj⟩
          exact Nat.lt_of_lt_of_le hji (Nat.lt_succ_iff.1 hi)
        have h := Interchangeable.of_read (I := ⟨F, F.readDeep stop n⟩) (J := F.interpretation) rfl
          (fun u t hu => hu.trans (.sampler u t)) fun j hj => ih (i := j) hj
        rw [F.read_eq_current (hu.ordered hw) hs]
        exact (h.current (i := i) (fun u v hu => hu.trans (.withSample u i v)) hx u hu).1
    refine ⟨hread, ?_, trivial⟩
    change w.SameShape (F.readDeep stop (n + 1) i u).2
    rw [hread]
    exact hu.trans (F.read_sameShape i u)

end NumericField

namespace Specimen

/-- Residues modulo seven with scripted draws. -/
def scriptedSeven : NumericField UInt64 (Script.Used Unit) :=
  Script.field ⟨3, [5, 2]⟩ (Residues.ofPrime (fun _ => return 0 : UInt64 → Draw Unit UInt64) 7)
    ⟨(· + 1), id, fun x y => some (compare x y)⟩

/-- A point in the line through two anchors. -/
def pointOnAB : DynamicPoint UInt64 := ⟨2, "P", .inLine ⟨.live ⟨3, []⟩ 0 "A", .live ⟨4, []⟩ 1 "B"⟩⟩

/-- A line through this point. -/
def lineThroughP : DynamicLine UInt64 := ⟨3, "l", .live ⟨5, []⟩ 2 "P"⟩

def figureABP : World UInt64 (Script.Used Unit) :=
  Operation.runAll [.createAnchor "A" (.ofValues ⟨1, []⟩ 1 2),
    .createAnchor "B" (.ofValues ⟨2, []⟩ 3 5), .createPoint "P" pointOnAB.constraint,
    .createLine "l" lineThroughP.through] ⟨(0, ()), #[]⟩

/-- The line has been read, so the point has been, and then the first anchor has moved away from the
line through the point and the second anchor. -/
def figureMoved : World UInt64 (Script.Used Unit) :=
  Operation.runAll [.read scriptedSeven 3, .moveTo ⟨6, []⟩ ⟨0, "A"⟩ 2 2] figureABP

theorem figureABP_leads_figureMoved : figureABP.Leads figureMoved := ⟨_, by decide +kernel, rfl⟩

theorem reachable_figureMoved : figureMoved.Reachable := by
  have hcreated : figureABP.Reachable := ⟨(0, ()), _, by decide, rfl⟩
  exact hcreated.leads figureABP_leads_figureMoved

theorem pointOnAB_in_figureMoved : pointOnAB.In figureMoved := by
  have hcreated : pointOnAB.In figureABP := ⟨none, rfl⟩
  exact hcreated.leads figureABP_leads_figureMoved

theorem lineThroughP_in_figureMoved : lineThroughP.In figureMoved := by
  have hcreated : lineThroughP.In figureABP := ⟨none, rfl⟩
  exact hcreated.leads figureABP_leads_figureMoved

end Specimen

/-- In a reachable world every live node of a source refers to a source created before it, so
dependence is well-founded. An expression built so far is evaluated with no more reads nested in
one another than there are sources: whatever would be done beyond that depth is never done. -/
theorem World.Reachable.evaluation_ends {w : World α σ} (hw : w.Reachable) :
    (∀ i s, w.source? i = some s → ∀ x ∈ s.scalars, ∀ j ∈ x.sources, j < i) ∧
      (WellFounded fun j i => w.Reads i j) ∧
      ∀ (F : NumericField α σ) (x : Scalar α), (∀ i ∈ x.sources, i < w.sources.size) →
        ∀ (stop : SourceId → Eval α σ (α × α)) (n : Nat), w.sources.size ≤ n →
          x.value ⟨F, F.readDeep stop n⟩ w = F.interpretation.value x w := by
  have ho := hw.ordered
  refine ⟨fun i s hs x hx j hj => ho i j ⟨s, hs, x, hx, hj⟩, ho.wellFounded, ?_⟩
  intro F x hx stop n hn
  have h := Interchangeable.of_read (I := ⟨F, F.readDeep stop n⟩) (J := F.interpretation) rfl
    (fun u t hu => hu.trans (.sampler u t)) fun j hj => F.readDeep_alike ho stop (n := n) hj
  exact (h.value x (fun i hi => Nat.lt_of_lt_of_le (hx i hi) hn) w (.refl w)).1

theorem Specimen.evaluation_ends_figureMoved :
    (WellFounded fun j i => figureMoved.Reads i j) ∧
      ∀ stop, ((lineThroughP.line ⟨7, []⟩).b.x.value
        ⟨scriptedSeven, scriptedSeven.readDeep stop 4⟩ figureMoved).1.toOption = some 1 := by
  have h := reachable_figureMoved.evaluation_ends
  refine ⟨h.2.1, fun stop => ?_⟩
  rw [h.2.2 scriptedSeven _ (by decide +kernel) stop 4 (by decide +kernel)]
  decide +kernel
end PlaneGeometry
