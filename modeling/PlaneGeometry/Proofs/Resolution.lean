import PlaneGeometry.Proofs.Calls
import PlaneGeometry.Proofs.Constructions

/-!
# Live nodes stand for what they read

Main statement: where live nodes read anchors with leaf coordinates, evaluation is evaluation of the
scalar that has leaves with the present coordinates in their place. A move puts other coordinates
there and does nothing else.
-/
namespace PlaneGeometry

variable {α σ : Type} [Element α]

namespace Scalar

/-- The scalar with a leaf for each live node whose coordinate is known. -/
def resolved (ρ : SourceId → Option (α × α)) : Scalar α → Scalar α
  | leaf o v => leaf o v
  | sum o xs => sum o (all xs)
  | product o xs => product o (all xs)
  | diff o a b => diff o (a.resolved ρ) (b.resolved ρ)
  | division o a b => division o (a.resolved ρ) (b.resolved ρ)
  | opposite o x => opposite o (x.resolved ρ)
  | inverse o x => inverse o (x.resolved ρ)
  | zero o => zero o
  | one o => one o
  | random o => random o
  | different o x => different o (x.resolved ρ)
  | between o a b => between o (a.resolved ρ) (b.resolved ρ)
  | greater o x => greater o (x.resolved ρ)
  | lower o x => lower o (x.resolved ρ)
  | throwing o e => throwing o e
  | norm o v => norm o (all v)
  | angle o v w => angle o (all v) (all w)
  | signedAngle o v w => signedAngle o (all v) (all w)
  | live o i label k =>
    match do coordinate? (← ρ i) k with
    | some x => leaf o x
    | none => live o i label k
where
  all : List (Scalar α) → List (Scalar α)
    | [] => []
    | x :: xs => x.resolved ρ :: all xs

private theorem resolved_all (ρ : SourceId → Option (α × α)) (xs : List (Scalar α)) :
    resolved.all ρ xs = xs.map (resolved ρ) := by
  induction xs with
  | nil => rfl
  | cons x xs ih => rw [resolved.all, ih, List.map_cons]

/-- All live nodes of the scalar have known coordinates. -/
def Located (ρ : SourceId → Option (α × α)) (s : Scalar α) : Prop :=
  ∀ o i label k, live o i label k ∈ s.nodes → k < 2 ∧ (ρ i).isSome = true

variable {ρ : SourceId → Option (α × α)} {s : Scalar α}

theorem Located.part (hs : s.Located ρ) {x : Scalar α} (hx : x ∈ s.parts) : x.Located ρ :=
  fun o i label k hn => hs o i label k (nodes_part hx hn)

theorem Located.live {o : Origin} {i : SourceId} {label : String} {k : Nat}
    (h : (live o i label k : Scalar α).Located ρ) : ∃ p x, ρ i = some p ∧
      liveCoordinate label p k = .ok x ∧ (live o i label k : Scalar α).resolved ρ = leaf o x := by
  obtain ⟨hk, hi⟩ := h o i label k (mem_nodes.2 (.inl rfl))
  obtain ⟨p, hp⟩ := Option.isSome_iff_exists.1 hi
  rcases Nat.lt_succ_iff_lt_or_eq.1 hk with h0 | rfl
  · obtain rfl := Nat.lt_one_iff.1 h0
    exact ⟨p, p.1, hp, rfl, by simp [resolved, hp, coordinate?]⟩
  · exact ⟨p, p.2, hp, rfl, by simp [resolved, hp, coordinate?]⟩

private theorem parts_resolved (ρ : SourceId → Option (α × α)) (s : Scalar α) :
    (s.resolved ρ).parts = s.parts.map (resolved ρ) := by
  cases s with
  | live o i label k =>
    rw [resolved]
    split <;> rfl
  | _ => simp [resolved, resolved_all, parts]

private theorem sources_resolved (hs : s.Located ρ) : (s.resolved ρ).sources = [] := by
  induction s using induction_parts with
  | h s ih =>
    rw [List.eq_nil_iff_forall_not_mem]
    intro i hi
    rcases mem_sources_iff_parts.1 hi with ⟨o, label, k, he⟩ | ⟨y, hy, hi⟩
    · cases s with
      | live o i label k =>
        obtain ⟨p, x, -, -, hx⟩ := hs.live
        rw [hx] at he
        cases he
      | _ => cases he
    · rw [parts_resolved] at hy
      obtain ⟨x, hx, rfl⟩ := List.mem_map.1 hy
      rw [ih x hx (hs.part hx)] at hi
      cases hi

end Scalar

/-- Sources with a known place are not read any more. -/
def Interpretation.placing (I : Interpretation α σ) (ρ : SourceId → Option (α × α)) :
    Interpretation α σ where
  field := I.field
  read i := match ρ i with
    | some p => return p
    | none => I.read i

namespace Scalar

variable {I : Interpretation α σ} {ρ : SourceId → Option (α × α)} {s : Scalar α}

private theorem values_resolved {xs : List (Scalar α)}
    (h : ∀ x ∈ xs, (x.resolved ρ).value I = x.value (I.placing ρ)) :
    value.values I (resolved.all ρ xs) = value.values (I.placing ρ) xs := by
  induction xs with
  | nil => rfl
  | cons x xs ih =>
    rw [resolved.all, value.values, value.values, h x List.mem_cons_self,
      ih fun y hy => h y (List.mem_cons_of_mem x hy)]

private theorem value_resolved (hs : s.Located ρ) :
    (s.resolved ρ).value I = s.value (I.placing ρ) := by
  induction s using induction_parts with
  | h s ih =>
    have hparts : ∀ x ∈ s.parts, (x.resolved ρ).value I = x.value (I.placing ρ) :=
      fun x hx => ih x hx (hs.part hx)
    cases s with
    | leaf | zero | one | random | throwing => rfl
    | sum o xs | product o xs | norm o xs =>
      have hxs : ∀ x ∈ xs, (x.resolved ρ).value I = x.value (I.placing ρ) := hparts
      simp only [resolved, value, values_resolved hxs]
      rfl
    | angle o v w | signedAngle o v w =>
      obtain ⟨hv, hw⟩ := List.forall_mem_append.1 hparts
      simp only [resolved, value, values_resolved hv, values_resolved hw]
      rfl
    | diff o a b | division o a b | between o a b =>
      simp only [parts, List.forall_mem_cons] at hparts
      simp only [resolved, value, hparts.1, hparts.2.1]
      rfl
    | opposite o x | inverse o x | different o x | greater o x | lower o x =>
      simp only [parts, List.forall_mem_cons] at hparts
      simp only [resolved, value, hparts.1]
      rfl
    | live o i label k =>
      obtain ⟨p, x, hp, hx, he⟩ := hs.live
      have hread : (I.placing ρ).read i = (return p : Eval α σ (α × α)) := by
        simp only [Interpretation.placing, hp]
      rw [he, value, value, hread, pure_bind, hx]
      rfl

end Scalar

namespace World

variable {w u : World α σ} {s : Scalar α}

/-- The live nodes read coordinates of anchors that are placed. -/
def Placed (w : World α σ) (s : Scalar α) : Prop := s.Located w.place?

private theorem Placed.isSome_place? (hs : w.Placed s) {i : SourceId} (hi : i ∈ s.sources) :
    (w.place? i).isSome = true := by
  obtain ⟨o, label, k, hn⟩ := Scalar.mem_sources_iff.1 hi
  exact (hs o i label k hn).2

theorem Placed.leads (hs : w.Placed s) (h : w.Leads u) : u.Placed s := by
  intro o i label k hn
  obtain ⟨hk, hi⟩ := hs o i label k hn
  exact ⟨hk, h.place? hi⟩

private theorem Placed.alike (F : NumericField α σ) (hs : w.Placed s) : Alike w.SameSources
    (F.interpretation.value s) (s.value (F.interpretation.placing w.place?)) := by
  have h : Interchangeable w.SameSources (fun x => ∀ i ∈ x.sources, (w.place? i).isSome = true)
      F.interpretation (F.interpretation.placing w.place?) := by
    refine Interchangeable.of_read rfl (fun u t hu => hu) fun i hi u hu => ?_
    obtain ⟨p, hp⟩ := Option.isSome_iff_exists.1 hi
    have hread : F.interpretation.read i u = (.ok p, u) := read_place? F ((hu.place? i).trans hp)
    have hknown : (F.interpretation.placing w.place?).read i = (return p : Eval α σ (α × α)) := by
      simp only [Interpretation.placing, hp]
    change F.interpretation.read i u = (F.interpretation.placing w.place?).read i u ∧
      w.SameSources (F.interpretation.read i u).2 ∧ True
    rw [hread, hknown]
    exact ⟨rfl, hu, trivial⟩
  exact h.value s fun i hi => hs.isSome_place? hi

private theorem Placed.value_eq (F : NumericField α σ) (hs : w.Placed s) :
    F.interpretation.value s w = F.interpretation.value (s.resolved w.place?) w ∧
      (F.interpretation.value s w).2.sources = w.sources := by
  obtain ⟨hvalue, hsources, -⟩ := hs.alike F w rfl
  refine ⟨hvalue.trans ?_, hsources⟩
  exact (congrFun (Scalar.value_resolved hs) w).symm

/-- The places in the world are `ρ`, which is what anchors are read as, and evaluating the scalar is
evaluating what is left of it when the live nodes on these places are replaced. That reads nothing,
has the same result and makes the same calls. No source changes. -/
structure Shows (F : NumericField α σ) (w : World α σ) (s : Scalar α)
    (ρ : SourceId → Option (α × α)) : Prop where
  place : w.place? = ρ
  read (i : SourceId) (p : α × α) : ρ i = some p → F.read i w = (.ok p, w)
  unread : (s.resolved ρ).sources = []
  value : F.interpretation.value s w = F.interpretation.value (s.resolved ρ) w
  calls : w.calls (F.recorded.interpretation.value s) =
    w.calls (F.recorded.interpretation.value (s.resolved ρ))
  kept : (F.interpretation.value s w).2.sources = w.sources

private theorem Placed.shows (F : NumericField α σ) (hs : w.Placed s) : w.Shows F s w.place? := by
  obtain ⟨hvalue, hkept⟩ := hs.value_eq F
  have hrecording : w.recording.Placed s := hs
  have hrecorded := (hrecording.value_eq F.recorded).1
  exact ⟨rfl, fun i p => read_place? F, Scalar.sources_resolved hs, hvalue,
    congrArg (fun r => r.2.sampler.1) hrecorded, hkept⟩

/-- A place that is added, or put in the place of another one, shows. -/
theorem Placed.shows_update (F : NumericField α σ) (hs : w.Placed s) {i : SourceId} {p : α × α}
    (hu : u.place? = Function.update w.place? i (some p)) :
    u.Shows F s (Function.update w.place? i (some p)) := by
  have hplaced : u.Placed s := by
    intro o j label k hn
    obtain ⟨hk, hj⟩ := hs o j label k hn
    refine ⟨hk, ?_⟩
    rw [hu, Function.update_apply]
    split
    · rfl
    · exact hj
  rw [← hu]
  exact hplaced.shows F

private theorem place?_create (name : String) (o : Origin) (x y : α) (w : World α σ) :
    (Anchor.create name (.ofValues o x y) w).2.place? =
      Function.update w.place? w.sources.size (some (x, y)) := by
  funext i
  rw [Function.update_apply]
  change World.place? (addSource (.anchor name (.ofValues o x y)) w).2 i = _
  rw [place?, source?_addSource]
  by_cases hi : i = w.sources.size
  · rw [if_pos hi, if_pos hi]
    rfl
  · rw [if_neg hi, if_neg hi]
    rfl

variable {a : Anchor} {name : String} {p : Point α}

theorem place?_move (ha : w.source? a.source = some (.anchor name p)) (o : Origin) (x y : α) :
    (a.moveTo o x y w).2.place? = Function.update w.place? a.source (some (x, y)) := by
  funext i
  rw [Function.update_apply, place?, source?_moveTo]
  by_cases hi : a.source = i
  · subst hi
    rw [if_pos rfl, if_pos rfl, ha]
    rfl
  · rw [if_neg hi, if_neg (Ne.symm hi)]
    rfl

/-- The new coordinates are computed before the anchor moves. -/
theorem bind_moveTo {m : Eval α σ (α × α)} {r : α × α} (hm : m w = (.ok r, u))
    (hu : w.SameShape u) (ha : w.source? a.source = some (.anchor name p)) (o : Origin)
    (f : α × α → α × α) :
    ∃ v, (m >>= fun r => liftM (a.moveTo o (f r).1 (f r).2 : Act α σ Unit)) w = (.ok (), v) ∧
      v.place? = Function.update w.place? a.source (some (f r)) := by
  refine ⟨(a.moveTo o (f r).1 (f r).2 u).2, Eval.bind_ok hm _, ?_⟩
  rw [place?_move (hu.anchor ha), hu.place?_eq]

/-- Let the live nodes of a scalar read coordinates of anchors that are placed in some world, and
let another world be reached from it. Evaluating the scalar there comes to evaluating the scalar
with the present coordinates in the place of the live nodes, whatever else the scalar is made of. So
it does right after an anchor has been created at values or moved, be it to values, to the values of
a point or by a distance. The anchor has its new place then, and all others have theirs. -/
theorem live_resolved (F : NumericField α σ) (hs : w.Placed s) (hu : w.Leads u) :
    u.Shows F s u.place? ∧
    (∀ name o x y,
      let made : Anchor × World α σ := Anchor.create name (.ofValues o x y) u
      made.2.Shows F s (Function.update u.place? made.1.source (some (x, y)))) ∧
    ∀ (a : Anchor) name p, u.source? a.source = some (.anchor name p) →
      (∀ o x y, (a.moveTo o x y u).2.Shows F s
        (Function.update u.place? a.source (some (x, y)))) ∧
      (∀ (G : NumericField α σ) o q r v, G.interpretation.point q u = (.ok r, v) →
        ∃ t, a.moveToPoint G o q u = (.ok (), t) ∧
          t.Shows F s (Function.update u.place? a.source (some r))) ∧
      ∀ (G : NumericField α σ) o dx dy r v, a.position G u = (.ok r, v) →
        ∃ t, a.moveBy G o dx dy u = (.ok (), t) ∧
          t.Shows F s (Function.update u.place? a.source (some (G.add r.1 dx, G.add r.2 dy))) := by
  have hplaced : u.Placed s := hs.leads hu
  refine ⟨hplaced.shows F, fun name o x y => hplaced.shows_update F (place?_create ..), ?_⟩
  intro a name p ha
  refine ⟨fun o x y => hplaced.shows_update F (place?_move ha o x y), ?_, ?_⟩
  · intro G o q r v hr
    have hv : u.SameShape (G.interpretation.point q u).2 := G.point_sameShape q u
    rw [hr] at hv
    obtain ⟨t, ht, hplace⟩ := bind_moveTo hr hv ha o id
    exact ⟨t, ht, hplaced.shows_update F hplace⟩
  · intro G o dx dy r v hr
    have hv : u.SameShape (G.read a.source u).2 := G.read_sameShape a.source u
    rw [show G.read a.source u = (.ok r, v) from hr] at hv
    obtain ⟨t, ht, hplace⟩ := bind_moveTo hr hv ha o fun r => (G.add r.1 dx, G.add r.2 dy)
    exact ⟨t, ht, hplaced.shows_update F hplace⟩

end World

namespace Specimen

/-- The first coordinate of one anchor, and a draw other than the second coordinate of another. -/
def jittered : Scalar UInt64 :=
  .plus ⟨13, []⟩ (.live ⟨14, []⟩ 0 "A" 0) (.different ⟨15, []⟩ (.live ⟨16, []⟩ 1 "B" 1))

theorem live_resolved_jittered :
    scriptedSeven.interpretation.value jittered figureMoved =
      scriptedSeven.interpretation.value (.plus ⟨13, []⟩ (.leaf ⟨14, []⟩ 2)
        (.different ⟨15, []⟩ (.leaf ⟨16, []⟩ 5))) figureMoved ∧
    ((⟨0, "A"⟩ : Anchor).moveTo ⟨17, []⟩ 6 6 figureMoved).2.Shows scriptedSeven jittered
      (Function.update figureMoved.place? 0 (some (6, 6))) := by
  have hplaced : figureABP.Placed jittered := by
    intro o i label k hn
    simp only [jittered, Scalar.plus, Scalar.nodes, Scalar.nodes.all, List.mem_append,
      List.mem_singleton, List.not_mem_nil, or_false, reduceCtorEq, Scalar.live.injEq] at hn
    rcases hn with ⟨-, rfl, -, rfl⟩ | ⟨-, rfl, -, rfl⟩ <;> decide +kernel
  have hfirst : figureMoved.place? 0 = some (2, 2) := by decide +kernel
  have hsecond : figureMoved.place? 1 = some (3, 5) := by decide +kernel
  obtain ⟨name, o, o', hs⟩ := World.source?_of_place? hfirst
  obtain ⟨hshows, -, hmoves⟩ :=
    World.live_resolved scriptedSeven hplaced figureABP_leads_figureMoved
  obtain ⟨hmove, -⟩ := hmoves ⟨0, "A"⟩ name _ hs
  refine ⟨?_, hmove ⟨17, []⟩ 6 6⟩
  simpa [jittered, Scalar.plus, Scalar.resolved, Scalar.resolved.all, hfirst, hsecond, coordinate?]
    using hshows.value

end Specimen
end PlaneGeometry
