import PlaneGeometry.Proofs.Notes
import PlaneGeometry.Proofs.Resolution

/-!
# Anchors follow their moves

Both coordinates of the new position are computed while the anchors are still where they were, and
only then the anchor moves. So moves do to the anchors what they do to a map that keeps one pair for
each anchor, even if a point reads the very anchor that is moved to it.
-/
namespace PlaneGeometry

variable {α σ τ : Type} [Element α]

/-- One pair for each anchor. -/
abbrev Positions (α : Type) := SourceId → Option (α × α)

namespace Positions

variable (ρ : Positions α) (F : NumericField α σ)

/-- Sources are read off the map. Nothing is sampled, and there are no sources to change. -/
def interpretation : Interpretation α Unit where
  field := F.muted
  read i := match ρ i with
    | some p => return p
    | none => throw (.unknownSource i)

def value (s : Scalar α) : Except Error α := (s.value (ρ.interpretation F) ⟨(), #[]⟩).1

def point (p : Point α) : Except Error (α × α) := do
  let x ← ρ.value F p.x
  let y ← ρ.value F p.y
  return (x, y)

end Positions

/-- A handle names the anchor to be moved, and handles that name one anchor share it. The field may
change from one move to the next. -/
inductive Move (α σ : Type) [Element α] where
  | moveTo (o : Origin) (a : Anchor) (x y : α)
  | moveToPoint (F : NumericField α σ) (o : Origin) (a : Anchor) (p : Point α)
  | moveBy (F : NumericField α σ) (o : Origin) (a : Anchor) (dx dy : α)

namespace Move

def origin : Move α σ → Origin
  | moveTo o _ _ _ | moveToPoint _ o _ _ | moveBy _ o _ _ _ => o

def anchor : Move α σ → Anchor
  | moveTo _ a _ _ | moveToPoint _ _ a _ | moveBy _ _ a _ _ => a

def run : Move α σ → Eval α σ Unit
  | moveTo o a x y => (a.moveTo o x y : Act α σ Unit)
  | moveToPoint F o a p => a.moveToPoint F o p
  | moveBy F o a dx dy => a.moveBy F o dx dy

/-- A move that fails does not keep the next ones from being made. -/
def runAll : List (Move α σ) → Act α σ (List (Except Error Unit))
  | [] => return []
  | m :: ms => do
    let r ← m.run.run
    let rs ← runAll ms
    return r :: rs

/-- The pair that the anchor is moved to if the anchors are at `ρ`. -/
def destination (ρ : Positions α) : Move α σ → Except Error (α × α)
  | moveTo _ _ x y => .ok (x, y)
  | moveToPoint F _ _ p => ρ.point F p
  | moveBy F _ a dx dy => match ρ a.source with
    | some (x, y) => .ok (F.add x dx, F.add y dy)
    | none => .error (.unknownSource a.source)

def follow (ρ : Positions α) (m : Move α σ) : Positions α := match m.destination ρ with
  | .ok p => Function.update ρ m.anchor.source (some p)
  | .error _ => ρ

def followAll (ρ : Positions α) : List (Move α σ) → List (Except Error Unit) × Positions α
  | [] => ([], ρ)
  | m :: ms =>
    let r := (m.destination ρ).map fun _ => ()
    let (rs, ρ') := followAll (m.follow ρ) ms
    (r :: rs, ρ')

/-- The anchor has leaf coordinates, and a point that it is moved to reads none but such anchors and
does not sample. -/
def Fits (w : World α σ) : Move α σ → Prop
  | moveTo _ a _ _ | moveBy _ _ a _ _ => (w.place? a.source).isSome = true
  | moveToPoint _ _ a p => (w.place? a.source).isSome = true ∧ w.SettledAt p

instance decidableFits (w : World α σ) : (m : Move α σ) → Decidable (m.Fits w)
  | moveTo _ a _ _ | moveBy _ _ a _ _ =>
    inferInstanceAs (Decidable ((w.place? a.source).isSome = true))
  | moveToPoint _ _ a p =>
    inferInstanceAs (Decidable ((w.place? a.source).isSome = true ∧ w.SettledAt p))

end Move

/-- In the two worlds the computations have one result, and they change nothing. -/
def Concur (a : World α σ) (b : World α τ) {β : Type} (m : Eval α σ β) (m' : Eval α τ β) : Prop :=
  ∃ r, m a = (r, a) ∧ m' b = (r, b)

theorem Concur.simulation (a : World α σ) (b : World α τ) :
    Simulation (@Concur α σ τ _ a b) where
  pure x := ⟨.ok x, rfl, rfl⟩
  throw e := ⟨.error e, rfl, rfl⟩
  bind {_ _ _ _ f f'} hm hf := by
    obtain ⟨r, hr, hr'⟩ := hm
    cases r with
    | error e => exact ⟨.error e, Eval.bind_error hr f, Eval.bind_error hr' f'⟩
    | ok x =>
      obtain ⟨r, hx, hx'⟩ := hf x
      exact ⟨r, (Eval.bind_ok hr f).trans hx, (Eval.bind_ok hr' f').trans hx'⟩

namespace World

variable {w : World α σ} (F : NumericField α σ)

private theorem concur_read {i : SourceId} (hi : (w.place? i).isSome = true) :
    Concur w ⟨(), #[]⟩ (F.read i) ((Positions.interpretation w.place? F).read i) := by
  obtain ⟨p, hp⟩ := Option.isSome_iff_exists.1 hi
  refine ⟨.ok p, read_place? F hp, ?_⟩
  simp only [Positions.interpretation, hp]
  rfl

private theorem Settled.value_positions {s : Scalar α} (hs : w.Settled s) :
    F.interpretation.value s w = (Positions.value w.place? F s, w) := by
  have h := (Concur.simulation w ⟨(), #[]⟩).value (I := F.interpretation)
    (J := Positions.interpretation w.place? F) F.agrees_muted (.inl hs.deterministic)
    fun i hi => concur_read F (hs.placed i hi)
  obtain ⟨r, hr, hr'⟩ := h
  rw [Positions.value, hr']
  exact hr

private theorem SettledAt.point_positions {p : Point α} (hp : w.SettledAt p) :
    F.interpretation.point p w = (Positions.point w.place? F p, w) := by
  simp only [SettledAt, Point.vect, List.forall_mem_cons] at hp
  have hx := hp.1.value_positions F
  have hy := hp.2.1.value_positions F
  rw [Interpretation.point, Positions.point, Eval.bind_apply, hx]
  cases Positions.value w.place? F p.x with
  | error e => rfl
  | ok x =>
    refine (Eval.bind_apply _ _ w).trans ?_
    rw [hy]
    cases Positions.value w.place? F p.y <;> rfl

end World

namespace Move

variable {w : World α σ} {m n : Move α σ}

private theorem Fits.target (h : m.Fits w) : ∃ p, w.place? m.anchor.source = some p := by
  cases m with
  | moveTo | moveBy => exact Option.isSome_iff_exists.1 h
  | moveToPoint => exact Option.isSome_iff_exists.1 h.1

/-- The anchor is not touched until both coordinates are known. -/
theorem run_apply (h : m.Fits w) : m.run w = match m.destination w.place? with
    | .ok p => (.ok (), (m.anchor.moveTo m.origin p.1 p.2 w).2)
    | .error e => (.error e, w) := by
  cases m with
  | moveTo o a x y => rfl
  | moveToPoint F o a p =>
    rw [run, Anchor.moveToPoint, Eval.bind_apply, h.2.point_positions F, destination]
    cases Positions.point w.place? F p <;> rfl
  | moveBy F o a dx dy =>
    obtain ⟨p, hp⟩ := h.target
    have hplace : w.place? a.source = some p := hp
    have hread : a.position F w = (.ok p, w) := World.read_place? F hplace
    rw [run, Anchor.moveBy, Eval.bind_ok hread, destination, hplace]
    rfl

private theorem run_result (h : m.Fits w) :
    (m.run w).1 = (m.destination w.place?).map fun _ => () := by
  rw [run_apply h]
  cases m.destination w.place? <;> rfl

private theorem place?_run (h : m.Fits w) : (m.run w).2.place? = m.follow w.place? := by
  rw [run_apply h, follow]
  cases m.destination w.place? with
  | error e => rfl
  | ok p =>
    obtain ⟨q, hq⟩ := h.target
    obtain ⟨name, o, o', hs⟩ := World.source?_of_place? hq
    exact World.place?_move hs m.origin p.1 p.2

private theorem run_error (h : m.Fits w) {e : Error} (he : (m.run w).1 = .error e) :
    (m.run w).2 = w := by
  rw [run_apply h] at he ⊢
  cases hd : m.destination w.place? with
  | error e => rfl
  | ok p =>
    rw [hd] at he
    cases he

private theorem source?_run (h : m.Fits w) {i : SourceId} (hi : m.anchor.source ≠ i) :
    (m.run w).2.source? i = w.source? i := by
  rw [run_apply h]
  cases m.destination w.place? with
  | error e => rfl
  | ok p => exact (World.source?_moveTo w m.origin m.anchor p.1 p.2 i).trans (if_neg hi)

private theorem isSome_place?_run (h : n.Fits w) {i : SourceId} (hi : (w.place? i).isSome = true) :
    ((n.run w).2.place? i).isSome = true := by
  rw [run_apply h]
  cases n.destination w.place? with
  | error e => exact hi
  | ok p => exact World.place?_moveTo n.origin n.anchor p.1 p.2 hi

theorem Fits.mono {u : World α σ} (hm : m.Fits w)
    (h : ∀ i, (w.place? i).isSome = true → (u.place? i).isSome = true) : m.Fits u := by
  cases m with
  | moveTo | moveBy => exact h _ hm
  | moveToPoint F o a p =>
    refine ⟨h _ hm.1, fun x hx => ?_⟩
    exact ⟨(hm.2 x hx).deterministic, fun i hi => h i ((hm.2 x hx).placed i hi)⟩

theorem Fits.run (hm : m.Fits w) (hn : n.Fits w) : m.Fits (n.run w).2 :=
  hm.mono fun _ => isSome_place?_run hn

private theorem isSome_place?_runAll {ms : List (Move α σ)} (hms : ∀ m ∈ ms, m.Fits w)
    {i : SourceId}
    (hi : (w.place? i).isSome = true) : ((runAll ms w).2.place? i).isSome = true := by
  induction ms generalizing w with
  | nil => exact hi
  | cons m ms ih =>
    rw [List.forall_mem_cons] at hms
    exact ih (fun n hn => (hms.2 n hn).run hms.1) (isSome_place?_run hms.1 hi)

private theorem runAll_followAll {ms : List (Move α σ)} (hms : ∀ m ∈ ms, m.Fits w) :
    (runAll ms w).1 = (followAll w.place? ms).1 ∧
      (runAll ms w).2.place? = (followAll w.place? ms).2 := by
  induction ms generalizing w with
  | nil => exact ⟨rfl, rfl⟩
  | cons m ms ih =>
    rw [List.forall_mem_cons] at hms
    obtain ⟨hresults, hplaces⟩ := ih fun n hn => (hms.2 n hn).run hms.1
    rw [place?_run hms.1] at hresults hplaces
    refine ⟨?_, hplaces⟩
    change (m.run w).1 :: (runAll ms (m.run w).2).1 = _
    rw [run_result hms.1, hresults]
    rfl

end Move

/-- Let the moves be of anchors with leaf coordinates. They succeed and fail as they do on a map
that keeps one pair for each anchor, and then every anchor is read where the map has it, over
whatever field. So does every further move. One that fails changes nothing, and one that succeeds
nothing but its anchor. -/
theorem World.anchors_follow {w : World α σ} {ms : List (Move α σ)} (hms : ∀ m ∈ ms, m.Fits w) :
    let u := (Move.runAll ms w).2
    let ρ := (Move.followAll w.place? ms).2
    (Move.runAll ms w).1 = (Move.followAll w.place? ms).1 ∧
    (∀ a : Anchor, (w.place? a.source).isSome = true →
      ∃ p, ρ a.source = some p ∧ ∀ F : NumericField α σ, a.position F u = (.ok p, u)) ∧
    ∀ m : Move α σ, m.Fits w →
      (m.run u).1 = (m.destination ρ).map (fun _ => ()) ∧
      (m.run u).2.place? = m.follow ρ ∧
      (∀ e, (m.run u).1 = .error e → (m.run u).2 = u) ∧
      ∀ i, m.anchor.source ≠ i → (m.run u).2.source? i = u.source? i := by
  intro u ρ
  obtain ⟨hresults, hplaces⟩ := Move.runAll_followAll hms
  have hρ : u.place? = ρ := hplaces
  refine ⟨hresults, fun a ha => ?_, fun m hm => ?_⟩
  · obtain ⟨p, hp⟩ := Option.isSome_iff_exists.1 (Move.isSome_place?_runAll hms ha)
    exact ⟨p, (congrFun hρ a.source).symm.trans hp, fun F => World.read_place? F hp⟩
  · have hfits : m.Fits u := hm.mono fun _ => Move.isSome_place?_runAll hms
    rw [← hρ]
    exact ⟨Move.run_result hfits, Move.place?_run hfits, fun e => Move.run_error hfits,
      fun i => Move.source?_run hfits⟩

namespace Specimen

def anchorA : Anchor := ⟨0, "A"⟩
def anchorB : Anchor := ⟨1, "B"⟩

/-- The first anchor is moved to a point of both anchors. Then it cannot be moved to a point without
second coordinate. -/
def movesAB : List (Move UInt64 (Script.Used Unit)) :=
  [.moveToPoint scriptedSeven ⟨61, []⟩ anchorA
      ⟨.plus ⟨62, []⟩ (anchorA.point ⟨63, []⟩).x (anchorB.point ⟨64, []⟩).x,
        (anchorA.point ⟨65, []⟩).x⟩,
    .moveBy scriptedSeven ⟨66, []⟩ anchorB 1 1,
    .moveToPoint scriptedSeven ⟨67, []⟩ anchorA ⟨.one ⟨68, []⟩, .inverse ⟨69, []⟩ (.zero ⟨70, []⟩)⟩]

theorem anchors_follow_movesAB :
    let w := (Move.runAll movesAB figureABP).2
    (Move.runAll movesAB figureABP).1 = [.ok (), .ok (), .error .inverseOfIdentity] ∧
      anchorA.position scriptedSeven w = (.ok (4, 1), w) ∧
        anchorB.position scriptedSeven w = (.ok (4, 6), w) := by
  intro w
  have hfits : ∀ m ∈ movesAB, m.Fits figureABP := by decide +kernel
  obtain ⟨hresults, hpositions, -⟩ := World.anchors_follow hfits
  obtain ⟨p, hp, hfirst⟩ := hpositions anchorA (by decide +kernel)
  obtain ⟨q, hq, hsecond⟩ := hpositions anchorB (by decide +kernel)
  have hp' : (Move.followAll figureABP.place? movesAB).2 anchorA.source = some (4, 1) := by
    decide +kernel
  have hq' : (Move.followAll figureABP.place? movesAB).2 anchorB.source = some (4, 6) := by
    decide +kernel
  obtain rfl := Option.some.inj (hp.symm.trans hp')
  obtain rfl := Option.some.inj (hq.symm.trans hq')
  exact ⟨hresults, hfirst scriptedSeven, hsecond scriptedSeven⟩

end Specimen
end PlaneGeometry
