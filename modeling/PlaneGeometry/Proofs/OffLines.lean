import PlaneGeometry.Proofs.Candidates
import PlaneGeometry.Proofs.Relations

/-!
# Points off a line over exact fields

A point that is pushed along the normal of a line leaves the line by the squared length of the
direction. In an ordered plane that is zero only if the points of the line coincide. Over a prime
field two different points may be apart by a displacement without length, and then everything that
is generated stays on the line.
-/
namespace PlaneGeometry

open Plane

variable {α σ K : Type} [Element α]

/-- The direction of the line has no length if its points are at `ρ`. -/
def Line.Isotropic [Field K] (l : Line α) (ρ : Point α → K × K) : Prop :=
  dot (ρ l.b - ρ l.a) (ρ l.b - ρ l.a) = 0

instance [Field K] [DecidableEq K] (l : Line α) (ρ : Point α → K × K) :
    Decidable (l.Isotropic ρ) :=
  inferInstanceAs (Decidable (dot (ρ l.b - ρ l.a) (ρ l.b - ρ l.a) = 0))

namespace NumericField.Exact

open Interpretation

variable [Field K] {I : Interpretation α σ} {φ : α → K} {V : World α σ → Prop}
  (hF : I.field.Exact φ) (hV : ∀ w t, V w → V { w with sampler := t })
  (hdraw : ∀ t, φ (I.field.drawOther I.field.zero t).1 ≠ 0) {l : Line α} {ρ : Point α → K × K}
  (ha : I.AtPlace V φ l.a (ρ l.a)) (hb : I.AtPlace V φ l.b (ρ l.b))

include hF hV hdraw ha hb

/-- What is pushed off a line is on the line just if the direction has no length. -/
theorem produces_pushed (o : Origin) :
    Produces V (fun q => ∃ k, I.AtPlace V φ q k ∧
      (cross (k - ρ l.a) (ρ l.b - ρ l.a) = 0 ↔ l.Isotropic ρ)) (I.pointOutsideLine o l) := by
  apply (hF.produces_pointOutsideLine hV ha hb o hdraw).mono
  intro q ⟨t, u, hu, hq⟩
  exact ⟨_, hq, cross_pushed_eq_zero _ _ hu _⟩

private theorem holds_pushed (o : Origin) {w u : World α σ} (hw : V w) {q : Point α}
    (hq : I.pointOutsideLine o l w = (q, u)) :
    ∃ b, I.holds (.inLine q l) u = (.ok b, u) ∧ (b = true ↔ l.Isotropic ρ) := by
  obtain ⟨hu, k, hk, hiff⟩ := (hF.produces_pushed hV hdraw ha hb o).apply hw hq
  obtain ⟨b, hb, hbk⟩ := hF.decides_inLine hk ha hb u hu
  exact ⟨b, hb, hbk.trans hiff⟩

private theorem foregone_outsideLine : I.Foregone V (.within (.outsideLine l)) ¬l.Isotropic ρ := by
  refine foregone (fun o => hF.produces_pushed hV hdraw ha hb o) fun p k hp hk => ?_
  exact (hF.decides_inLine hp ha hb).not.congr (not_congr hk)

end NumericField.Exact

/-- Whatever is drawn for it, a point off the line is on the line just if the direction has no
length. A dynamic point off the line always has a position if the direction has a length. If it has
none, a read without a sample that is still accepted runs out of attempts. -/
structure World.PushesOff [Field K] (F : NumericField α σ) (φ : α → K) (w : World α σ)
    (l : Line α) : Prop where
  holds {o : Origin} {q : Point α} {u : World α σ} :
    F.interpretation.pointOutsideLine o l w = (q, u) →
      ∃ b, F.interpretation.holds (.inLine q l) u = (.ok b, u) ∧
        (b = true ↔ l.Isotropic (F.interpretation.place φ w))
  position {d : DynamicPoint α} : w.Reachable → d.In w → d.constraint = .outsideLine l →
    ¬l.Isotropic (F.interpretation.place φ w) → ∃ v u, d.position F w = (.ok v, u)
  exhausted {d : DynamicPoint α} {s : Option (α × α)} {w₀ : World α σ} : w.Reachable →
    w.source? d.source = some (.dynamic d.label (.within (.outsideLine l)) s) →
      F.interpretation.Outdated (.within (.outsideLine l)) s w w₀ →
        l.Isotropic (F.interpretation.place φ w) →
          ∃ u, d.position F w = (.error (.exhausted d.label Interpretation.attempts), u)

private theorem NumericField.Exact.pushesOff [Field K] {F : NumericField α σ} {φ : α → K}
    (hF : F.Exact φ) (hdraw : ∀ t, φ (F.drawOther F.zero t).1 ≠ 0) {w : World α σ}
    {l : Line α} (hl : ∀ x ∈ l.scalars, w.Evaluates F x) :
    w.PushesOff F φ l := by
  let ρ := F.interpretation.place φ w
  obtain ⟨hla, hlb⟩ := List.forall_mem_append.1 hl
  have hI : F.interpretation.field.Exact φ := hF
  have hV (u : World α σ) (t : σ) (hu : w.SameSources u) :
      w.SameSources { u with sampler := t } := hu
  have ha : F.interpretation.AtPlace w.SameSources φ l.a (ρ l.a) := World.atPlace_at φ hla
  have hb : F.interpretation.AtPlace w.SameSources φ l.b (ρ l.b) := World.atPlace_at φ hlb
  have hf := hI.foregone_outsideLine hV hdraw ha hb
  have hprobe (v : α × α) : ∃ accepted,
      F.interpretation.probe v (.within (.outsideLine l)) w = (.ok accepted, w) := by
    have hleaves : F.interpretation.AtPlace w.SameSources φ (.ofValues .scratch v.1 v.2)
        (φ v.1, φ v.2) := ⟨.pure v.1, .pure v.2⟩
    obtain ⟨b, hb, -⟩ := (hI.decides_inLine hleaves ha hb).not w rfl
    exact ⟨b, hb⟩
  constructor
  case holds =>
    intro o q u hq
    exact hI.holds_pushed hV hdraw ha hb o rfl hq
  case position =>
    intro d hw hd hc haniso
    obtain ⟨s, hs⟩ := hd
    rw [hc] at hs
    exact World.read_succeeds F hw.ordered hs hf rfl hprobe haniso
  case exhausted =>
    intro d s w₀ hw hs hout hiso
    obtain rfl := hout.world_eq hprobe
    exact World.read_exhausted F hw.ordered hs hf hout rfl (not_not_intro hiso)

namespace Residues

private theorem residue_drawOther_zero {p : UInt64} [hprime : Fact p.toNat.Prime]
    (hlt : p.toNat < 2 ^ 32)
    {σ : Type} {below : UInt64 → Draw σ UInt64} (hbelow : DrawsBelow below) (t : σ) :
    residue p ((ofPrime below p).drawOther 0 t).1 ≠ 0 := by
  have h := residue_drawOther_ne hprime.out.one_lt hlt hbelow 0 t
  rwa [(residue_eq_zero_iff p 0).2 (Nat.dvd_zero _)] at h

/-- All lines of different points have a direction with a length exactly if minus one is no
square. -/
theorem forall_not_isotropic_iff {p : UInt64} [Fact p.toNat.Prime] (hlt : p.toNat < 2 ^ 32)
    {σ : Type} {F : NumericField UInt64 σ} (w : World UInt64 σ) :
    let ρ := F.interpretation.place (residue p) w
    (∀ l : Line UInt64, (∀ x ∈ l.scalars, w.Evaluates F x) → ρ l.a ≠ ρ l.b → ¬l.Isotropic ρ) ↔
      p.toNat % 4 = 3 := by
  intro ρ
  constructor
  · intro h
    by_contra hmod
    obtain ⟨⟨k, k'⟩, hne, hdot⟩ := exists_isotropic_iff.2 hmod
    obtain ⟨x, rfl⟩ := residue_surjective hlt k
    obtain ⟨y, rfl⟩ := residue_surjective hlt k'
    let l : Line UInt64 := ⟨.ofValues .scratch 0 0, .ofValues .scratch x y⟩
    have hl : ∀ s ∈ l.scalars, w.Evaluates F s := by
      simp only [l, Line.scalars, Point.vect, Point.ofValues, List.forall_mem_append,
        List.forall_mem_cons]
      simp [w.evaluates_leaf]
    have hstart : ρ l.a = 0 := by
      change (residue p 0, residue p 0) = 0
      simp [residue]
    have hend : ρ l.b = (residue p x, residue p y) := rfl
    refine h l hl ?_ ?_
    · rw [hstart, hend]
      exact hne.symm
    · rw [Line.Isotropic, hstart, hend, sub_zero]
      exact hdot
  · intro hmod l _ hne hiso
    refine exists_isotropic_iff.1 ⟨ρ l.b - ρ l.a, ?_, hiso⟩ hmod
    exact sub_ne_zero.2 hne.symm

/-- Over a prime field a point pushed off a line ends up on the line exactly if the direction of the
line has no length, whatever is drawn as long as the draw other than zero is no multiple of the
modulus, as a shift by what is drawn below a bound is not. A dynamic point off a line whose
direction has a length always has a position. If it has none, as happens for lines of different
points unless the prime leaves three when divided by four, the search for a position is always
exhausted. -/
theorem pointOutsideLine_pushesOff {p : UInt64} [Fact p.toNat.Prime] (hlt : p.toNat < 2 ^ 32) :
    (∀ {σ : Type} {below : UInt64 → Draw σ UInt64}, DrawsBelow below → ∀ t,
      residue p ((ofPrime below p).drawOther 0 t).1 ≠ 0) ∧
    ∀ {σ : Type} (F : NumericField UInt64 σ), Modular p F →
      (∀ t, residue p (F.drawOther 0 t).1 ≠ 0) → ∀ w : World UInt64 σ,
        (∀ l : Line UInt64, (∀ x ∈ l.scalars, w.Evaluates F x) → w.PushesOff F (residue p) l) ∧
        ((∀ l : Line UInt64, (∀ x ∈ l.scalars, w.Evaluates F x) →
          let ρ := F.interpretation.place (residue p) w
          ρ l.a ≠ ρ l.b → ¬l.Isotropic ρ) ↔ p.toNat % 4 = 3) := by
  refine ⟨residue_drawOther_zero hlt, fun F hagrees hdraw w => ⟨fun l hl => ?_, ?_⟩⟩
  · have hF : F.Exact (residue p) := hagrees.exact hlt
    refine hF.pushesOff (fun t => ?_) hl
    rw [show F.zero = 0 from hagrees.zero]
    exact hdraw t
  · exact forall_not_isotropic_iff hlt w

end Residues

private theorem Script.drawOther_of_same {β : Type} {s : Script β} {F : NumericField β σ}
    {k : Scriptable β} {value x : β} {t u : Used σ} (h : s.draw t = (x, u))
    (hx : F.same x value = false) (n : Nat) : s.drawOther F k value (n + 1) t = (x, u) := by
  change (if F.same (s.draw t).1 value then s.drawOther F k value n else return (s.draw t).1 :
    Draw (Used σ) β) (s.draw t).2 = _
  rw [h, hx]
  rfl

namespace Specimen

open Residues

/-- The second point is `1` and `2` apart from the first, which is no length modulo five. -/
def lineOneTwo : Line UInt64 := ⟨.ofValues ⟨1, []⟩ 0 0, .ofValues ⟨2, []⟩ 1 2⟩

def lineOneOne : Line UInt64 := ⟨.ofValues ⟨3, []⟩ 0 0, .ofValues ⟨4, []⟩ 1 1⟩

/-- Points off the one line and off the other. -/
def pointOffOneTwo : DynamicPoint UInt64 := ⟨0, "P", .outsideLine lineOneTwo⟩
def pointOffOneOne : DynamicPoint UInt64 := ⟨1, "Q", .outsideLine lineOneOne⟩

def figureOffLines : World UInt64 Unit :=
  Operation.runAll [.createPoint "P" pointOffOneTwo.constraint,
    .createPoint "Q" pointOffOneOne.constraint] emptyWorld

/-- Nothing is found off the first line. -/
theorem pointOutsideLine_pushesOff_figureOffLines :
    (∃ u, pointOffOneTwo.position moduloFive figureOffLines = (.error (.exhausted "P" 64), u)) ∧
      ∃ v u, pointOffOneOne.position moduloFive figureOffLines = (.ok v, u) := by
  have hw : figureOffLines.Reachable := ⟨(), _, by decide +kernel, rfl⟩
  obtain ⟨hdraw, hlines⟩ := pointOutsideLine_pushesOff (p := 5) (by decide)
  obtain ⟨hoff, -⟩ := hlines moduloFive modular_moduloFive (hdraw drawsBelow_zeros) figureOffLines
  have hslanted := hoff lineOneTwo (by decide +kernel)
  have hdiagonal := hoff lineOneOne (by decide +kernel)
  exact ⟨hslanted.exhausted (d := pointOffOneTwo) hw rfl rfl (by decide +kernel),
    hdiagonal.position (d := pointOffOneOne) hw ⟨none, rfl⟩ rfl (by decide +kernel)⟩

def scriptOneTwo : Script UInt64 := ⟨1, [2]⟩

/-- Draws one and two by turns. -/
def alternatingFive : NumericField UInt64 (Script.Used Unit) :=
  Script.field scriptOneTwo moduloFive ⟨(· + 1), id, fun x y => some (compare x y)⟩

private theorem alternatingFive_drawOther_zero (t : Script.Used Unit) :
    (alternatingFive.drawOther 0 t).1 = 1 ∨ (alternatingFive.drawOther 0 t).1 = 2 := by
  have hdraw : (scriptOneTwo.draw t).1 = 1 ∨ (scriptOneTwo.draw t).1 = 2 := by
    change ([1, 2] : List UInt64).getD (t.1 % 2) 1 = 1 ∨ ([1, 2] : List UInt64).getD (t.1 % 2) 1 = 2
    rcases Nat.mod_two_eq_zero_or_one t.1 with h | h <;> rw [h]
    · exact .inl rfl
    · exact .inr rfl
  have hused (hx : moduloFive.same (scriptOneTwo.draw t).1 0 = false) :
      (alternatingFive.drawOther 0 t).1 = (scriptOneTwo.draw t).1 :=
    congrArg Prod.fst (Script.drawOther_of_same rfl hx 1)
  rcases hdraw with h | h
  · exact .inl ((hused (by rw [h]; decide)).trans h)
  · exact .inr ((hused (by rw [h]; decide)).trans h)

/-- The points of the line are different and no draw is a multiple of five, but what is pushed off
the line is on it. -/
theorem not_off_lineOneTwo :
    let w : World UInt64 (Script.Used Unit) := ⟨(0, ()), #[]⟩
    let ρ := alternatingFive.interpretation.place (residue 5) w
    let pushed := alternatingFive.interpretation.pointOutsideLine ⟨3, []⟩ lineOneTwo w
    Modular 5 alternatingFive ∧ (∀ t, residue 5 (alternatingFive.drawOther 0 t).1 ≠ 0) ∧
      (∀ x ∈ lineOneTwo.scalars, w.Evaluates alternatingFive x) ∧ ρ lineOneTwo.a ≠ ρ lineOneTwo.b ∧
        (alternatingFive.interpretation.holds (.inLine pushed.1 lineOneTwo) pushed.2).1.toOption =
          some true := by
  refine ⟨by constructor <;> rfl, fun t => ?_, by decide +kernel, by decide +kernel,
    by decide +kernel⟩
  rcases alternatingFive_drawOther_zero t with h | h <;> rw [h] <;> decide +kernel

end Specimen
end PlaneGeometry
