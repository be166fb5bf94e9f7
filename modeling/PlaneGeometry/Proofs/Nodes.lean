import PlaneGeometry.Proofs.Equality
import PlaneGeometry.Proofs.Evaluation

/-!
# The nodes of a scalar

A scalar is a tree, in which a scalar used in several places stands once for each way that leads to
it. Whether it samples and what it reads can be told from its nodes.
-/
namespace PlaneGeometry

/-- The ways to draw that a field may offer. -/
inductive Sampler where
  | draw | drawOther | greater | lower | between
  deriving DecidableEq, Repr

namespace Scalar

variable {α : Type} [Element α]

/-- All nodes of the tree. What a node is made of comes before it, operand after operand. -/
def nodes : Scalar α → List (Scalar α)
  | leaf o v => [leaf o v]
  | sum o xs => all xs ++ [sum o xs]
  | product o xs => all xs ++ [product o xs]
  | diff o a b => a.nodes ++ (b.nodes ++ [diff o a b])
  | division o a b => a.nodes ++ (b.nodes ++ [division o a b])
  | opposite o x => x.nodes ++ [opposite o x]
  | inverse o x => x.nodes ++ [inverse o x]
  | zero o => [zero o]
  | one o => [one o]
  | random o => [random o]
  | different o x => x.nodes ++ [different o x]
  | between o a b => a.nodes ++ (b.nodes ++ [between o a b])
  | greater o x => x.nodes ++ [greater o x]
  | lower o x => x.nodes ++ [lower o x]
  | throwing o e => [throwing o e]
  | norm o v => all v ++ [norm o v]
  | angle o v w => all v ++ (all w ++ [angle o v w])
  | signedAngle o v w => all v ++ (all w ++ [signedAngle o v w])
  | live o i label k => [live o i label k]
where
  all : List (Scalar α) → List (Scalar α)
    | [] => []
    | x :: xs => x.nodes ++ all xs

private theorem nodes_all (xs : List (Scalar α)) : nodes.all xs = xs.flatMap nodes := by
  induction xs with
  | nil => rfl
  | cons x xs ih => rw [nodes.all, ih, List.flatMap_cons]

private theorem nodes_eq (s : Scalar α) : s.nodes = s.parts.flatMap nodes ++ [s] := by
  cases s <;> simp [nodes, nodes_all, parts]

theorem mem_nodes {s n : Scalar α} : n ∈ s.nodes ↔ n = s ∨ ∃ x ∈ s.parts, n ∈ x.nodes := by
  rw [nodes_eq, List.mem_append, List.mem_singleton, List.mem_flatMap, or_comm]

theorem nodes_part {s x : Scalar α} (hx : x ∈ s.parts) {n : Scalar α} (hn : n ∈ x.nodes) :
    n ∈ s.nodes := mem_nodes.2 (.inr ⟨x, hx, hn⟩)

/-- The sampler that the node itself calls, whatever its operands call. -/
def sampler? : Scalar α → Option Sampler
  | random _ => some .draw
  | different _ _ => some .drawOther
  | greater _ _ => some .greater
  | lower _ _ => some .lower
  | between _ _ _ => some .between
  | _ => none

private theorem isDeterministic_all (xs : List (Scalar α)) :
    isDeterministic.all xs = true ↔ ∀ x ∈ xs, x.isDeterministic = true := by
  induction xs with
  | nil => simp [isDeterministic.all]
  | cons x xs ih => simp [isDeterministic.all, ih]

private theorem isDeterministic_iff_parts {s : Scalar α} : s.isDeterministic = true ↔
    s.sampler? = none ∧ ∀ x ∈ s.parts, x.isDeterministic = true := by
  cases s <;>
    simp [isDeterministic, isDeterministic_all, sampler?, parts, or_imp, forall_and]

theorem isDeterministic_part {a x : Scalar α} (ha : a.isDeterministic = true) (hx : x ∈ a.parts) :
    x.isDeterministic = true := (isDeterministic_iff_parts.1 ha).2 x hx

theorem isDeterministic_iff {s : Scalar α} :
    s.isDeterministic = true ↔ ∀ n ∈ s.nodes, n.sampler? = none := by
  induction s using induction_parts with
  | h s ih =>
    rw [isDeterministic_iff_parts]
    constructor
    · intro h n hn
      rcases mem_nodes.1 hn with rfl | ⟨x, hx, hn⟩
      · exact h.1
      · exact (ih x hx).1 (h.2 x hx) n hn
    · intro h
      refine ⟨h s (mem_nodes.2 (.inl rfl)), fun x hx => (ih x hx).2 fun n hn => ?_⟩
      exact h n (nodes_part hx hn)

theorem closed_deterministic : Closed (α := α) fun x => x.isDeterministic = true := by
  constructor <;> simp +contextual [isDeterministic, isDeterministic_all]

theorem mem_sources_iff_parts {s : Scalar α} {i : SourceId} : i ∈ s.sources ↔
    (∃ o label k, s = live o i label k) ∨ ∃ x ∈ s.parts, i ∈ x.sources := by
  cases s <;> simp [sources, parts, mem_all_sources, or_and_right, exists_or, eq_comm]

theorem sources_part {a x : Scalar α} (hx : x ∈ a.parts) {i : SourceId} (hi : i ∈ x.sources) :
    i ∈ a.sources := mem_sources_iff_parts.2 (.inr ⟨x, hx, hi⟩)

theorem mem_sources_iff {s : Scalar α} {i : SourceId} :
    i ∈ s.sources ↔ ∃ o label k, live o i label k ∈ s.nodes := by
  induction s using induction_parts with
  | h s ih =>
    rw [mem_sources_iff_parts]
    constructor
    · rintro (⟨o, label, k, rfl⟩ | ⟨x, hx, hi⟩)
      · exact ⟨o, label, k, mem_nodes.2 (.inl rfl)⟩
      · obtain ⟨o, label, k, hn⟩ := (ih x hx).1 hi
        exact ⟨o, label, k, nodes_part hx hn⟩
    · rintro ⟨o, label, k, hn⟩
      rcases mem_nodes.1 hn with rfl | ⟨x, hx, hn⟩
      · exact .inl ⟨o, label, k, rfl⟩
      · exact .inr ⟨x, hx, (ih x hx).2 ⟨o, label, k, hn⟩⟩

end Scalar
end PlaneGeometry
