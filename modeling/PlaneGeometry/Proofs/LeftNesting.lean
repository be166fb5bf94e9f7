import PlaneGeometry.Proofs.Calls
import PlaneGeometry.Proofs.ShapeChecks

/-!
# Sums and products join from the left

A sum or product evaluates its first operand, and then joins one operand after the other to what it
has, each evaluated just before. So the operands in front may have a node of their own, and a node
with many operands is a chain of nodes with two. This asks nothing of the field: joining need not be
associative, no neutral element is joined, and operands may draw, read or fail. Vectors and matrices
are combined place by place, and the same holds of them.
-/
namespace PlaneGeometry

variable {α σ β γ : Type} [Element α]

namespace Interpretation

variable (I : Interpretation α σ)

/-- Evaluates one more operand and joins it to what has been joined. -/
def join (f : α → α → α) (v : α) (x : Scalar α) : Eval α σ α := do return f v (← I.value x)

private theorem values_cons (x : Scalar α) (xs : List (Scalar α)) :
    I.values (x :: xs) = do return (← I.value x) :: (← I.values xs) := rfl

private theorem foldl_values (f : α → α → α) (v : α) (xs : List (Scalar α)) :
    (do return (← I.values xs).foldl f v) = xs.foldlM (I.join f) v := by
  induction xs generalizing v with
  | nil => rfl
  | cons x xs ih =>
    rw [List.foldlM_cons, values_cons]
    simp only [join, bind_assoc, pure_bind, List.foldl_cons, ih]

private theorem joined_values (f : α → α → α) (neutral : α) (x : Scalar α) (xs : List (Scalar α)) :
    (do return joined f neutral (← I.values (x :: xs))) =
      I.value x >>= fun v => xs.foldlM (I.join f) v := by
  simp only [← foldl_values, values_cons, bind_assoc, pure_bind]
  rfl

end Interpretation

/-- What is asked of a field, whatever the field is and however sources are read. -/
abbrev Query (α β : Type) [Element α] : Type 1 := (σ : Type) → Interpretation α σ → Eval α σ β

def Scalar.query (s : Scalar α) : Query α α := fun _ I => I.value s
def Vect.query (v : Vect α) : Query α (List α) := fun _ I => I.values v
def Mat.query (m : Mat α) : Query α (List (List α)) := fun _ I => I.matrix m

/-- The node evaluates its first operand and joins the others to it by `f`. -/
structure Joining (node : Origin → List (Scalar α) → Scalar α)
    (f : {σ : Type} → NumericField α σ → α → α → α) : Prop where
  query (o : Origin) (x : Scalar α) (xs : List (Scalar α)) : (node o (x :: xs)).query =
    fun _ I => I.value x >>= fun v => xs.foldlM (I.join (f I.field)) v

private theorem joining_sum : Joining (α := α) .sum NumericField.add where
  query _ x xs := funext fun _ => funext fun I => I.joined_values _ _ x xs

private theorem joining_product : Joining (α := α) .product NumericField.mul where
  query _ x xs := funext fun _ => funext fun I => I.joined_values _ _ x xs

namespace Joining

variable {node : Origin → List (Scalar α) → Scalar α}
  {f : {σ : Type} → NumericField α σ → α → α → α} (h : Joining node f)

include h

theorem single (o : Origin) (x : Scalar α) : (node o [x]).query = x.query := by
  rw [h.query]
  funext σ I
  exact bind_pure (I.value x)

/-- The operands in front may have a node of their own. -/
theorem append (o o' o'' : Origin) (x : Scalar α) (xs ys : List (Scalar α)) :
    (node o (x :: xs ++ ys)).query = (node o' (node o'' (x :: xs) :: ys)).query := by
  rw [List.cons_append, h.query, h.query]
  funext σ I
  have hfront : I.value (node o'' (x :: xs)) =
      I.value x >>= fun v => xs.foldlM (I.join (f I.field)) v :=
    congrFun (congrFun (h.query o'' x xs) σ) I
  rw [hfront, bind_assoc]
  simp only [List.foldlM_append]

/-- Nodes with two operands, each in the next, and each with an origin of its own. -/
theorem chain (o : Origin) (x : Scalar α) (ps : List (Origin × Scalar α)) :
    (node o (x :: ps.map Prod.snd)).query =
      (ps.foldl (fun s p => node p.1 [s, p.2]) x).query := by
  induction ps generalizing x with
  | nil => exact h.single o x
  | cons p ps ih => exact (h.append o o p.1 x [p.2] _).trans (ih _)

end Joining

/-- Both fail for the same reason, or both succeed with what is related. -/
inductive Concordant (R : β → γ → Prop) : Except Error β → Except Error γ → Prop where
  | ok {x : β} {y : γ} : R x y → Concordant R (.ok x) (.ok y)
  | error (e : Error) : Concordant R (.error e) (.error e)

namespace Concordant

variable {R S : β → β → Prop} {r s t : Except Error β}

theorem mono (hRS : ∀ {x y}, R x y → S x y) (h : Concordant R r s) : Concordant S r s := by
  cases h with
  | ok hxy => exact .ok (hRS hxy)
  | error e => exact .error e

theorem trans (hR : ∀ x y z, R x y → R y z → R x z) (h : Concordant R r s)
    (h' : Concordant R s t) : Concordant R r t := by
  cases h with
  | ok hxy =>
    cases h' with
    | ok hyz => exact .ok (hR _ _ _ hxy hyz)
  | error e =>
    cases h'
    exact .error e

theorem bind (r : Except Error γ) {f g : γ → Except Error β} (h : ∀ x, Concordant R (f x) (g x)) :
    Concordant R (r >>= f) (r >>= g) := by
  cases r with
  | ok x => exact h x
  | error e => exact .error e

end Concordant

/-- Combines two at a time, from the left. Each step has an origin of its own. -/
def chained (combine : Origin → List β → Except Error β) (x : β) (ps : List (Origin × β)) :
    Except Error β :=
  ps.foldlM (fun y p => combine p.1 [y, p.2]) x

/-- A combination whose first two operands may be combined first is a chain. -/
theorem concordant_chained {combine : Origin → List β → Except Error β} {R : β → β → Prop}
    (htrans : ∀ x y z, R x y → R y z → R x z)
    (hsingle : ∀ o x, Concordant R (combine o [x]) (.ok x))
    (hpair : ∀ o o' x y zs, Concordant R (combine o (x :: y :: zs))
      (combine o' [x, y] >>= fun z => combine o (z :: zs)))
    (o : Origin) (x : β) (ps : List (Origin × β)) :
    Concordant R (combine o (x :: ps.map Prod.snd)) (chained combine x ps) := by
  induction ps generalizing x with
  | nil => exact hsingle o x
  | cons p ps ih =>
    have hrest : Concordant R
        (combine p.1 [x, p.2] >>= fun y => combine o (y :: ps.map Prod.snd))
        (combine p.1 [x, p.2] >>= fun y => chained combine y ps) := .bind _ ih
    exact (hpair o p.1 x p.2 _).trans htrans hrest

private theorem Rows.columns_eq (n : Nat) (rows : List (List β)) :
    columns n rows = (List.range n).map fun i => rows.filterMap (·[i]?) := by
  induction n generalizing rows with
  | zero => rfl
  | succ n ih =>
    rw [columns, ih, List.range_succ_eq_map, List.map_cons, List.map_map]
    simp [List.filterMap_map, Function.comp_def, List.head?_eq_getElem?]

namespace Vect

variable (node : Origin → List (Scalar α) → Scalar α) (o : Origin)

private theorem combine_cons (v : Vect α) (vs : List (Vect α)) :
    combine node o (v :: vs) = vs.forM (checkLength v) >>= fun _ =>
      .ok ((List.range v.length).map fun i => node (o.part i) ((v :: vs).filterMap (·[i]?))) := by
  rw [combine, Rows.columns_eq]
  refine congrArg _ (funext fun _ => congrArg Except.ok ?_)
  exact List.ext_getElem (by simp) fun i hi hi' => by simp

private theorem checkLength_congr {v w : Vect α} (h : v.length = w.length) :
    checkLength v = checkLength w := by
  funext u
  rw [checkLength, checkLength, h]

def SameQueries (v w : Vect α) : Prop := v.map Scalar.query = w.map Scalar.query

variable {node} {f : {σ : Type} → NumericField α σ → α → α → α} (h : Joining node f)

include h

private theorem combine_single (v : Vect α) :
    Concordant SameQueries (combine node o [v]) (.ok v) := by
  rw [combine_cons]
  refine .ok (List.ext_getElem (by simp) fun i hi hi' => ?_)
  rw [List.length_map] at hi'
  simp [hi', h.single]

private theorem combine_pair (o' : Origin) (v w : Vect α) (vs : List (Vect α)) :
    Concordant SameQueries (combine node o (v :: w :: vs))
      (combine node o' [v, w] >>= fun u => combine node o (u :: vs)) := by
  rw [combine_cons, combine_cons node o']
  change Concordant _ ((checkLength v w >>= fun _ => vs.forM (checkLength v)) >>= _)
    ((checkLength v w >>= fun _ => .ok ()) >>= _ >>= _)
  by_cases hvw : v.length = w.length
  · let u : Vect α := (List.range v.length).map fun i =>
      node (o'.part i) ([v, w].filterMap (·[i]?))
    have hvu : v.length = u.length := by simp [u]
    rw [checkLength_of_eq hvw]
    change Concordant _ (vs.forM (checkLength v) >>= _) (combine node o (u :: vs))
    rw [combine_cons, ← checkLength_congr hvu]
    refine .bind _ fun _ => .ok (List.ext_getElem (by simp [← hvu]) fun i hi hi' => ?_)
    have hv : i < v.length := by simpa using hi
    have hw : i < w.length := hvw ▸ hv
    simpa [u, hv, hw] using h.append _ _ _ v[i] [w[i]] _
  · obtain ⟨e, he⟩ := refused_checkLength hvw
    rw [he]
    exact .error _

private theorem concordant_combine (o : Origin) (v : Vect α) (ps : List (Origin × Vect α)) :
    Concordant SameQueries (combine node o (v :: ps.map Prod.snd))
      (chained (combine node) v ps) := by
  refine concordant_chained ?_ (combine_single · h) (combine_pair · h) o v ps
  exact fun _ _ _ => Eq.trans

end Vect

namespace Mat

structure SameQueries (m n : Mat α) : Prop where
  shape : n.shape = m.shape
  entry {i j : Nat} (hi : i < m.lines) (hj : j < m.columns) :
    (m.entry i j hi hj).query = (n.entryIn shape i j hi hj).query

theorem SameQueries.trans {m n k : Mat α} (h : m.SameQueries n) (h' : n.SameQueries k) :
    m.SameQueries k where
  shape := h'.shape.trans h.shape
  entry hi hj := by
    obtain ⟨hl, hc⟩ := Prod.mk.inj h.shape
    exact (h.entry hi hj).trans (h'.entry (hl ▸ hi) (hc ▸ hj))

private theorem sameQueries_tabulate {m : Mat α} {l c : Nat} {hfits : Fits l c}
    (hshape : m.shape = (l, c)) {g : (i j : Nat) → i < l → j < c → Scalar α}
    (h : ∀ i j hi hj, (g i j hi hj).query = (m.entryIn hshape i j hi hj).query) :
    (tabulate hfits g).SameQueries m where
  shape := hshape
  entry hi hj := (congrArg Scalar.query (entry_tabulate hfits g hi hj)).trans (h _ _ hi hj)

variable {node : Origin → List (Scalar α) → Scalar α} (o : Origin)

private theorem combine_of_shape_ne {m n : Mat α} (hmn : n.shape ≠ m.shape) (ms : List (Mat α)) :
    combine node o (m :: n :: ms) = .error (.shapes m.shape n.shape) := by
  have hall : ¬∀ k ∈ n :: ms, k.shape = m.shape := fun h => hmn (h n List.mem_cons_self)
  obtain ⟨s, hs, he⟩ := combine_eq_error node o hall
  rw [List.map_cons, List.find?_cons_of_pos (by simpa using hmn)] at hs
  rw [he, Option.some.inj hs]

/-- Behind the first two, the first shape that is another is the same. -/
theorem combine_cons_eq_error {m n k : Mat α} (hmn : n.shape = m.shape) (hk : k.shape = m.shape)
    {ms : List (Mat α)} (hms : ¬∀ q ∈ ms, q.shape = m.shape) :
    ∃ e, combine node o (m :: n :: ms) = .error e ∧ combine node o (k :: ms) = .error e := by
  have hall : ¬∀ q ∈ n :: ms, q.shape = m.shape := fun h => hms (List.forall_mem_cons.1 h).2
  obtain ⟨s, hs, he⟩ := combine_eq_error node o hall
  rw [List.map_cons, List.find?_cons_of_neg (by simpa using hmn)] at hs
  obtain ⟨t, ht, he'⟩ := combine_eq_error node o (hk.symm ▸ hms)
  rw [hk, hs] at ht
  rw [hk, ← Option.some.inj ht] at he'
  exact ⟨_, he, he'⟩

variable {f : {σ : Type} → NumericField α σ → α → α → α} (h : Joining node f)

include h

private theorem combine_single (m : Mat α) :
    Concordant SameQueries (combine node o [m]) (.ok m) := by
  rw [combine_eq_ok node o (List.forall_mem_nil _)]
  exact .ok (sameQueries_tabulate rfl fun i j hi hj => h.single _ _)

private theorem combine_pair (o' : Origin) (m n : Mat α) (ms : List (Mat α)) :
    Concordant SameQueries (combine node o (m :: n :: ms))
      (combine node o' [m, n] >>= fun k => combine node o (k :: ms)) := by
  by_cases hmn : n.shape = m.shape
  · rw [combine_eq_ok node o' (List.forall_mem_singleton.2 hmn)]
    let k : Mat α := tabulate m.fits_view fun i j hi hj =>
      node (place o' i j) [m.entry i j hi hj, n.entryIn hmn i j hi hj]
    have hk : k.shape = m.shape := rfl
    change Concordant _ _ (combine node o (k :: ms))
    by_cases hms : ∀ q ∈ ms, q.shape = m.shape
    · have hks : ∀ q ∈ ms, q.shape = k.shape := hms
      rw [combine_eq_ok node o (List.forall_mem_cons.2 ⟨hmn, hms⟩), combine_eq_ok node o hks]
      refine .ok (sameQueries_tabulate (m := tabulate k.fits_view _) rfl fun i j hi hj => ?_)
      have hright := entry_tabulate k.fits_view (fun i j hi hj => node (place o i j)
        (k.entry i j hi hj :: ms.pmap (fun q hq => q.entryIn hq i j hi hj) hks)) hi hj
      have hfront : k.entry i j hi hj =
          node (place o' i j) [m.entry i j hi hj, n.entryIn hmn i j hi hj] :=
        entry_tabulate _ _ hi hj
      rw [hfront] at hright
      refine .trans ?_ (congrArg Scalar.query hright).symm
      exact h.append _ _ _ (m.entry i j hi hj) [n.entryIn hmn i j hi hj] _
    · obtain ⟨e, he, he'⟩ : ∃ e, combine node o (m :: n :: ms) = .error e ∧
          combine node o (k :: ms) = .error e := combine_cons_eq_error o hmn hk hms
      rw [he, he']
      exact .error e
  · rw [combine_of_shape_ne o hmn, combine_of_shape_ne o' hmn]
    exact .error _

private theorem concordant_combine (o : Origin) (m : Mat α) (ps : List (Origin × Mat α)) :
    Concordant SameQueries (combine node o (m :: ps.map Prod.snd))
      (chained (combine node) m ps) := by
  refine concordant_chained ?_ (combine_single · h) (combine_pair · h) o m ps
  exact fun _ _ _ => SameQueries.trans

end Mat

private theorem Interpretation.values_eq_mapM (I : Interpretation α σ) (v : Vect α) :
    I.values v = v.mapM I.value := by
  induction v with
  | nil => rfl
  | cons x v ih => rw [List.mapM_cons, values_cons, ih]

private theorem mapM_congr {δ : Type} {m : Type → Type} [Monad m] [LawfulMonad m] {f : β → m γ}
    {g : δ → m γ} {xs : List β} {ys : List δ} (h : xs.map f = ys.map g) :
    xs.mapM f = ys.mapM g := by
  have hmap {κ : Type} (f : κ → m γ) (xs : List κ) : xs.mapM f = (xs.map f).mapM id := by
    simp
  rw [hmap f, hmap g, h]

private theorem Vect.SameQueries.query_eq {v w : Vect α} (h : SameQueries v w) :
    query v = query w := by
  funext σ I
  change I.values v = I.values w
  rw [I.values_eq_mapM, I.values_eq_mapM]
  have hvalues := congrArg (List.map fun q : Query α α => q σ I) h
  rw [List.map_map, List.map_map] at hvalues
  exact mapM_congr hvalues

private theorem Mat.SameQueries.query_eq {m n : Mat α} (h : m.SameQueries n) :
    m.query = n.query := by
  obtain ⟨hl, hc⟩ := Prod.mk.inj h.shape
  funext σ I
  refine mapM_congr ?_
  rw [toLines, toLines, List.map_ofFn, List.map_ofFn]
  refine ofFn_eq_ofFn hl.symm fun i hi hi' => ?_
  have hline : Vect.SameQueries (m.lineAt i hi) (n.lineAt i hi') := by
    rw [Vect.SameQueries, lineAt, lineAt, List.map_ofFn, List.map_ofFn]
    exact ofFn_eq_ofFn hc.symm fun j hj _ => h.entry hi hj
  exact congrFun (congrFun hline.query_eq σ) I

private theorem Vect.sum_pair (o : Origin) (v w : Vect α) : sum o [v, w] = plus o v w := by
  rw [sum, combine_cons, plus, zip]
  by_cases h : v.length = w.length
  · change (checkLength v w >>= fun _ => .ok ()) >>= _ = checkLength v w >>= _
    rw [checkLength_of_eq h]
    refine congrArg Except.ok (List.ext_getElem (by simp [h]) fun i hi hi' => ?_)
    have hv : i < v.length := by simpa using hi
    have hw : i < w.length := h ▸ hv
    simp [Scalar.plus, hv, hw]
  · obtain ⟨e, he⟩ := refused_checkLength h
    change (checkLength v w >>= fun _ => .ok ()) >>= _ = checkLength v w >>= _
    rw [he]
    rfl

namespace NumericField

variable (F : NumericField α σ)

/-- In every world both give the same result or the same error and leave the same world behind, and
they call the same samplers in the same order. -/
structure EvaluateAlike (q r : Query α β) : Prop where
  run (w : World α σ) : q σ F.interpretation w = r σ F.interpretation w
  calls (w : World α σ) :
    w.calls (q _ F.recorded.interpretation) = w.calls (r _ F.recorded.interpretation)

theorem evaluateAlike_of_eq {q r : Query α β} (h : q = r) : F.EvaluateAlike q r := by
  subst h
  exact ⟨fun _ => rfl, fun _ => rfl⟩

structure VectsAlike (v w : Vect α) : Prop where
  coordinates : List.Forall₂ (fun x y => F.EvaluateAlike x.query y.query) v w
  values : F.EvaluateAlike (Vect.query v) (Vect.query w)

structure MatsAlike (m n : Mat α) : Prop where
  shape : n.shape = m.shape
  entries {i j : Nat} (hi : i < m.lines) (hj : j < m.columns) :
    F.EvaluateAlike (m.entry i j hi hj).query (n.entryIn shape i j hi hj).query
  matrix : F.EvaluateAlike m.query n.query

private theorem vectsAlike_of_sameQueries {v w : Vect α} (h : Vect.SameQueries v w) :
    F.VectsAlike v w where
  coordinates := by
    have hqueries : List.Forall₂ Eq (v.map Scalar.query) (w.map Scalar.query) := by
      rw [List.forall₂_eq_eq_eq]
      exact h
    rw [List.forall₂_map_left_iff, List.forall₂_map_right_iff] at hqueries
    exact hqueries.imp fun _ _ => F.evaluateAlike_of_eq
  values := F.evaluateAlike_of_eq h.query_eq

private theorem matsAlike_of_sameQueries {m n : Mat α} (h : m.SameQueries n) : F.MatsAlike m n where
  shape := h.shape
  entries hi hj := F.evaluateAlike_of_eq (h.entry hi hj)
  matrix := F.evaluateAlike_of_eq h.query_eq

/-- Operands in front may have a node of their own, and a node with many operands is a chain of
nodes with two. So are sums and products of vectors and of matrices, and where one of the two is
refused both are, for the same reason. -/
structure LeftNested : Prop where
  sum (o o' o'' : Origin) (x : Scalar α) (xs ys : List (Scalar α)) :
    F.EvaluateAlike (Scalar.sum o (x :: xs ++ ys)).query
      (Scalar.sum o' (.sum o'' (x :: xs) :: ys)).query
  product (o o' o'' : Origin) (x : Scalar α) (xs ys : List (Scalar α)) :
    F.EvaluateAlike (Scalar.product o (x :: xs ++ ys)).query
      (Scalar.product o' (.product o'' (x :: xs) :: ys)).query
  plus (o : Origin) (x : Scalar α) (ps : List (Origin × Scalar α)) :
    F.EvaluateAlike (Scalar.sum o (x :: ps.map Prod.snd)).query
      (ps.foldl (fun s p => Scalar.plus p.1 s p.2) x).query
  times (o : Origin) (x : Scalar α) (ps : List (Origin × Scalar α)) :
    F.EvaluateAlike (Scalar.product o (x :: ps.map Prod.snd)).query
      (ps.foldl (fun s p => Scalar.times p.1 s p.2) x).query
  vectSum (o : Origin) (v : Vect α) (ps : List (Origin × Vect α)) :
    Concordant F.VectsAlike (Vect.sum o (v :: ps.map Prod.snd)) (chained Vect.sum v ps)
  vectPlus (o : Origin) (v w : Vect α) : Vect.sum o [v, w] = Vect.plus o v w
  vectTimes (o : Origin) (v : Vect α) (ps : List (Origin × Vect α)) :
    Concordant F.VectsAlike (Vect.times o (v :: ps.map Prod.snd)) (chained Vect.times v ps)
  matSum (o : Origin) (m : Mat α) (ps : List (Origin × Mat α)) :
    Concordant F.MatsAlike (Mat.sum o (m :: ps.map Prod.snd)) (chained Mat.sum m ps)
  matTimes (o : Origin) (m : Mat α) (ps : List (Origin × Mat α)) :
    Concordant F.MatsAlike (Mat.times o (m :: ps.map Prod.snd)) (chained Mat.times m ps)

/-- Sums and products join from the left over every field, also where the order matters as for
binary floating point, and whatever the operands do: they may draw, and they may fail. -/
theorem leftNested : F.LeftNested where
  sum o o' o'' x xs ys := F.evaluateAlike_of_eq (joining_sum.append o o' o'' x xs ys)
  product o o' o'' x xs ys := F.evaluateAlike_of_eq (joining_product.append o o' o'' x xs ys)
  plus o x ps := F.evaluateAlike_of_eq (joining_sum.chain o x ps)
  times o x ps := F.evaluateAlike_of_eq (joining_product.chain o x ps)
  vectSum o v ps := (Vect.concordant_combine joining_sum o v ps).mono F.vectsAlike_of_sameQueries
  vectPlus := Vect.sum_pair
  vectTimes o v ps :=
    (Vect.concordant_combine joining_product o v ps).mono F.vectsAlike_of_sameQueries
  matSum o m ps := (Mat.concordant_combine joining_sum o m ps).mono F.matsAlike_of_sameQueries
  matTimes o m ps :=
    (Mat.concordant_combine joining_product o m ps).mono F.matsAlike_of_sameQueries

end NumericField
end PlaneGeometry
