import CartGraph.Proofs.Emit.Mirror
import Mathlib.Logic.Function.Iterate

/-! # The walk ends

A call goes on only from a node that is there and not yet on its path, so each call leaves fewer
nodes unvisited than the one that made it. This counts for values as for chains: a path of values
starts anew at every statement, but what a statement reads is finished before the walk goes on.
Calls are nested as deep as the graph has nodes and one level more, where every call is refused as a
cycle or for want of its node. What calls below that level would do does not matter
(`Compilation.walk_ends`), whatever the limits of the settings are. -/
namespace CartGraph

/-! ## Nodes that are not visited -/

namespace Graph

def unvisited (g : Graph) (path : List Key) : Nat := (g.ids.filter (· ∉ path)).length

theorem unvisited_le (g : Graph) (path : List Key) : g.unvisited path ≤ g.nodes.length := by
  have h := List.length_filter_le (· ∉ path) g.ids
  simpa [unvisited, ids] using h

theorem unvisited_cons_lt {g : Graph} {path : List Key} {node : Key}
    (hn : g.hasNode node = true) (hnew : node.canonical ∉ path) :
    g.unvisited (node.canonical :: path) < g.unvisited path := by
  have hsplit : g.ids.filter (· ∉ node.canonical :: path) =
      (g.ids.filter (· ∉ path)).filter (· ≠ node.canonical) := by
    simp [List.filter_filter]
  rw [unvisited, hsplit]
  refine List.length_filter_lt_length_iff_exists.mpr ⟨node.canonical, ?_, by simp⟩
  exact List.mem_filter.mpr ⟨Loaded.hasNode_iff.mp hn, by simpa using hnew⟩

end Graph

/-- If no error is set apart, two steps that mirror each other are the same. -/
theorem Emit.Mirrors.eq {m m' : Emit α} (h : m.Mirrors (fun _ => False) m') : m' = m :=
  funext fun s => h.same s fun _ _ => id

namespace Compilation

variable {c : Compilation}

/-- Values are the same whatever is done below two depths that both suffice. -/
theorem evaluateStep_iterate {depth depth' : Nat} {path : List Key}
    (hd : c.graph.unvisited path < depth) (hd' : c.graph.unvisited path < depth')
    (deep deep' : Key → List Key → Evaluate) (reader : Key) :
    (c.evaluateStep^[depth] deep reader path).Mirrors (fun _ => False) (fun _ => True)
      (c.evaluateStep^[depth'] deep' reader path) := by
  induction depth generalizing depth' reader path with
  | zero => omega
  | succ depth ih =>
    cases depth' with
    | zero => omega
    | succ depth' =>
      rw [Function.iterate_succ_apply', Function.iterate_succ_apply']
      intro node pin hn
      refine evaluateCall_mirrors c.resembles_self (fun _ _ _ _ => .refl _) hn
        (fun hnode _ hnew => ?_) reader pin
      have hless := Graph.unvisited_cons_lt hnode hnew
      exact ih (by omega) (by omega) node

/-- Chains are the same whatever is done below two depths that both suffice. -/
theorem chainStep_iterate {values values' : Key → Evaluate}
    (hvalues : ∀ reader, (values reader).Mirrors (fun _ => False) (fun _ => True) (values' reader))
    {depth depth' : Nat} {path : List Key} (hd : c.graph.unvisited path < depth)
    (hd' : c.graph.unvisited path < depth') (deep deep' : Chain) (node : Key) (level : Int) :
    ((c.chainStep values)^[depth] deep node level path).Mirrors (fun _ => False)
      ((c.chainStep values')^[depth'] deep' node level path) := by
  induction depth generalizing depth' node level path with
  | zero => omega
  | succ depth ih =>
    cases depth' with
    | zero => omega
    | succ depth' =>
      rw [Function.iterate_succ_apply', Function.iterate_succ_apply']
      refine chainCall_mirrors c.resembles_self (fun _ _ _ _ => .refl _) trivial (hvalues node)
        (fun hnode _ hnew target level _ => ?_) level
      have hless := Graph.unvisited_cons_lt hnode hnew
      exact ih (by omega) (by omega) target level

theorem evaluateWithin_iterate (steps : Nat) :
    c.evaluateStep^[steps] (c.evaluateWithin 0) = c.evaluateWithin steps := by
  induction steps with
  | zero => rfl
  | succ steps ih => rw [Function.iterate_succ_apply', ih, evaluateWithin_succ]

theorem chainWithin_iterate (steps : Nat) :
    (c.chainStep c.evaluate)^[steps] (c.chainWithin 0) = c.chainWithin steps := by
  induction steps with
  | zero => rfl
  | succ steps ih => rw [Function.iterate_succ_apply', ih, chainWithin_succ]

/-- No call that evaluates an output is nested deeper than the graph has nodes and one level. -/
theorem evaluateStep_eq {depth : Nat} (hd : c.graph.nodes.length < depth)
    (deep : Key → List Key → Evaluate) :
    c.evaluateStep^[depth] deep = c.evaluateWithin c.reach := by
  funext reader path node pin
  have hless := c.graph.unvisited_le path
  rw [← evaluateWithin_iterate]
  refine (evaluateStep_iterate ?_ ?_ (c.evaluateWithin 0) deep reader node pin trivial).eq
  · unfold reach
    omega
  · omega

/-- No call that emits a chain is nested deeper than the graph has nodes and one level. -/
theorem chainStep_eq {depth : Nat} (hd : c.graph.nodes.length < depth) (deep : Chain) :
    (c.chainStep c.evaluate)^[depth] deep = c.chain := by
  funext node level path
  have hless := c.graph.unvisited_le path
  rw [chain, ← chainWithin_iterate]
  refine (chainStep_iterate (evaluate_mirrors c.resembles_self) ?_ ?_ (c.chainWithin 0) deep node
    level).eq
  · unfold reach
    omega
  · omega

/-- The walk ends. A call that evaluates an output answers the same whatever calls below it would
do that are nested deeper than the graph has nodes and one level, and so does a call that emits a
chain, and a whole function: no such call is made. So there is one way, and only one, to evaluate
outputs and to emit chains that counts no steps, and it is this one. -/
theorem walk_ends (c : Compilation) :
    (∀ deep : Key → List Key → Evaluate,
      c.evaluateStep^[c.graph.nodes.length + 1] deep = c.evaluateWithin c.reach) ∧
    (∀ (deepValues : Key → List Key → Evaluate) (deepChains : Chain) (node : Key) (level : Int),
      Emit.inBlock ((c.chainStep fun reader =>
          c.evaluateStep^[c.graph.nodes.length + 1] deepValues reader [])^[
            c.graph.nodes.length + 1] deepChains node level []) = c.entry node level) ∧
    (∀ values : Key → List Key → Evaluate,
      c.evaluateStep values = values ↔ values = c.evaluateWithin c.reach) ∧
    (∀ chains : Chain, c.chainStep c.evaluate chains = chains ↔ chains = c.chain) := by
  have hvalues := evaluateStep_eq (c := c) (Nat.lt_succ_self _)
  have hchains := chainStep_eq (c := c) (Nat.lt_succ_self _)
  refine ⟨hvalues, fun deepValues deepChains node level => ?_, fun values => ?_, fun chains => ?_⟩
  · rw [hvalues deepValues]
    exact congrArg Emit.inBlock (congrFun (congrFun (congrFun (hchains deepChains) node) level) [])
  · constructor
    · intro hfixed
      rw [← hvalues values, Function.iterate_fixed hfixed]
    · rintro rfl
      rw [← evaluateWithin_succ, ← evaluateWithin_iterate]
      exact evaluateStep_eq (by unfold reach; omega) _
  · constructor
    · intro hfixed
      rw [← hchains chains, Function.iterate_fixed hfixed]
    · rintro rfl
      rw [chain, ← chainWithin_succ, ← chainWithin_iterate]
      exact chainStep_eq (by unfold reach; omega) _

end Compilation

end CartGraph
