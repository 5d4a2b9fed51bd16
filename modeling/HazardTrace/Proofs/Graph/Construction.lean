import HazardTrace.Proofs.Analysis.Relation
import HazardTrace.Proofs.Search.Lookups

/-!
# Graphs from any input

A graph can be built from whatever is given: pairs that name methods outside of it or that are
repeated, flags for too few or too many methods, lists of harmless callers in any order. What is
built is in order all the same (`build_in_order`).

* The callers of a method are ascending and without repetitions, and they are the methods in range
  that it was paired with (`mem_callers_build_iff`, `pairwise_callers_build`). So the edges are as
  many as the different pairs in range.
* Harmless callers are sorted in the same way, so that a caller can be looked up by halving
  (`bisect_iff_mem`). The lookup finds exactly what was listed, whether it is in range or not.
* Flags are cut and filled up (`fitted`), so that each method has one of each kind. The four kinds
  are one lemma (`map_flag_build`), which is asked for the place where a node keeps the flag.
* A search of the graph looks nothing up that is out of bounds. This is `searchChecked_eq`, which
  holds of all graphs: a `CallGraph` carries with it that its callers are nodes, so building one
  includes the proof.
-/

namespace HazardTrace

/-- Flags for `n` methods: the given ones as far as they go, and `false` behind them. -/
def fitted (n : Nat) (given : Array Bool) : List Bool :=
  (given.toList.take n).rightpad n false

/-- There is one flag for each method. -/
theorem length_fitted (n : Nat) (given : Array Bool) : (fitted n given).length = n := by
  simp [fitted]

/-- The flag of a method is the given one, or `false` where none was given. -/
theorem getElem?_fitted {n u : Nat} (given : Array Bool) (hu : u < n) :
    (fitted n given)[u]? = some (given[u]?.getD false) := by
  unfold fitted List.rightpad
  by_cases hgiven : u < given.size
  · rw [List.getElem?_append_left (by simp [hu, hgiven]), List.getElem?_take_of_lt hu,
      Array.getElem?_toList, Array.getElem?_eq_getElem hgiven]
    rfl
  · have hlength : (given.toList.take n).length = given.size := by
      simp
      omega
    rw [List.getElem?_append_right (by omega), hlength, List.getElem?_replicate,
      if_pos (by omega), Array.getElem?_eq_none (Nat.not_lt.1 hgiven)]
    rfl

namespace CallGraph

variable {n u v : Nat} {edges : List (Nat × Nat)} {flags : NodeFlags}
  {safeEdges : Array (List Nat)}

/-- The callers of a method are those that it is paired with, if they are in range. -/
theorem mem_callers_build_iff (hu : u < n) :
    v ∈ (build n edges flags safeEdges).callers u ↔ v < n ∧ (v, u) ∈ edges := by
  constructor
  · intro hv
    have hlt : v < n := by simpa using lt_of_mem_callers hv
    exact ⟨hlt, (mem_callers_build hu hlt).1 hv⟩
  · rintro ⟨hlt, he⟩
    exact (mem_callers_build hu hlt).2 he

theorem pairwise_callers_build (hu : u < n) :
    ((build n edges flags safeEdges).callers u).Pairwise (· < ·) := by
  rw [callers, node_build hu]
  exact pairwise_lt_ascending _

/-- The nodes of a graph bear the flags that were given for them. -/
theorem map_flag_build {flag : GraphNode → Bool} {given : Array Bool}
    (h : ∀ u callers, flag (assemble flags safeEdges u callers) = given[u]?.getD false) :
    (build n edges flags safeEdges).nodes.toList.map flag = fitted n given := by
  rw [toList_nodes, size_build, List.map_map]
  refine List.ext_getElem? fun u ↦ ?_
  rw [List.getElem?_map]
  by_cases hu : u < n
  · rw [List.getElem?_range hu, Option.map_some, Function.comp_apply, node_build hu, h,
      getElem?_fitted given hu]
  · rw [List.getElem?_eq_none (by simpa using hu),
      List.getElem?_eq_none (by simpa [length_fitted] using hu), Option.map_none]

/-- **A graph is in order, whatever it is built from.** It has the nodes that were asked for. The
callers of a method are ascending, and they are the methods in range that it was paired with; the
edges are as many as the different pairs in range. A call is found to be harmless exactly if it was
listed as such. Each kind of flag is there for all nodes, as given and then `false`. No search of
the graph looks up a number that is out of bounds. -/
theorem build_in_order (n : Nat) (edges : List (Nat × Nat)) (flags : NodeFlags)
    (safeEdges : Array (List Nat)) :
    let g := build n edges flags safeEdges
    g.size = n ∧
    (∀ u < n, (g.callers u).Pairwise (· < ·) ∧
      ∀ v, v ∈ g.callers u ↔ v < n ∧ (v, u) ∈ edges) ∧
    g.edgeCount = (edges.toFinset.filter fun e ↦ e.1 < n ∧ e.2 < n).card ∧
    (∀ u < n, ∀ v, g.isSafeEdge u v = true ↔ ∃ given, safeEdges[u]? = some given ∧ v ∈ given) ∧
    g.nodes.toList.map GraphNode.isEntry = fitted n flags.entry ∧
    g.nodes.toList.map GraphNode.isHazard = fitted n flags.hazard ∧
    g.nodes.toList.map GraphNode.isSafe = fitted n flags.safe ∧
    g.nodes.toList.map GraphNode.isVirtual = fitted n flags.virtual ∧
    ∀ o start, g.searchChecked o start = some (g.search o start) := by
  intro g
  refine ⟨size_build, fun u hu ↦ ⟨pairwise_callers_build hu, fun v ↦ mem_callers_build_iff hu⟩, ?_,
    fun u hu v ↦ ?_, map_flag_build fun _ _ ↦ rfl, map_flag_build fun _ _ ↦ rfl,
    map_flag_build fun _ _ ↦ rfl, map_flag_build fun _ _ ↦ rfl, searchChecked_eq g⟩
  · rw [edgeCount_build, ← List.card_toFinset, List.toFinset_filter]
    simp only [inRange, Bool.and_eq_true, decide_eq_true_eq]
  · rw [isSafeEdge_build hu]
    cases safeEdges[u]? <;> simp

/-- Pairs that are repeated and out of range, harmless callers out of order and repeated, flags for
one method only and for one too many. -/
def untidy : CallGraph :=
  build 3 [(2, 0), (1, 0), (2, 0), (0, 7), (9, 1)]
    { entry := #[true], hazard := #[true, false, false, true] } #[[2, 0, 2, 1, 8]]

/-- Two callers are left of the five pairs, and both of their calls are found to be harmless. -/
theorem build_in_order_untidy :
    1 ∈ untidy.callers 0 ∧ 9 ∉ untidy.callers 1 ∧ untidy.edgeCount = 2 ∧
      untidy.isSafeEdge 0 1 = true ∧ untidy.isSafeEdge 0 3 = false ∧
      untidy.nodes.toList.map GraphNode.isEntry = [true, false, false] ∧
      untidy.nodes.toList.map GraphNode.isHazard = [true, false, false] ∧
      untidy.searchChecked {} 0 = some (untidy.search {} 0) := by
  obtain ⟨-, hcallers, hcount, hsafe, hentry, hhazard, -, -, hsearch⟩ :=
    build_in_order 3 [(2, 0), (1, 0), (2, 0), (0, 7), (9, 1)]
      { entry := #[true], hazard := #[true, false, false, true] } #[[2, 0, 2, 1, 8]]
  refine ⟨((hcallers 0 (by decide)).2 1).2 (by decide), fun h ↦ ?_, hcount.trans (by decide),
    (hsafe 0 (by decide) 1).2 ⟨_, rfl, by decide⟩, ?_, hentry, hhazard, hsearch {} 0⟩
  · exact absurd (((hcallers 1 (by decide)).2 9).1 h).1 (by decide)
  · rw [← Bool.not_eq_true]
    intro h
    obtain ⟨given, hgiven, hmem⟩ := (hsafe 0 (by decide) 3).1 h
    cases hgiven
    revert hmem
    decide

end CallGraph

end HazardTrace
