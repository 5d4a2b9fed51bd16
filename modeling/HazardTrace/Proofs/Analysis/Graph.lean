import HazardTrace.Analysis
import HazardTrace.Proofs.Ordering
import HazardTrace.Proofs.Program.Numbering

/-!
# The prepared graph

The graph that an analysis searches is the program with its ids replaced by numbers. Here it is said
what that means for each thing that a search asks of the graph.

* **Callers.** A caller is one that the program lists (`mem_callers_prepare`). This goes through the
  lists of callers by number (`CallGraph.mem_callers_build`).
* **Harmless calls.** A call is harmless if the program says that it was resolved
  (`isSafeEdge_prepare`). The verdicts are collected per target
  (`Verdicts.mem_resolvedCallers_ofReport`), turned into ascending lists (`Verdicts.mem_safeEdges`),
  and looked up by bisection (`CallGraph.isSafeEdge_build`). The lists are sorted whatever was
  given, so the lookup finds what is there.
* **Flags.** Entries are those of the program (`isEntry_prepare`), by its first description of a
  method, and hazards and safe methods those of the marking (`isHazard_prepare`, `isSafe_prepare`).
  No method that is not an entry is virtual (`isVirtual_prepare`), as a virtual method can be called
  from outside.

`Mirrors` puts this together, for use without the way in which the graph was built, and
`mirrors_prepare` says that it holds of what is prepared. Modules about searches and reports assume
`Mirrors` of an analysis and do not unfold `prepare`. A change in how the graph is built is felt
here and where whole relations are compared, and nowhere else.
-/

namespace HazardTrace

namespace CallGraph

variable {n u v : Nat} {edges : List (Nat × Nat)} {flags : NodeFlags} {safeEdges : Array (List Nat)}

/-! ### Graphs from pairs -/

/-- A node of the graph, by the pairs that were given. -/
theorem node_build (hu : u < n) :
    (build n edges flags safeEdges).node u =
      assemble flags safeEdges u
        (ascending (((edges.filter (inRange n)).filter (·.2 == u)).map (·.1))) := by
  rw [node, build, Array.getElem?_mapIdx, getElem?_callerLists, if_pos hu]
  rfl

/-- The callers of a node are those of the pairs. -/
theorem mem_callers_build (hu : u < n) (hv : v < n) :
    v ∈ (build n edges flags safeEdges).callers u ↔ (v, u) ∈ edges := by
  simp only [callers, node_build hu, assemble, mem_ascending, List.mem_map, List.mem_filter, inRange]
  constructor
  · rintro ⟨⟨v', u'⟩, ⟨⟨he, -⟩, hu'⟩, rfl⟩
    obtain rfl := beq_iff_eq.1 hu'
    exact he
  · intro he
    exact ⟨(v, u), ⟨⟨he, by simp [hu, hv]⟩, by simp⟩, rfl⟩

/-- The list of harmless callers is ascending, whatever was given, so that a lookup finds them. -/
theorem isSafeEdge_build (hu : u < n) :
    (build n edges flags safeEdges).isSafeEdge u v = true ↔ v ∈ safeEdges[u]?.getD [] := by
  rw [isSafeEdge, node_build hu, assemble, bisect_iff_mem (pairwise_lt_ascending _), mem_ascending]

end CallGraph

namespace Verdicts

variable {caller target u v n : Nat}

/-! ### Resolved calls -/

/-- One resolved call is one more caller of its target. -/
theorem mem_resolvedCallers_addResolved (vs : Verdicts) :
    v ∈ (vs.addResolved caller target).resolvedCallers u ↔
      (v, u) = (caller, target) ∨ v ∈ vs.resolvedCallers u := by
  unfold addResolved
  split
  next hknown =>
    refine ⟨.inr, fun h ↦ h.elim (fun heq ↦ ?_) fun hv ↦ hv⟩
    obtain ⟨rfl, rfl⟩ := Prod.mk.inj heq
    exact hknown
  · unfold resolvedCallers
    rw [Std.TreeMap.getD_insert]
    by_cases hu : target = u
    · subst hu
      simp [or_comm]
    · rw [if_neg (by simpa using hu)]
      exact ⟨.inr, fun h ↦ h.resolve_left fun heq ↦ hu (Prod.mk.inj heq).2.symm⟩

/-- The same for any number of calls. -/
theorem mem_resolvedCallers_foldl (vs : Verdicts) (pairs : List (Nat × Nat)) :
    v ∈ (pairs.foldl (fun vs p ↦ vs.addResolved p.1 p.2) vs).resolvedCallers u ↔
      (v, u) ∈ pairs ∨ v ∈ vs.resolvedCallers u := by
  induction pairs generalizing vs with
  | nil => simp
  | cons p pairs ih =>
    rw [List.foldl_cons, ih, mem_resolvedCallers_addResolved, List.mem_cons, or_left_comm, or_assoc]

/-- Unresolved calls leave the resolved ones as they are. -/
theorem resolved_foldl_addUnresolved (vs : Verdicts) (calls : List (Nat × ReflectiveCall)) :
    (calls.foldl (fun vs p ↦ vs.addUnresolved p.1 p.2) vs).resolved = vs.resolved := by
  induction calls generalizing vs with
  | nil => rfl
  | cons p calls ih => rw [List.foldl_cons, ih]; rfl

/-- The resolved callers are those of the report whose ids have numbers. -/
theorem mem_resolvedCallers_ofReport {α : Type} {r : ReflectionReport} {s : Numbering α} :
    v ∈ (ofReport r s).value.resolvedCallers u ↔
      ∃ c ∈ r.recognized, s.number? c.caller = some v ∧ s.number? c.target = some u := by
  -- the unresolved calls are added last and leave the table of resolved ones alone
  unfold ofReport resolvedCallers
  rw [resolved_foldl_addUnresolved]
  change v ∈ resolvedCallers _ u ↔ _
  rw [mem_resolvedCallers_foldl, List.mem_filterMap]
  constructor
  · rintro (⟨c, hc, hpair⟩ | hnone)
    · refine ⟨c, hc, ?_⟩
      cases hv : s.number? c.caller <;> cases hu : s.number? c.target <;> simp_all
    · simp [resolvedCallers] at hnone
  · rintro ⟨c, hc, hv, hu⟩
    exact .inl ⟨c, hc, by simp [hv, hu]⟩

/-- The lists for the graph hold the resolved callers. -/
theorem mem_safeEdges (vs : Verdicts) (hu : u < n) :
    v ∈ (vs.safeEdges n)[u]?.getD [] ↔ v ∈ vs.resolvedCallers u := by
  simp only [safeEdges, Array.getElem?_map, getElem?_buckets, hu, if_true, Option.map_some,
    Option.getD_some, mem_ascending, List.mem_flatten, List.mem_map, List.mem_filter, resolvedCallers]
  constructor
  · rintro ⟨_, ⟨⟨target, callers⟩, ⟨hmem, htarget⟩, rfl⟩, hv⟩
    obtain rfl := beq_iff_eq.1 htarget
    rw [Std.TreeMap.mem_toList_iff_getElem?_eq_some] at hmem
    rwa [Std.TreeMap.getD_eq_getD_getElem?, hmem]
  · intro hv
    rw [Std.TreeMap.getD_eq_getD_getElem?] at hv
    cases hcallers : vs.resolved[u]? with
    | none => simp [hcallers] at hv
    | some callers =>
      rw [hcallers] at hv
      exact ⟨callers, ⟨(u, callers), ⟨Std.TreeMap.mem_toList_iff_getElem?_eq_some.2 hcallers,
        by simp⟩, rfl⟩, hv⟩

end Verdicts

/-- A hazard is annotated and not safe. -/
theorem Marking.isHazard_eq (m : Marking) (u : Nat) :
    m.isHazard u = ((m.note? u).isSome && !m.isSafe u) := by
  unfold isHazard standing note? isSafe
  cases m.marks[u]? with
  | none => rfl
  | some mark =>
    obtain ⟨note, safe⟩ := mark
    cases note <;> cases safe <;> rfl

namespace Analysis

/-! ### The graph of a program -/

/-- What the graph of an analysis is built from. -/
theorem graph_prepare (p : Program) (rules : List Rule) :
    (prepare p rules).value.graph = .build p.numbering.size (p.numberedEdges p.numbering)
      { entry := methodFlags p.numbering Method.isEntry
        hazard := (prepare p rules).value.marking.hazardFlags
        safe := (prepare p rules).value.marking.safeFlags
        virtual := methodFlags p.numbering Method.isVirtual }
      ((Verdicts.ofReport p.reflection p.numbering).value.safeEdges p.numbering.size) :=
  rfl

theorem size_graph_prepare (p : Program) (rules : List Rule) :
    (prepare p rules).value.graph.size = p.numbering.size := by
  simp [graph_prepare, CallGraph.size, CallGraph.build]

theorem getElem?_methodFlags (s : Numbering Method) (property : Method → Bool) (u : Nat) :
    (methodFlags s property)[u]?.getD false = (s.detail? u).any property := by
  unfold methodFlags Numbering.detail?
  rw [Array.getElem?_map]
  cases s.slots[u]? <;> rfl

section Prepared

variable {p : Program} {u v : Nat} {callee caller : String} (rules : List Rule)
  (hu : p.numbering.id? u = some callee)
include hu

/-- The callers of a method are those that the program lists. -/
theorem mem_callers_prepare (hv : p.numbering.id? v = some caller) :
    v ∈ (prepare p rules).value.graph.callers u ↔ (caller, callee) ∈ p.edges := by
  rw [graph_prepare, CallGraph.mem_callers_build (Numbering.lt_size_of_id? hu)
    (Numbering.lt_size_of_id? hv), Program.mem_numberedEdges]
  constructor
  · rintro ⟨⟨caller', callee'⟩, he, hcaller, hcallee⟩
    obtain rfl := Option.some.inj (hv.symm.trans (Numbering.number?_eq_some_iff.1 hcaller))
    obtain rfl := Option.some.inj (hu.symm.trans (Numbering.number?_eq_some_iff.1 hcallee))
    exact he
  · intro he
    exact ⟨_, he, Numbering.number?_eq_some_iff.2 hv, Numbering.number?_eq_some_iff.2 hu⟩

/-- The harmless calls are the reflective ones that were resolved. -/
theorem isSafeEdge_prepare (hv : p.numbering.id? v = some caller) :
    (prepare p rules).value.graph.isSafeEdge u v = true ↔
      ⟨caller, callee⟩ ∈ p.reflection.recognized := by
  have hlt := Numbering.lt_size_of_id? hu
  rw [graph_prepare, CallGraph.isSafeEdge_build hlt, Verdicts.mem_safeEdges _ hlt,
    Verdicts.mem_resolvedCallers_ofReport]
  constructor
  · rintro ⟨⟨caller', target⟩, hc, hcaller, htarget⟩
    obtain rfl := Option.some.inj (hv.symm.trans (Numbering.number?_eq_some_iff.1 hcaller))
    obtain rfl := Option.some.inj (hu.symm.trans (Numbering.number?_eq_some_iff.1 htarget))
    exact hc
  · intro hc
    exact ⟨_, hc, Numbering.number?_eq_some_iff.2 hv, Numbering.number?_eq_some_iff.2 hu⟩

/-- Entries are those of the program. -/
theorem isEntry_prepare : (prepare p rules).value.graph.isEntry u = p.isEntry callee := by
  simp only [graph_prepare, CallGraph.isEntry, CallGraph.node_build (Numbering.lt_size_of_id? hu),
    CallGraph.assemble, getElem?_methodFlags]
  rw [← Numbering.find?_eq_detail? hu, Program.find?_numbering]
  rfl

/-- A virtual method can be called from outside. -/
theorem isVirtual_prepare (h : p.isEntry callee = false) :
    (prepare p rules).value.graph.isVirtual u = false := by
  simp only [graph_prepare, CallGraph.isVirtual, CallGraph.node_build (Numbering.lt_size_of_id? hu),
    CallGraph.assemble, getElem?_methodFlags]
  rw [← Numbering.find?_eq_detail? hu, Program.find?_numbering]
  unfold Program.isEntry at h
  cases hm : p.method? callee with
  | none => rfl
  | some m =>
    rw [hm] at h
    exact (Bool.or_eq_false_iff.1 h).2

theorem isHazard_prepare :
    (prepare p rules).value.graph.isHazard u = (prepare p rules).value.marking.isHazard u := by
  simp only [graph_prepare, CallGraph.isHazard, CallGraph.node_build (Numbering.lt_size_of_id? hu),
    CallGraph.assemble, Marking.isHazard, Marking.standing, Marking.hazardFlags, Array.getElem?_map]
  cases (prepare p rules).value.marking.marks[u]? <;> rfl

theorem isSafe_prepare :
    (prepare p rules).value.graph.isSafe u = (prepare p rules).value.marking.isSafe u := by
  simp only [graph_prepare, CallGraph.isSafe, CallGraph.node_build (Numbering.lt_size_of_id? hu),
    CallGraph.assemble, Marking.isSafe, Marking.safeFlags, Array.getElem?_map]
  cases (prepare p rules).value.marking.marks[u]? <;> rfl

end Prepared

/-- An analysis mirrors a program: its graph says about numbers what the program says about ids, and
flags the methods as its marking does. -/
structure Mirrors (p : Program) (pre : Prepared) : Prop where
  exists_number? : ∀ {caller callee}, (caller, callee) ∈ p.edges →
    (∃ v, pre.numbering.number? caller = some v) ∧ ∃ u, pre.numbering.number? callee = some u
  exists_id? : ∀ {u}, u < pre.graph.size → ∃ id, pre.numbering.id? u = some id
  lt_size : ∀ {u id}, pre.numbering.id? u = some id → u < pre.graph.size
  mem_callers : ∀ {u v callee caller}, pre.numbering.id? u = some callee →
    pre.numbering.id? v = some caller → (v ∈ pre.graph.callers u ↔ (caller, callee) ∈ p.edges)
  isSafeEdge : ∀ {u v callee caller}, pre.numbering.id? u = some callee →
    pre.numbering.id? v = some caller →
      (pre.graph.isSafeEdge u v = true ↔ ⟨caller, callee⟩ ∈ p.reflection.recognized)
  isEntry : ∀ {u id}, pre.numbering.id? u = some id → pre.graph.isEntry u = p.isEntry id
  isVirtual : ∀ {u id}, pre.numbering.id? u = some id → p.isEntry id = false →
    pre.graph.isVirtual u = false
  isHazard : ∀ {u id}, pre.numbering.id? u = some id →
    pre.graph.isHazard u = pre.marking.isHazard u
  isSafe : ∀ {u id}, pre.numbering.id? u = some id → pre.graph.isSafe u = pre.marking.isSafe u

/-- **What is prepared mirrors the program.** -/
theorem mirrors_prepare (p : Program) (rules : List Rule) : Mirrors p (prepare p rules).value where
  exists_number? := Program.exists_number?_of_mem_edges
  exists_id? hu := Numbering.exists_id? (by rwa [size_graph_prepare] at hu)
  lt_size hu := by
    rw [size_graph_prepare]
    exact Numbering.lt_size_of_id? hu
  mem_callers := mem_callers_prepare rules
  isSafeEdge := isSafeEdge_prepare rules
  isEntry := isEntry_prepare rules
  isVirtual := isVirtual_prepare rules
  isHazard := isHazard_prepare rules
  isSafe := isSafe_prepare rules

end Analysis

end HazardTrace
