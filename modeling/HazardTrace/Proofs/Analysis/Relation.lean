import HazardTrace.Proofs.Analysis.Seeds
import HazardTrace.Proofs.Analysis.Verdicts
import HazardTrace.Proofs.Marking.Rules

/-!
# The prepared graph is the relation of the program

The passes that prepare an analysis skip what they cannot resolve, each for itself. Since all ids
that a program names are numbered before (`Program.ids_numbering`), none of them has anything to
skip: the program `Knows` its calls, its resolved and its unresolved reflective calls (`knows_edges`
and the two behind it). What follows from that is said of the whole relation.

* Every call is an edge of the graph and is counted once (`edgeCount_prepare`). The count goes from
  lists per method to pairs of numbers, and from these to pairs of ids (`edgeCount_build`,
  `Numbering.length_dedup_filterMap`).
* Every unresolved call is on record with its caller, unless a rule or an inherited warning stands
  there. A record that is there holds all calls of its method, in order (`calls_of_note?_prepare`),
  and a method that has any is annotated in some way (`note?_prepare_ne_none`). Both go through the
  marks before inheritance (`note_seed`) and what inheritance leaves of them
  (`note?_prepare_cases`).
* Nothing is logged, because nothing was dropped (`buildLogged_of_inRange`,
  `Verdicts.events_ofReport`).

`prepare_exact` puts this together with what `Mirrors` says of single methods. Its reading is that a
prepared analysis can be replaced by the program itself: numbers stand for ids, callers for listed
calls, harmless calls for resolved ones, entries for public or virtual methods by their first
description.
-/

namespace HazardTrace

namespace CallGraph

variable {n u : Nat} {edges : List (Nat × Nat)} {flags : NodeFlags} {safeEdges : Array (List Nat)}

/-! ### Edges of a graph -/

/-- No caller is listed twice. -/
theorem nodup_callers_build (hu : u < n) : ((build n edges flags safeEdges).callers u).Nodup := by
  rw [callers, node_build hu]
  exact nodup_ascending _

theorem toList_nodes (g : CallGraph) : g.nodes.toList = (List.range g.size).map g.node := by
  refine List.ext_getElem? fun i ↦ ?_
  rw [List.getElem?_map, Array.getElem?_toList]
  by_cases hi : i < g.size
  · have hget : g.nodes[i]? = some g.nodes[i] := Array.getElem?_eq_getElem hi
    rw [List.getElem?_range hi, Option.map_some, node, hget]
    rfl
  · rw [List.getElem?_eq_none (by simpa using hi), Array.getElem?_eq_none (Nat.not_lt.1 hi)]
    rfl

/-- The edges are counted over the lists of callers. -/
theorem edgeCount_eq (g : CallGraph) :
    g.edgeCount = ((List.range g.size).flatMap g.callers).length := by
  rw [edgeCount, toList_nodes, List.flatMap_map]
  rfl

@[simp]
theorem size_build : (build n edges flags safeEdges).size = n := by
  simp [size, build]

/-- A graph has as many edges as it was given different pairs in range. -/
theorem edgeCount_build :
    (build n edges flags safeEdges).edgeCount = (edges.filter (inRange n)).dedup.length := by
  rw [edgeCount_eq, size_build]
  refine length_flatMap_eq_of_mem_iff List.nodup_range
    (fun u hu ↦ nodup_callers_build (List.mem_range.1 hu)) fun v u ↦ ?_
  rw [List.mem_range, List.mem_filter, inRange, Bool.and_eq_true, decide_eq_true_eq,
    decide_eq_true_eq]
  constructor
  · rintro ⟨hu, hv⟩
    have hlt : v < n := by simpa using lt_of_mem_callers hv
    exact ⟨(mem_callers_build hu hlt).1 hv, hlt, hu⟩
  · rintro ⟨he, hv, hu⟩
    exact ⟨hu, (mem_callers_build hu hv).2 he⟩

/-- Nothing is left out or logged if all pairs are in range. -/
theorem buildLogged_of_inRange (h : ∀ e ∈ edges, inRange n e = true) :
    buildLogged n edges flags safeEdges = pure (build n edges flags safeEdges) := by
  have hdropped : edges.countP (!inRange n ·) = 0 :=
    List.countP_eq_zero.2 fun e he ↦ by simp [h e he]
  simp only [buildLogged, hdropped, if_true]
  rfl

end CallGraph

namespace Program

variable {p : Program}

/-! ### All ids are known -/

/-- The ids of pairs are known if the program mentions them. -/
theorem knows_of_subset {l : List (String × String)}
    (h : l.flatMap (fun e ↦ [e.1, e.2]) ⊆ p.mentioned) : p.numbering.Knows l := by
  intro e he
  have hends : ∀ id ∈ [e.1, e.2], id ∈ p.numbering.ids := fun id hid ↦
    Numbering.mem_ids.2 (exists_number? (h (List.mem_flatMap.2 ⟨e, he, hid⟩)))
  exact ⟨hends e.1 (by simp), hends e.2 (by simp)⟩

/-- Both ends of every call are mentioned. -/
theorem knows_edges (p : Program) : p.numbering.Knows p.edges :=
  knows_of_subset fun _ hid ↦ List.mem_append_left _ (List.mem_append_left _ hid)

theorem knows_recognized (p : Program) :
    p.numbering.Knows (p.reflection.recognized.map ResolvedCall.ends) := by
  refine knows_of_subset fun _ hid ↦ List.mem_append_left _ (List.mem_append_right _ ?_)
  rwa [List.flatMap_map] at hid

theorem knows_unrecognized (p : Program) :
    p.numbering.Knows (p.reflection.unrecognized.map UnresolvedCall.ends) := by
  refine knows_of_subset fun _ hid ↦ List.mem_append_right _ ?_
  rwa [List.flatMap_map] at hid

/-- Numbers that were given out are in range. -/
theorem inRange_of_mem_numberedEdges {s : Numbering Method} {e : Nat × Nat}
    (h : e ∈ p.numberedEdges s) : CallGraph.inRange s.size e = true := by
  obtain ⟨⟨caller, callee⟩, -, hcaller, hcallee⟩ := mem_numberedEdges.1 h
  have hcaller := Numbering.lt_size_of_id? (Numbering.number?_eq_some_iff.1 hcaller)
  have hcallee := Numbering.lt_size_of_id? (Numbering.number?_eq_some_iff.1 hcallee)
  simp [CallGraph.inRange, hcaller, hcallee]

end Program

/-! ### Calls on record -/

namespace Mark

variable {mark : Mark} {l calls : List ReflectiveCall}

/-- A record of calls grows by all calls that are added. -/
theorem note_addCalls_of_unanalyzed (h : mark.note = some (.unanalyzed l))
    (calls : List ReflectiveCall) : (mark.addCalls calls).note = some (.unanalyzed (l ++ calls)) := by
  induction calls generalizing mark l with
  | nil => simpa [addCalls] using h
  | cons call calls ih =>
    have hstep : (mark.addCall call).note = some (.unanalyzed (l ++ [call])) := by
      rw [addCall, h]
    rw [addCalls, List.foldl_cons, ← addCalls, ih hstep, List.append_assoc]
    rfl

/-- On a mark without note the first call begins a record. -/
theorem note_addCalls_cons (h : mark.note = none) (call : ReflectiveCall)
    (calls : List ReflectiveCall) :
    (mark.addCalls (call :: calls)).note = some (.unanalyzed (call :: calls)) := by
  have hstep : (mark.addCall call).note = some (.unanalyzed [call]) := by
    rw [addCall, h]
  exact note_addCalls_of_unanalyzed hstep calls

/-- A mark that carries no record yet takes exactly the calls that are added, or is closed. -/
theorem note_addCalls (h : ∀ a, mark.note = some a → a.isConfigured = true)
    (calls : List ReflectiveCall) : (mark.addCalls calls).note =
      if mark.note = none ∧ calls ≠ [] then some (.unanalyzed calls) else mark.note := by
  cases hnote : mark.note with
  | some a =>
    have hclosed : mark.isOpen = false := by
      simp [isOpen, hnote, h a hnote]
    simp [addCalls_of_closed hclosed, hnote]
  | none =>
    cases calls with
    | nil => simp [addCalls, hnote]
    | cons call calls => simp [note_addCalls_cons hnote]

end Mark

/-- Rules leave configured notes only. -/
theorem Rule.isConfigured_of_judgeAll (rules : List Rule) (s : Numbering Method) (u : Nat) :
    ∀ a, (Rule.judgeAll rules s u {}).note = some a → a.isConfigured = true := by
  intro a ha
  rw [note_judgeAll] at ha
  have hfirst : (firstNote? rules s u).or none = some a := ha
  rw [Option.or_none] at hfirst
  exact isConfigured_of_firstNote? hfirst

namespace Analysis

variable {p : Program} {u : Nat}

/-- The note before inheritance is that of the rules, or else the record of the calls. -/
theorem note_seed (p : Program) (rules : List Rule) (u : Nat) :
    (seed p rules u).note =
      if (Rule.judgeAll rules p.numbering u {}).note = none ∧
          (Verdicts.ofReport p.reflection p.numbering).value.unresolvedCalls u ≠ [] then
        some (.unanalyzed ((Verdicts.ofReport p.reflection p.numbering).value.unresolvedCalls u))
      else (Rule.judgeAll rules p.numbering u {}).note :=
  Mark.note_addCalls (Rule.isConfigured_of_judgeAll rules p.numbering u) _

/-- Inheritance leaves a note as the seed has it, or replaces it by a warning. -/
theorem note?_prepare_cases (p : Program) (rules : List Rule) (hu : u < p.numbering.size) :
    (prepare p rules).value.marking.note? u = (seed p rules u).note ∨
      ∃ r, (prepare p rules).value.marking.note? u = some (.warn r) := by
  rw [marking_prepare]
  rcases (Inheritance.settled_inherit (seeded p rules) p.numberedOverrides
    (methodFlags p.numbering Method.isVirtual)).marks u with hsame | ⟨r, k, htook⟩
  · left
    rw [Marking.note?, hsame, marks_seeded, if_pos hu]
    rfl
  · exact .inr ⟨r, htook.note?⟩

/-- **A record of calls holds all unresolved calls of its method.** -/
theorem calls_of_note?_prepare {rules : List Rule} {calls : List ReflectiveCall}
    (hu : u < p.numbering.size)
    (h : (prepare p rules).value.marking.note? u = some (.unanalyzed calls)) :
    calls = (Verdicts.ofReport p.reflection p.numbering).value.unresolvedCalls u := by
  rcases note?_prepare_cases p rules hu with hsame | ⟨r, hwarn⟩
  · rw [h, note_seed] at hsame
    split at hsame
    · exact Note.unanalyzed.inj (Option.some.inj hsame)
    · cases Rule.isConfigured_of_judgeAll rules p.numbering u _ hsame.symm
  · cases h.symm.trans hwarn

/-- A method with unresolved calls is annotated. -/
theorem note?_prepare_ne_none (rules : List Rule) (hu : u < p.numbering.size)
    (h : (Verdicts.ofReport p.reflection p.numbering).value.unresolvedCalls u ≠ []) :
    (prepare p rules).value.marking.note? u ≠ none := by
  rcases note?_prepare_cases p rules hu with hsame | ⟨r, hwarn⟩
  · rw [hsame, note_seed]
    split
    · exact Option.some_ne_none _
    next hnot => exact fun hnone ↦ hnot ⟨hnone, h⟩
  · rw [hwarn]
    exact Option.some_ne_none _

/-! ### The relation -/

/-- **Each call of the program is counted once.** -/
theorem edgeCount_prepare (p : Program) (rules : List Rule) :
    (prepare p rules).value.graph.edgeCount = p.edges.dedup.length := by
  rw [graph_prepare, CallGraph.edgeCount_build,
    List.filter_eq_self.2 fun e ↦ Program.inRange_of_mem_numberedEdges]
  exact Numbering.length_dedup_filterMap p.knows_edges

/-- Entries are public or virtual by their first description. -/
theorem isEntry_prepare_iff (rules : List Rule) {id : String}
    (hu : p.numbering.id? u = some id) : (prepare p rules).value.graph.isEntry u = true ↔
      ∃ m, p.methods.find? (·.id == id) = some m ∧ (m.isPublic = true ∨ m.isVirtual = true) := by
  rw [isEntry_prepare rules hu, Program.isEntry, Option.any_eq_true]
  simp only [Method.isEntry, Bool.or_eq_true]
  rfl

/-- Hazards are annotated and not safe. -/
theorem isHazard_prepare_iff (rules : List Rule) {id : String}
    (hu : p.numbering.id? u = some id) : (prepare p rules).value.graph.isHazard u = true ↔
      (prepare p rules).value.marking.note? u ≠ none ∧
        (prepare p rules).value.marking.isSafe u = false := by
  rw [isHazard_prepare rules hu, Marking.isHazard_eq]
  simp [Option.isSome_iff_ne_none]

/-- **What is prepared is the relation of the program.** All ids that the program names have
numbers, the described ones first. No call and no verdict is dropped. Between numbered methods,
callers are those of the program, once each, and harmless calls are the resolved ones. A record of
calls holds all unresolved calls of its method, and a method that has any is annotated. Entries are
the methods whose first description is public or virtual, hazards those that are annotated and not
safe. -/
theorem prepare_exact (p : Program) (rules : List Rule) :
    let pre := (prepare p rules).value
    (∀ id, (∃ u, pre.numbering.number? id = some u) ↔
      id ∈ p.methods.map Method.id ∨ id ∈ p.mentioned) ∧
    (p.methods.map Method.id).eraseDups <+: pre.numbering.ids ∧
    pre.graph.size = pre.numbering.size ∧
    (p.numberedEdges pre.numbering).map pre.numbering.names = p.edges ∧
    pre.graph.edgeCount = p.edges.dedup.length ∧
    (Verdicts.ofReport p.reflection pre.numbering).events = [] ∧
    pre.resolvedReflectionCalls = p.reflection.recognized.dedup.length ∧
    ∀ u callee, pre.numbering.id? u = some callee →
      (pre.graph.callers u).Nodup ∧
      (∀ v caller, pre.numbering.id? v = some caller →
        (v ∈ pre.graph.callers u ↔ (caller, callee) ∈ p.edges) ∧
        (pre.graph.isSafeEdge u v = true ↔ ⟨caller, callee⟩ ∈ p.reflection.recognized)) ∧
      ((∃ c ∈ p.reflection.unrecognized, c.caller = callee) → pre.marking.note? u ≠ none) ∧
      (∀ calls, pre.marking.note? u = some (.unanalyzed calls) →
        calls.map (fun call ↦ (pre.numbering.id? call.target, call.remark)) =
          (p.reflection.unrecognized.filter (·.caller == callee)).map
            fun c ↦ (some c.target, c.remark)) ∧
      (pre.graph.isEntry u = true ↔ ∃ m, p.methods.find? (·.id == callee) = some m ∧
        (m.isPublic = true ∨ m.isVirtual = true)) ∧
      (pre.graph.isHazard u = true ↔ pre.marking.note? u ≠ none ∧ pre.marking.isSafe u = false) ∧
      pre.graph.isSafe u = pre.marking.isSafe u ∧
      ¬ (pre.graph.isHazard u = true ∧ pre.graph.isSafe u = true) ∧
      (pre.graph.isVirtual u = true → pre.graph.isEntry u = true) := by
  intro pre
  refine ⟨fun id ↦ ?_, ?_, size_graph_prepare p rules, Numbering.map_names_filterMap p.knows_edges,
    edgeCount_prepare p rules, Verdicts.events_ofReport p.knows_recognized p.knows_unrecognized,
    Verdicts.resolvedCount_ofReport p.knows_recognized, ?_⟩
  · show (∃ u, p.numbering.number? id = some u) ↔ _
    rw [← Numbering.mem_ids, p.ids_numbering, List.mem_eraseDups, List.mem_append]
  · show _ <+: p.numbering.ids
    rw [p.ids_numbering, List.eraseDups_append]
    exact List.prefix_append ..
  intro u callee (hu : p.numbering.id? u = some callee)
  have hlt : u < p.numbering.size := Numbering.lt_size_of_id? hu
  have hcalls := Verdicts.map_unresolvedCalls_ofReport hu p.knows_unrecognized
  have hhazard := isHazard_prepare_iff rules hu
  refine ⟨?_, fun v caller hv ↦ ⟨mem_callers_prepare rules hu hv, isSafeEdge_prepare rules hu hv⟩,
    ?_, ?_, isEntry_prepare_iff rules hu, hhazard, isSafe_prepare rules hu, ?_, ?_⟩
  · show ((prepare p rules).value.graph.callers u).Nodup
    rw [graph_prepare]
    exact CallGraph.nodup_callers_build hlt
  · rintro ⟨c, hc, rfl⟩
    refine note?_prepare_ne_none rules hlt fun hnil ↦ ?_
    rw [hnil, List.map_nil] at hcalls
    have hmem : c ∈ p.reflection.unrecognized.filter (·.caller == c.caller) := by simp [hc]
    rw [List.map_eq_nil_iff.1 hcalls.symm] at hmem
    cases hmem
  · intro calls hnote
    rw [calls_of_note?_prepare hlt hnote]
    exact hcalls
  · rintro ⟨hhaz, hsafe⟩
    cases hsafe.symm.trans ((isSafe_prepare rules hu).trans (hhazard.1 hhaz).2)
  · intro hvirtual
    have hentry := isEntry_prepare rules hu
    cases hcallee : p.isEntry callee with
    | true => exact hentry.trans hcallee
    | false => cases hvirtual.symm.trans (isVirtual_prepare rules hu hcallee)

/-- A method is described twice, a call is listed twice, and a caller with an unresolved call is not
described at all. -/
def twiceDescribed : Program where
  methods := [
    { id := "risk", name := "Risk", signature := "Risk()", declaringType := "Lib" },
    { id := "main", name := "Main", signature := "Main()", declaringType := "App",
      isPublic := true },
    { id := "risk", name := "Risk", signature := "Risk()", declaringType := "Lib",
      isPublic := true }]
  edges := [("main", "risk"), ("ghost", "risk"), ("main", "risk")]
  reflection := {
    recognized := [⟨"main", "risk"⟩]
    unrecognized := [{ caller := "ghost", target := "risk", aspect := .memberTrimming,
                       message := "unknown type" }] }

/-- The first description counts, each call once, and the undescribed caller is numbered last. -/
theorem prepare_exact_twiceDescribed :
    let pre := (prepare twiceDescribed []).value
    pre.graph.edgeCount = 2 ∧ 1 ∈ pre.graph.callers 0 ∧ 2 ∈ pre.graph.callers 0 ∧
    pre.graph.isSafeEdge 0 1 = true ∧ pre.graph.isEntry 0 = false ∧
    pre.marking.note? 2 ≠ none := by
  intro pre
  obtain ⟨-, -, -, -, hcount, -, -, hnodes⟩ := prepare_exact twiceDescribed []
  have hrisk : twiceDescribed.numbering.id? 0 = some "risk" := by decide +kernel
  have hmain : twiceDescribed.numbering.id? 1 = some "main" := by decide +kernel
  have hghost : twiceDescribed.numbering.id? 2 = some "ghost" := by decide +kernel
  obtain ⟨-, hcallers, -, -, hentry, -⟩ := hnodes 0 "risk" hrisk
  obtain ⟨-, -, hannotated, -⟩ := hnodes 2 "ghost" hghost
  refine ⟨hcount.trans (by decide +kernel), (hcallers 1 "main" hmain).1.2 (by decide),
    (hcallers 2 "ghost" hghost).1.2 (by decide), (hcallers 1 "main" hmain).2.2 (by decide),
    ?_, hannotated ⟨_, List.mem_singleton_self _, rfl⟩⟩
  rw [← Bool.not_eq_true, hentry]
  rintro ⟨m, hm, hflag⟩
  cases hm
  simp at hflag

end Analysis

end HazardTrace
