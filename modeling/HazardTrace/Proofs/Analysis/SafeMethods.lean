import HazardTrace.Proofs.Analysis.Openings

/-!
# Safe methods in chains

A search sets out from no safe method, goes past none and ends at none, so the path of a chain has
no safe method on it (`Mirrors.isSafe_eq_false_of_mem_paths`, by the three parts of an admissible
walk: its start, its interior and its destination). A chain for an unresolved call begins with the
reflection method that is called, though, and that one is never asked whether it is safe. So safe
methods do appear in reports (`not_forall_chains_avoid_safe`), but only in front.

`safe_only_in_front` says exactly which. Behind its first method no chain has a safe one, and a safe
method stands in front of some chain if and only if there is an unresolved call of it in a hazard
that is no entry and whose search finds one.

* From left to right, a chain is a record of a hazard, and a record is a path with at most one
  method in front (`Prepared.cases_of_mem_records`).
* From right to left, the hazard has a path of two methods or more, hence a record with the called
  method in front. Another record with the same key may have taken its place, but a key holds the
  methods of its chain, so that one begins with the same method (`Returns.exists_chain_of_calls`).

No option is assumed here, neither on caps nor on interior hazards.
-/

namespace HazardTrace

open Search (Options)

namespace Analysis

variable {p : Program} {pre : Prepared} {o : Options} {grouping : Grouping} {s u v : Nat}
  {c : Chain} {path : List Nat}

/-- There is an unresolved reflective call of `u` on record for `s`. -/
def Prepared.Calls (pre : Prepared) (s u : Nat) : Prop :=
  ∃ calls, pre.marking.note? s = some (.unanalyzed calls) ∧ u ∈ calls.map ReflectiveCall.target

/-- **No method on a path is safe.** -/
theorem Mirrors.isSafe_eq_false_of_mem_paths (hpre : Mirrors p pre) (hs : s ∈ pre.graph.hazards)
    (hentry : pre.graph.isEntry s = false) (hpath : path ∈ (pre.graph.search o s).paths)
    (hu : u ∈ path) : pre.graph.isSafe u = false := by
  obtain ⟨v, hv, -, hwalk, -⟩ := CallGraph.mem_paths_search hpath
  have hhead := hwalk.head
  have hlast := hwalk.last
  have hinterior := hwalk.interior
  match path, CallGraph.two_le_length_of_mem_paths hentry hpath with
  | a :: b :: rest, _ =>
    obtain rfl : a = s := by simpa using hhead
    rcases List.mem_cons.1 hu with rfl | hu
    · exact (hpre.standing_of_mem_hazards hs).2
    · rw [List.getLast?_cons_cons] at hlast
      rw [List.tail_cons] at hinterior
      rw [← List.dropLast_append_getLast? v hlast] at hu
      rcases List.mem_append.1 hu with hu | hu
      · exact (hinterior u hu).not_safe
      · obtain rfl := List.mem_singleton.1 hu
        exact (CallGraph.isDestination_of_mem_destinations hentry hv).2.not_safe

/-- A record has its path, with the method that is called in front if it is for an unresolved
call. -/
theorem Prepared.cases_of_mem_records (hs : s ∈ pre.graph.hazards)
    (hc : c ∈ (pre.context grouping).records (pre.findingOf o s)) :
    pre.graph.isEntry s = false ∧ ∃ path ∈ (pre.graph.search o s).paths,
      c.nodes = path ∨ ∃ u, pre.Calls s u ∧ c.nodes = u :: path := by
  obtain ⟨path, hpath, hlen, hc⟩ := Collector.Context.mem_records_iff.1 hc
  refine ⟨CallGraph.isEntry_eq_false_of_mem_paths (lt_size_of_mem_hazards hs) hpath hlen, path,
    hpath, ?_⟩
  rcases hc with ⟨r, -, rfl⟩ | ⟨calls, hcalls, call, hcall, rfl⟩
  · exact .inl rfl
  · exact .inr ⟨call.target, ⟨calls, hcalls, List.mem_map_of_mem hcall⟩, rfl⟩

/-- The method of an unresolved call stands in front of some chain. -/
theorem Concurrent.Returns.exists_chain_of_calls {σ : Type} [Receiver σ] {receiver : σ}
    {report : Report} {w : Watched σ} (h : Returns pre o grouping { receiver } report w)
    (hs : s ∈ pre.graph.hazards) (hentry : pre.graph.isEntry s = false)
    (hne : (pre.graph.search o s).destinations ≠ []) (hcalls : pre.Calls s u) :
    ∃ c ∈ w.chains, c.nodes.head? = some u := by
  obtain ⟨order, horder, hchains⟩ := h.chains_handed
  obtain ⟨calls, hnote, hu⟩ := hcalls
  obtain ⟨call, hcall, rfl⟩ := List.mem_map.1 hu
  obtain ⟨v, hv⟩ := List.exists_mem_of_ne_nil _ hne
  obtain ⟨path, hpath⟩ := CallGraph.exists_mem_paths_of_mem_destinations hv
  have hrecord : (pre.context grouping).chain (call.target :: path) (.warn call.remark) ∈
      (pre.context grouping).records (pre.findingOf o s) :=
    Collector.Context.mem_records_iff.2 ⟨path, hpath,
      CallGraph.two_le_length_of_mem_paths hentry hpath, .inr ⟨calls, hnote, call, hcall, rfl⟩⟩
  have hfinding : pre.findingOf o s ∈ order :=
    horder.mem_iff.2 (Prepared.mem_findings.2 ⟨s, hs, hne, rfl⟩)
  -- the record may be left out, but then another one has its methods
  obtain ⟨d, hd, hkey⟩ := Collector.Context.exists_mem_chainsOf hfinding hrecord
  refine ⟨d, hchains.mem_iff.2 hd, ?_⟩
  have hnodes : d.nodes = call.target :: path := congrArg Chain.Key.nodes hkey
  rw [hnodes]
  rfl

/-- **Safe methods stand only in front.** Behind its first method no chain has a safe one. The safe
methods that are handed over in front of a chain are those of the unresolved calls in hazards that
are no entries and whose search finds one. -/
theorem safe_only_in_front {σ : Type} [Receiver σ] (p : Program) (rules : List Rule) (o : Options)
    (grouping : Grouping) (receiver : σ) (report : Report) (w : Watched σ)
    (h : Concurrent.Returns (prepare p rules).value o grouping { receiver } report w) :
    (∀ c ∈ w.chains, ∀ u ∈ c.nodes.tail, (prepare p rules).value.graph.isSafe u = false) ∧
    ∀ u, (prepare p rules).value.graph.isSafe u = true →
      ((∃ c ∈ w.chains, u ∈ c.nodes) ↔ ∃ s ∈ (prepare p rules).value.graph.hazards,
        (prepare p rules).value.graph.isEntry s = false ∧
        ((prepare p rules).value.graph.search o s).destinations ≠ [] ∧
        (prepare p rules).value.Calls s u) := by
  have hpre := mirrors_prepare p rules
  generalize (prepare p rules).value = pre at *
  refine ⟨fun c hc u hu ↦ ?_, fun u hsafe ↦ ⟨?_, ?_⟩⟩
  · obtain ⟨s, hs, -, hcs⟩ := h.exists_mem_records hc
    obtain ⟨hentry, path, hpath, hnodes | ⟨target, -, hnodes⟩⟩ :=
      Prepared.cases_of_mem_records hs hcs
    · rw [hnodes] at hu
      exact hpre.isSafe_eq_false_of_mem_paths hs hentry hpath (List.mem_of_mem_tail hu)
    · rw [hnodes, List.tail_cons] at hu
      exact hpre.isSafe_eq_false_of_mem_paths hs hentry hpath hu
  · rintro ⟨c, hc, hu⟩
    obtain ⟨s, hs, hne, hcs⟩ := h.exists_mem_records hc
    obtain ⟨hentry, path, hpath, hnodes⟩ := Prepared.cases_of_mem_records hs hcs
    have hout : u ∉ path := fun hmem ↦ Bool.false_ne_true
      ((hpre.isSafe_eq_false_of_mem_paths hs hentry hpath hmem).symm.trans hsafe)
    refine ⟨s, hs, hentry, hne, ?_⟩
    rcases hnodes with hnodes | ⟨target, hcalls, hnodes⟩
    · exact absurd (hnodes ▸ hu) hout
    · rw [hnodes] at hu
      obtain rfl := (List.mem_cons.1 hu).resolve_right hout
      exact hcalls
  · rintro ⟨s, hs, hentry, hne, hcalls⟩
    obtain ⟨c, hc, hhead⟩ := h.exists_chain_of_calls hs hentry hne hcalls
    exact ⟨c, hc, List.mem_of_head? hhead⟩

/-- An entry calls a method that calls a reflection method, for a target that is not known. -/
def reflective : Program where
  methods := [
    { id := "invoke", name := "Invoke", signature := "Invoke()", declaringType := "Runtime" },
    { id := "load", name := "Load", signature := "Load()", declaringType := "Loader" },
    { id := "main", name := "Main", signature := "Main()", declaringType := "App",
      isPublic := true }]
  edges := [("load", "invoke"), ("main", "load")]
  reflection := { unrecognized := [⟨"load", "invoke", .memberTrimming, "unknown target", none⟩] }

/-- The reflection method is marked safe. -/
def onRuntime : List Rule :=
  [⟨"Runtime", ["Invoke"], .memberTrimming, "Trim", .safe "reviewed", "rules.json"⟩]

theorem calls_reflective : (prepare reflective onRuntime).value.Calls 1 0 :=
  ⟨[⟨0, ⟨"LinkerUnanalyzed", "unknown target", .memberTrimming⟩⟩], by decide +kernel, by decide⟩

/-- The safe reflection method is in the report, and no safe method stands behind it. -/
theorem safe_only_in_front_reflective :
    (prepare reflective onRuntime).value.graph.isSafe 0 = true ∧
    ∃ (report : Report) (w : Watched Transcript) (c : Chain),
      ((prepare reflective onRuntime).value.run {} .none false { receiver := {} }).value =
        (w, .ok report) ∧ c ∈ w.chains ∧ 0 ∈ c.nodes ∧
      ∀ u ∈ c.nodes.tail, (prepare reflective onRuntime).value.graph.isSafe u = false := by
  have hsafe : (prepare reflective onRuntime).value.graph.isSafe 0 = true := by decide +kernel
  obtain ⟨w, report, hrun⟩ := Concurrent.exists_run_transcript
    (prepare reflective onRuntime).value {} .none
  obtain ⟨hbehind, hfront⟩ :=
    safe_only_in_front reflective onRuntime {} .none {} report w (.alone hrun)
  obtain ⟨c, hc, hmem⟩ := (hfront 0 hsafe).2
    ⟨1, by decide +kernel, by decide +kernel, by decide +kernel, calls_reflective⟩
  exact ⟨hsafe, report, w, c, hrun, hc, hmem, hbehind c hc⟩

/-- Not every chain that is handed over avoids safe methods. -/
theorem not_forall_chains_avoid_safe :
    ¬ ∀ (p : Program) (rules : List Rule) (o : Options) (grouping : Grouping) (report : Report)
      (w : Watched Transcript),
        Concurrent.Returns (prepare p rules).value o grouping { receiver := {} } report w →
          ∀ c ∈ w.chains, ∀ u ∈ c.nodes, (prepare p rules).value.graph.isSafe u = false := by
  intro hall
  obtain ⟨w, report, hrun⟩ := Concurrent.exists_run_transcript
    (prepare reflective onRuntime).value {} .none
  obtain ⟨c, hc, hhead⟩ := (Concurrent.Returns.alone hrun).exists_chain_of_calls (s := 1)
    (by decide +kernel) (by decide +kernel) (by decide +kernel) calls_reflective
  have hnot := hall reflective onRuntime {} .none report w (.alone hrun) c hc 0
    (List.mem_of_head? hhead)
  have hsafe : (prepare reflective onRuntime).value.graph.isSafe 0 = true := by decide +kernel
  cases hsafe.symm.trans hnot

end Analysis

end HazardTrace
