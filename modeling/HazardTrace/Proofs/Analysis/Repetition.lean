import HazardTrace.Analysis
import HazardTrace.Proofs.Analysis.Relation
import HazardTrace.Proofs.Collector.Handed
import HazardTrace.Proofs.Concurrent.Sequential
import HazardTrace.Report.Delivery

/-!
# Order and repetition of calls

A program lists its calls and the resolved reflective ones in some order, perhaps some of them twice
(`Program.Repeats` relates two programs that differ in this only). If all methods are described,
nothing of that is left once an analysis is prepared (`prepareWith_eq_of_repeats`).

* The numbers come from the descriptions alone (`Repeats.numbering_eq`), because every id that is
  mentioned has been numbered before it is.
* Both relations are kept as ascending lists of callers. A graph follows from the set of its pairs
  (`CallGraph.build_eq_of_mem_iff`), and so do the lists of harmless callers
  (`Verdicts.safeEdges_eq_of_mem_iff`).
* The resolved calls are counted without repetition.

A search meets callers in ascending order, so ties between shortest chains, and the destinations
that a cap leaves over, are decided by numbers and not by the list of calls. The whole run is then
the same, with its log and whatever the receiver does: `run_independent_of_repetition` is an
equation between runs.

All methods have to be described because an id that is only mentioned is numbered by the first call
that mentions it, and numbers decide ties.

Preparing is a sequence of logged steps. The equation is proved step by step with
`Logged.bind_congr`, since the intermediate verdicts do differ: resolved callers are collected in
the order of the list, and only sorted when the graph is built.
-/

namespace HazardTrace

/-! ### Relations as sets -/

/-- Lists with the same members have as many different ones. -/
theorem length_dedup_eq_of_mem_iff {α : Type} [DecidableEq α] {l l' : List α}
    (h : ∀ a, a ∈ l ↔ a ∈ l') : l.dedup.length = l'.dedup.length := by
  refine List.Perm.length_eq ((List.perm_ext_iff_of_nodup l.nodup_dedup l'.nodup_dedup).2 fun a ↦ ?_)
  rw [List.mem_dedup, List.mem_dedup, h]

namespace CallGraph

variable {n : Nat} {edges edges' : List (Nat × Nat)}

/-- A graph follows from the set of pairs that it was given. -/
theorem build_eq_of_mem_iff (h : ∀ e, e ∈ edges ↔ e ∈ edges') (flags : NodeFlags)
    (safeEdges : Array (List Nat)) :
    build n edges flags safeEdges = build n edges' flags safeEdges := by
  have hlists : callerLists n edges = callerLists n edges' := by
    refine Array.ext_getElem? fun u ↦ ?_
    rw [getElem?_callerLists, getElem?_callerLists]
    congr 2
    refine ascending_eq_of_mem_iff fun v ↦ ?_
    simp only [List.mem_map, List.mem_filter, h]
  simp only [build, hlists]

end CallGraph

namespace Verdicts

variable {v v' : Verdicts}

/-- The lists of harmless callers follow from the sets of resolved callers. -/
theorem safeEdges_eq_of_mem_iff (n : Nat)
    (h : ∀ u c, c ∈ v.resolvedCallers u ↔ c ∈ v'.resolvedCallers u) :
    v.safeEdges n = v'.safeEdges n := by
  refine Array.ext_getElem? fun u ↦ ?_
  by_cases hu : u < n
  · have hlist : ∀ w : Verdicts, ∃ l, (w.safeEdges n)[u]? = some (ascending l) ∧
        ∀ c, c ∈ l ↔ c ∈ w.resolvedCallers u := by
      intro w
      have hget : (w.safeEdges n)[u]? = some (ascending
          ((w.resolved.toList.filter (·.1 == u)).map (·.2)).flatten) := by
        rw [safeEdges, Array.getElem?_map, getElem?_buckets, if_pos hu]
        rfl
      refine ⟨_, hget, fun c ↦ ?_⟩
      rw [← mem_safeEdges w hu, hget, Option.getD_some, mem_ascending]
    obtain ⟨l, hl, hmem⟩ := hlist v
    obtain ⟨l', hl', hmem'⟩ := hlist v'
    rw [hl, hl', ascending_eq_of_mem_iff fun c ↦ (hmem c).trans ((h u c).trans (hmem' c).symm)]
  · rw [Array.getElem?_eq_none (by simpa [safeEdges] using hu),
      Array.getElem?_eq_none (by simpa [safeEdges] using hu)]

theorem apply_eq_of_unresolved_eq (h : v.unresolved = v'.unresolved) : v.apply = v'.apply := by
  funext m
  rw [apply, apply, h]

end Verdicts

namespace Program

/-- Is every method described that calls and verdicts name? -/
def Described (p : Program) : Prop :=
  ∀ id ∈ p.mentioned, id ∈ p.methods.map Method.id

instance (p : Program) : Decidable p.Described :=
  inferInstanceAs (Decidable (∀ id ∈ p.mentioned, id ∈ p.methods.map Method.id))

/-- `p'` is `p` with its calls and its resolved reflective calls in another order, or repeated. -/
structure Repeats (p p' : Program) : Prop where
  methods : p'.methods = p.methods
  overrides : p'.overrides = p.overrides
  unrecognized : p'.reflection.unrecognized = p.reflection.unrecognized
  mem_edges : ∀ e, e ∈ p'.edges ↔ e ∈ p.edges
  mem_recognized : ∀ c, c ∈ p'.reflection.recognized ↔ c ∈ p.reflection.recognized

namespace Repeats

variable {p p' : Program} (h : p.Repeats p')
include h

/-- The same ids are mentioned. -/
theorem mem_mentioned (id : String) : id ∈ p'.mentioned ↔ id ∈ p.mentioned := by
  simp only [mentioned, List.mem_append, List.mem_flatMap, h.mem_edges, h.mem_recognized,
    h.unrecognized]

theorem declared_eq : p'.declared = p.declared := by
  rw [declared, declared, h.methods]

theorem described (hp : p.Described) : p'.Described := by
  intro id hid
  rw [h.methods]
  exact hp id ((h.mem_mentioned id).1 hid)

/-- Descriptions number all methods, so the numbers are the same. -/
theorem numbering_eq (hp : p.Described) : p'.numbering = p.numbering := by
  rw [numbering_eq_declared (h.described hp), numbering_eq_declared hp, h.declared_eq]

theorem numberingLogged_eq (hp : p.Described) : p'.numberingLogged = p.numberingLogged := by
  simp only [numberingLogged, h.numbering_eq hp, h.declared_eq]

/-- The same pairs of numbers are calls. -/
theorem mem_numberedEdges_iff (s : Numbering Method) (e : Nat × Nat) :
    e ∈ p'.numberedEdges s ↔ e ∈ p.numberedEdges s := by
  obtain ⟨v, u⟩ := e
  simp only [mem_numberedEdges, h.mem_edges]

end Repeats

end Program

namespace Analysis

open Search (Options)

variable {p p' : Program}

/-! ### Preparing -/

/-- The graph is the same, and nothing is logged for either. -/
theorem buildLogged_eq_of_repeats (h : p.Repeats p') (s : Numbering Method) (flags : NodeFlags)
    (safeEdges : Array (List Nat)) :
    CallGraph.buildLogged s.size (p'.numberedEdges s) flags safeEdges =
      CallGraph.buildLogged s.size (p.numberedEdges s) flags safeEdges := by
  rw [CallGraph.buildLogged_of_inRange fun e ↦ Program.inRange_of_mem_numberedEdges,
    CallGraph.buildLogged_of_inRange fun e ↦ Program.inRange_of_mem_numberedEdges,
    CallGraph.build_eq_of_mem_iff (h.mem_numberedEdges_iff s)]

/-- **An analysis is prepared from the set of calls.** Its value and its log are the same for
programs that differ in order and repetition only. -/
theorem prepareWith_eq_of_repeats (hp : p.Described) (h : p.Repeats p') (rules : List Rule) :
    prepareWith p' p.numbering rules = prepareWith p p.numbering rules := by
  have hrecognized := h.numbering_eq hp ▸ p'.knows_recognized
  have hunrecognized := h.numbering_eq hp ▸ p'.knows_unrecognized
  have hevents : (Verdicts.ofReport p'.reflection p.numbering).events =
      (Verdicts.ofReport p.reflection p.numbering).events := by
    rw [Verdicts.events_ofReport hrecognized hunrecognized,
      Verdicts.events_ofReport p.knows_recognized p.knows_unrecognized]
  have hunresolved : (Verdicts.ofReport p'.reflection p.numbering).value.unresolved =
      (Verdicts.ofReport p.reflection p.numbering).value.unresolved := by
    rw [Verdicts.unresolved_ofReport, Verdicts.unresolved_ofReport,
      ReflectionReport.numberedUnresolved, ReflectionReport.numberedUnresolved, h.unrecognized]
  have hsafe : (Verdicts.ofReport p'.reflection p.numbering).value.safeEdges p.numbering.size =
      (Verdicts.ofReport p.reflection p.numbering).value.safeEdges p.numbering.size :=
    Verdicts.safeEdges_eq_of_mem_iff _ fun u c ↦ by
      simp only [Verdicts.mem_resolvedCallers_ofReport, h.mem_recognized]
  have hcount : (Verdicts.ofReport p'.reflection p.numbering).value.resolvedCount =
      (Verdicts.ofReport p.reflection p.numbering).value.resolvedCount := by
    rw [Verdicts.resolvedCount_ofReport hrecognized,
      Verdicts.resolvedCount_ofReport p.knows_recognized,
      length_dedup_eq_of_mem_iff h.mem_recognized]
  -- the two verdicts differ in the order of resolved callers, so step past them first
  refine Logged.bind_congr rfl (Logged.bind_congr hevents ?_)
  rw [Verdicts.apply_eq_of_unresolved_eq hunresolved, h.overrides]
  simp only [hsafe, hcount, buildLogged_eq_of_repeats h]

/-- So is the whole analysis. -/
theorem prepare_eq_of_repeats (hp : p.Described) (h : p.Repeats p') (rules : List Rule) :
    prepare p' rules = prepare p rules := by
  rw [prepare, prepare, h.numberingLogged_eq hp]
  exact Logged.bind_congr rfl (prepareWith_eq_of_repeats hp h rules)

/-- The same with rules that are read from files: the files do not depend on the program. -/
theorem prepareFrom_eq_of_repeats (hp : p.Described) (h : p.Repeats p') (fs : FileSystem)
    (paths : List String) (rules : List Rule) :
    prepareFrom fs p' paths rules = prepareFrom fs p paths rules := by
  have hwith : prepareWith p' p.numberingLogged.value = prepareWith p p.numberingLogged.value :=
    funext (prepareWith_eq_of_repeats hp h)
  rw [prepareFrom, prepareFrom, h.numberingLogged_eq hp]
  refine Logged.bind_congr rfl (Logged.bind_congr rfl ?_)
  rw [hwith]

/-! ### Running -/

/-- **A run does not show the order or repetition of calls.** Let all methods be described that
calls and verdicts name. Then a run on a program with the same calls in another order, or repeated,
makes the same deliveries to its receiver and returns the same outcome, with the same log, under any
rules, options and grouping. A reliable receiver gets the same report from both. -/
theorem run_independent_of_repetition {σ : Type} [Receiver σ] (hp : p.Described)
    (h : p.Repeats p') :
    (∀ (fs : FileSystem) (paths : List String) (rules : List Rule) (o : Options)
      (grouping : Grouping) (cancelled : Bool) (receiver : σ),
        runFrom fs p' paths rules o grouping cancelled ({ receiver } : Watched σ) =
          runFrom fs p paths rules o grouping cancelled { receiver }) ∧
    (Receiver.Reliable σ → ∀ (rules : List Rule) (o : Options) (grouping : Grouping)
      (receiver : σ), ∃ (w : Watched σ) (report : Report),
        ((prepare p rules).value.run o grouping false { receiver }).value = (w, .ok report) ∧
        ((prepare p' rules).value.run o grouping false { receiver }).value = (w, .ok report)) := by
  constructor
  · intro fs paths rules o grouping cancelled receiver
    rw [runFrom, runFrom, prepareFrom_eq_of_repeats hp h]
  · intro hσ rules o grouping receiver
    obtain ⟨w, report, hrun⟩ := Concurrent.exists_run (Watched.reliable hσ) (prepare p rules).value o
      grouping { receiver }
    exact ⟨w, report, hrun, by rw [prepare_eq_of_repeats hp h, hrun]⟩

/-- A method with two callers, both of which the entry calls, and its calls in a given order. -/
def twoCallers (edges : List (String × String)) : Program where
  methods := [
    { id := "risk", name := "Risk", signature := "Risk()", declaringType := "Lib" },
    { id := "left", name := "Left", signature := "Left()", declaringType := "Helper" },
    { id := "right", name := "Right", signature := "Right()", declaringType := "Helper" },
    { id := "main", name := "Main", signature := "Main()", declaringType := "App",
      isPublic := true }]
  edges
  reflection := { recognized := [⟨"main", "right"⟩] }

/-- The calls with the callers first. -/
def upward : List (String × String) :=
  [("left", "risk"), ("right", "risk"), ("main", "left"), ("main", "right")]

/-- The same calls from the other side, two of them twice. -/
def downward : List (String × String) :=
  [("main", "right"), ("right", "risk"), ("right", "risk"), ("main", "left"), ("left", "risk"),
    ("main", "right")]

theorem described_upward : (twoCallers upward).Described := by
  decide +kernel

theorem repeats_downward : (twoCallers upward).Repeats (twoCallers downward) where
  methods := rfl
  overrides := rfl
  unrecognized := rfl
  mem_edges e := ⟨by revert e; decide, by revert e; decide⟩
  mem_recognized _ := Iff.rfl

/-- The warning on the method with two callers. -/
def onRisk : List Rule :=
  [⟨"Lib", ["Risk"], .memberTrimming, "Trim", .warn "risky", "rules.json"⟩]

/-- Two shortest chains tie, and the calls are listed from either side. -/
theorem run_independent_of_repetition_twoCallers :
    ∃ (w : Watched Transcript) (report : Report),
      ((prepare (twoCallers upward) onRisk).value.run {} .callee false { receiver := {} }).value =
        (w, .ok report) ∧
      ((prepare (twoCallers downward) onRisk).value.run {} .callee false { receiver := {} }).value =
        (w, .ok report) := by
  have htranscript : Receiver.Reliable Transcript := ⟨fun _ _ ↦ rfl, fun _ ↦ rfl⟩
  obtain ⟨-, hreport⟩ :=
    run_independent_of_repetition (σ := Transcript) described_upward repeats_downward
  exact hreport htranscript onRisk {} .callee {}

end Analysis

end HazardTrace
