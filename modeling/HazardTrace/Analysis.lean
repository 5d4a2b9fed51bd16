import HazardTrace.Collector
import HazardTrace.Inheritance
import HazardTrace.Json.Basic
import HazardTrace.Program
import HazardTrace.Rule
import HazardTrace.Search

/-!
# Analyses

An analysis numbers the methods of a program, marks them by rules and by the verdicts on reflective
calls, passes warnings on to overrides, and builds the call graph. Then it searches from every
hazard and collects the findings.
-/

namespace HazardTrace

/-! ## Preparing and running -/

section

open Log (event)

namespace Analysis

/-- Everything that is known before the searches start. -/
structure Prepared where
  numbering : Numbering Method
  marking : Marking
  graph : CallGraph
  rules : Rule.Counts
  inheritance : Inheritance.Counts
  /-- The number of methods with unresolved reflective calls on record. -/
  unanalyzedMethods : Nat
  /-- The number of resolved reflective calls. -/
  resolvedReflectionCalls : Nat

/-- For each numbered method, whether a property of known methods holds. -/
def methodFlags (s : Numbering Method) (property : Method → Bool) : Array Bool :=
  s.slots.map fun slot ↦ slot.detail.any property

/-- Prepares an analysis of a program whose methods are numbered by `s`. -/
def prepareWith (p : Program) (s : Numbering Method) (rules : List Rule) : Logged Prepared := do
  let ruled ← Rule.applyAll rules s (.blank s.size)
  let verdicts ← Verdicts.ofReport p.reflection s
  let (unanalyzedMethods, marking) ← verdicts.apply ruled.marking
  let overrides ← Overrides.ofPairs s p.overrides
  let virtual := methodFlags s Method.isVirtual
  let (inheritance, marking) ← marking.inherit overrides virtual
  let flags : NodeFlags :=
    { entry := methodFlags s Method.isEntry
      hazard := marking.hazardFlags
      safe := marking.safeFlags
      virtual }
  let graph ←
    CallGraph.buildLogged s.size (p.numberedEdges s) flags (verdicts.safeEdges s.size)
  let stats := graph.stats
  Logged.log <| event .info .analysis "built call graph"
    [("methods", .number stats.nodeCount), ("edges", .number stats.edgeCount),
      ("entries", .number stats.entryCount), ("interesting", .number stats.hazardCount),
      ("safe", .number stats.safeCount)]
  return {
    numbering := s
    marking
    graph
    rules := ruled.counts
    inheritance
    unanalyzedMethods
    resolvedReflectionCalls := verdicts.resolvedCount }

/-- Prepares an analysis of a program under the given rules. -/
def prepare (p : Program) (rules : List Rule) : Logged Prepared := do
  prepareWith p (← p.numberingLogged) rules

/-- What a run reports about itself. -/
structure Report where
  grouping : Grouping
  graph : CallGraph.Stats
  resolvedMethods : Nat
  hazardsPerCategory : List (String × Nat)
  rules : Rule.Counts
  inheritance : Inheritance.Counts
  unanalyzedMethods : Nat
  resolvedReflectionCalls : Nat
  /-- The number of searches that ran to completion. -/
  searches : Nat
  collection : Collector.Summary
deriving DecidableEq, Repr

/-- The finding of a search, if it has any path. -/
def finding? (r : Search.Result) : Option Finding :=
  if r.paths.isEmpty then none else some ⟨r.start, r.paths⟩

/-- The messages that completed searches send. -/
def messages (results : List Search.Result) : List Collector.Message :=
  (results.filterMap finding?).map .found ++ [.done]

namespace Prepared

variable {σ : Type} [Receiver σ]

/-- What the collector has to know. -/
def context (pre : Prepared) (grouping : Grouping) : Collector.Context where
  numbering := pre.numbering
  marking := pre.marking
  grouping

/-- The report of a run that was not cancelled. -/
def report (pre : Prepared) (grouping : Grouping) (searches : Nat)
    (collection : Collector.Summary) : Report where
  grouping
  graph := pre.graph.stats
  resolvedMethods := pre.numbering.resolvedCount
  hazardsPerCategory := pre.marking.hazardsPerCategory
  rules := pre.rules
  inheritance := pre.inheritance
  unanalyzedMethods := pre.unanalyzedMethods
  resolvedReflectionCalls := pre.resolvedReflectionCalls
  searches
  collection

/-- Searches from every hazard and hands the chains to the receiver. A run whose token has fired, at
the start or by its end, has no report. -/
def run (pre : Prepared) (options : Search.Options) (grouping : Grouping) (cancelled : Bool)
    (receiver : σ) : Logged (σ × Except Error Report) :=
  if cancelled then pure (receiver, .error .cancelled)
  else do
    let results ← pre.graph.searchAll options cancelled
    let start : Collector σ := { receiver }
    let (col, outcome) ←
      start.drain (pre.context grouping) (fun _ ↦ cancelled) 0 (messages results)
    match outcome with
    | .error e => pure (col.receiver, .error e)
    | .ok summary =>
      if Collector.isCancelled cancelled col then pure (col.receiver, .error .cancelled)
      else pure (col.receiver, .ok (pre.report grouping results.length summary))

end Prepared

namespace Report

/-- Was any chain reported? -/
def hasFindings (r : Report) : Bool :=
  r.collection.chains > 0

/-- The report as lines of text. -/
def lines (r : Report) : List String :=
  let exposed := r.collection.exposedSources.length
  [ "found " ++ toString r.graph.nodeCount ++ " methods",
    "found " ++ toString r.graph.entryCount ++ " entry methods",
    "found " ++ toString r.graph.hazardCount ++ " \"interesting\" methods",
    "found " ++ toString r.collection.chains ++ " stack traces" ] ++
  (byCount r.collection.perCategory).map (fun (category, count) ↦
    toString count ++ " stack traces are " ++ category) ++
  (if exposed = 0 then []
    else [toString exposed ++ " interesting methods are entries themselves"]) ++
  "----------" :: r.collection.coverage.map Coverage.Line.text

end Report

end Analysis

end

/-!
## Analyses with rule files

The rules of an analysis come from files and from the caller. Those of the files come first.
-/

namespace Analysis

/-- Prepares an analysis under the rules of some files and further rules. -/
def prepareFrom (fs : FileSystem) (p : Program) (paths : List String) (rules : List Rule) :
    Attempt Prepared := do
  let s ← ExceptT.lift p.numberingLogged
  let loaded ← Rule.loadAll fs paths
  ExceptT.lift (prepareWith p s (loaded ++ rules))

variable {σ : Type} [Receiver σ]

/-- Prepares an analysis and runs it. -/
def runFrom (fs : FileSystem) (p : Program) (paths : List String) (rules : List Rule)
    (options : Search.Options) (grouping : Grouping) (cancelled : Bool) (receiver : σ) :
    Logged (σ × Except Error Report) := do
  match ← (prepareFrom fs p paths rules).run with
  | .error e => pure (receiver, .error e)
  | .ok pre => pre.run options grouping cancelled receiver

end Analysis

/-!
## Reports as JSON

The report of a run as a JSON object, with its fields in their declared order.
-/

/-- Counts by name. -/
def countsToJson (counts : List (String × Nat)) : Json :=
  .obj (counts.map fun (name, count) ↦ (name, .nat count))

namespace CallGraph

/-- The size of a graph. -/
def Stats.toJson (s : Stats) : Json :=
  countsToJson [("node_count", s.nodeCount), ("edge_count", s.edgeCount),
    ("entry_count", s.entryCount), ("interesting_count", s.hazardCount),
    ("safe_count", s.safeCount), ("virtual_count", s.virtualCount)]

end CallGraph

/-- What became of the rules. -/
def Rule.Counts.toJson (c : Rule.Counts) : Json :=
  countsToJson [("annotated", c.annotated), ("safe", c.safe), ("duplicates", c.duplicates),
    ("unresolved_types", c.unresolvedTypes), ("unresolved_methods", c.unresolvedMethods)]

/-- What became of the inherited warnings. -/
def Inheritance.Counts.toJson (c : Inheritance.Counts) : Json :=
  countsToJson [("applied", c.applied), ("overwritten", c.overwritten),
    ("conflicts", c.conflicts)]

/-- The coverage of one namespace. -/
def Coverage.Line.toJson (l : Coverage.Line) : Json :=
  .obj [("namespace", .str l.ns), ("hit_types", .nat l.hitTypes),
    ("total_types", .nat l.totalTypes)]

/-- The outcome of a collection. -/
def Collector.Summary.toJson (s : Collector.Summary) : Json :=
  .obj [
    ("chains", .nat s.chains), ("duplicates", .nat s.duplicates),
    ("suppressed", .nat s.suppressed), ("findings", .nat s.findings),
    ("per_annotation_category", countsToJson s.perAnnotationCategory),
    ("per_category", countsToJson s.perCategory),
    ("groups", .arr (s.groups.map fun (group, count) ↦
      .obj [("group", .str group), ("count", .nat count)])),
    ("exposed_sources", .arr (s.exposedSources.map .str)),
    ("coverage", .obj [("namespaces", .arr (s.coverage.map Coverage.Line.toJson))])]

namespace Analysis

/-- The report of a run, made at the given time. -/
def Report.toJson (time : String) (r : Report) : Json :=
  .obj [
    ("generated_at", .str time), ("grouping", .str r.grouping.name), ("graph", r.graph.toJson),
    ("resolved_methods", .nat r.resolvedMethods),
    ("interesting_per_category", countsToJson r.hazardsPerCategory),
    ("annotations", r.rules.toJson), ("propagation", r.inheritance.toJson),
    ("unanalyzed_methods", .nat r.unanalyzedMethods),
    ("resolved_reflection_calls", .nat r.resolvedReflectionCalls),
    ("searches", .nat r.searches), ("pipeline", r.collection.toJson)]

end Analysis

end HazardTrace
