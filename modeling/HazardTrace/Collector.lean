import HazardTrace.Chain
import HazardTrace.Collections
import HazardTrace.Marking
import HazardTrace.Numbering
import HazardTrace.Report.Delivery

/-!
# Collecting findings

The collector turns the paths that searches find into chains. Each path of a finding is observed in
turn: a path of one method shows that a hazard is itself an entry; a path from a suppressed method
is only counted; any other path gives a chain, or one chain for each unresolved call of its source.
A chain whose key is known already is a duplicate. Without grouping a new chain is delivered at
once; with grouping all chains are delivered at the end, arranged by `outline`.

Everything that the summary says follows from the list of chains and a few counts.
-/

namespace HazardTrace

/-!
## Coverage

For each namespace, how many of its types are reached from outside: how many declare the entry
method of a reported chain, and how many declare a known method at all. The global namespace is left
out.
-/

namespace Coverage

/-- The coverage of one namespace. -/
structure Line where
  ns : String
  hitTypes : Nat
  totalTypes : Nat
deriving DecidableEq, Repr

/-- The line of a namespace as it is printed. -/
def Line.text (l : Line) : String :=
  l.ns ++ ": " ++ toString l.hitTypes ++ " / " ++ toString l.totalTypes

/-- The named namespaces of some methods, ascending. -/
def namespaces (methods : List Method) : List String :=
  ascending ((methods.map Method.ns).filter (· != ""))

/-- The number of types of a namespace that declare one of the methods. -/
def typesIn (methods : List Method) (ns : String) : Nat :=
  (ascending ((methods.filter (·.ns == ns)).map Method.declaringType)).length

/-- The line of a namespace, given the entry methods that were hit and all known methods. A
namespace that no known method has counts its hit types only. -/
def line (hits known : List Method) (ns : String) : Line where
  ns
  hitTypes := typesIn hits ns
  totalTypes := if known.any (·.ns == ns) then typesIn known ns else typesIn hits ns

/-- Lines by descending number of hits, then by namespace. -/
def Line.le (a b : Line) : Bool :=
  decide (b.hitTypes < a.hitTypes) || (a.hitTypes == b.hitTypes && decide (a.ns ≤ b.ns))

/-- The coverage of all namespaces: those with hits by descending number of hits, then the others by
name. -/
def summarize (s : Numbering Method) (hits : List Method) : List Line :=
  let known := s.resolved.map (·.2)
  let hit := namespaces hits
  (hit.map (line hits known)).mergeSort Line.le ++
    ((namespaces known).filter (!hit.contains ·)).map (line hits known)

end Coverage

/-! ## Taking findings -/

namespace Collector

/-- What the collector knows about the program, and how it is to report. -/
structure Context where
  numbering : Numbering Method
  marking : Marking
  grouping : Grouping
  signatures : List Category.Signature := Category.wellKnown

/-- What a path of a finding shows. -/
inductive Observation where
  /-- The source can be called from outside. -/
  | exposed
  /-- The source is suppressed. -/
  | suppressed
  /-- There is a chain through the given methods. -/
  | chain (nodes : List Nat) (note : Note)
deriving DecidableEq, Repr

/-- What a path from a source with note `a` shows. -/
def observePath (a : Note) (path : List Nat) : List Observation :=
  if path.length < 2 then [.exposed]
  else
    match a with
    | .suppress _ => [.suppressed]
    | .warn r => [.chain path (.warn r)]
    | .unanalyzed calls => calls.map fun call ↦ .chain (call.target :: path) (.warn call.remark)

/-- What the paths of a finding show. -/
def observations (a : Note) (f : Finding) : List Observation :=
  f.paths.flatMap (observePath a)

/-- The chain through the given methods. -/
def Context.chain (ctx : Context) (nodes : List Nat) (note : Note) : Chain :=
  let frames := nodes.filterMap fun node ↦ (ctx.numbering.detail? node).map Method.fullName
  { nodes, frames, note
    category := Category.classify ctx.signatures ctx.numbering nodes frames }

end Collector

/-- A collector at work, with the receiver of its report. -/
structure Collector (σ : Type) where
  receiver : σ
  /-- The chains found so far, latest first. -/
  chains : List Chain := []
  findings : Nat := 0
  duplicates : Nat := 0
  suppressed : Nat := 0
  /-- The hazards seen to be entries, latest first. -/
  exposed : List Nat := []

namespace Collector

variable {σ : Type} [Receiver σ]

/-- Hands a delivery to the receiver. -/
def deliver (col : Collector σ) (d : Delivery) : Collector σ × Except Error Unit :=
  let (receiver, result) := Receiver.receive col.receiver d
  ({ col with receiver }, result)

/-- Takes a chain. -/
def take (ctx : Context) (col : Collector σ) (c : Chain) : Collector σ × Except Error Unit :=
  if col.chains.any (·.sameKey c) then ({ col with duplicates := col.duplicates + 1 }, .ok ())
  else
    let col := { col with chains := c :: col.chains }
    if ctx.grouping.isGrouped then (col, .ok ()) else col.deliver (.chain c)

/-- Takes one observation about `source`. -/
def observe (ctx : Context) (source : Nat) (col : Collector σ) :
    Observation → Collector σ × Except Error Unit
  | .exposed => ({ col with exposed := source :: col.exposed }, .ok ())
  | .suppressed => ({ col with suppressed := col.suppressed + 1 }, .ok ())
  | .chain nodes note => col.take ctx (ctx.chain nodes note)

/-- Takes observations in order, up to the first whose delivery fails. -/
def observeAll (ctx : Context) (source : Nat) (col : Collector σ) :
    List Observation → Collector σ × Except Error Unit
  | [] => (col, .ok ())
  | o :: os =>
    match col.observe ctx source o with
    | (col, .ok ()) => col.observeAll ctx source os
    | (col, .error e) => (col, .error e)

/-- Takes the finding of one search. A finding for a method without note shows nothing and is
logged. -/
def process (ctx : Context) (col : Collector σ) (f : Finding) :
    Logged (Collector σ × Except Error Unit) :=
  let col := { col with findings := col.findings + 1 }
  match ctx.marking.note? f.source with
  | none =>
    ⟨(col, .ok ()),
      [Log.event .debug .collector "finding for a method without annotation"
        [("source", .number f.source)] .collector]⟩
  | some a => pure (col.observeAll ctx f.source (observations a f))

/-- The outcome of a collection. -/
structure Summary where
  /-- The number of different chains. -/
  chains : Nat
  duplicates : Nat
  suppressed : Nat
  findings : Nat
  /-- The number of chains by category of the note. -/
  perAnnotationCategory : List (String × Nat)
  /-- The number of chains by category of the chain. -/
  perCategory : List (String × Nat)
  /-- The outermost groups with the number of their chains, in the order of the report. -/
  groups : List (String × Nat)
  /-- The hazards that are entries themselves. -/
  exposedSources : List String
  coverage : List Coverage.Line
deriving DecidableEq, Repr

/-- The known entry methods of the chains. -/
def hits (ctx : Context) (chains : List Chain) : List Method :=
  chains.filterMap fun c ↦ c.entry?.bind ctx.numbering.detail?

/-- The outermost groups of the chains. -/
def outermost (ctx : Context) (chains : List Chain) : List (String × Nat) :=
  match ctx.grouping.levels ctx.numbering with
  | [] => []
  | level :: _ => level.groups chains

/-- The summary of what has been collected. -/
def summary (ctx : Context) (col : Collector σ) : Summary where
  chains := col.chains.length
  duplicates := col.duplicates
  suppressed := col.suppressed
  findings := col.findings
  perAnnotationCategory := tally (col.chains.map (·.note.category))
  perCategory := tally (col.chains.map (·.category))
  groups := outermost ctx col.chains
  exposedSources := (ascending col.exposed).map fun node ↦ ctx.numbering.label (some node)
  coverage := Coverage.summarize ctx.numbering (hits ctx col.chains)

/-- The deliveries that end a report: the chains in their groups, if they have not been delivered
before, and the finish. -/
def closing (ctx : Context) (col : Collector σ) : List Delivery :=
  (if ctx.grouping.isGrouped then outline (ctx.grouping.levels ctx.numbering) col.chains else []) ++
    [.finish]

/-- Ends the report. -/
def finish (ctx : Context) (col : Collector σ) : Logged (Collector σ × Except Error Summary) :=
  let (receiver, result) := Receiver.receiveAll col.receiver (closing ctx col)
  let col := { col with receiver }
  match result with
  | .error e => pure (col, .error e)
  | .ok () =>
    let s := col.summary ctx
    ⟨(col, .ok s),
      [Log.event .info .collector "result pipeline drained"
        [("chains", .number s.chains), ("duplicates", .number s.duplicates),
          ("suppressed", .number s.suppressed), ("exposed", .number s.exposedSources.length)]
        .collector]⟩

end Collector

/-!
## Draining a channel of findings

The collector takes messages until it is told that no more will come, and then ends the report. A
cancellation token is read before each message and once more when the end is announced. A run that
is cancelled, or whose channel closes without an end, has no summary, and its report is not
finished.
-/

namespace Collector

/-- What arrives on the channel. -/
inductive Message where
  | found (f : Finding)
  /-- Every search has ended; nothing follows. -/
  | done
deriving DecidableEq, Repr

variable {σ : Type} [Receiver σ]

/-- Does the token read fired? It also fires when the receiver asks for it. -/
def isCancelled (fired : Bool) (col : Collector σ) : Bool :=
  fired || Receiver.cancels col.receiver

/-- A debug event without further fields. -/
def remark (message : String) : Log.Event :=
  Log.event .debug .collector message [] .collector

/-- Takes messages until the end is announced; then the channel is closed. The `k`-th reading of the
token, counted from `check`, is `fired k`. -/
def drain (ctx : Context) (fired : Nat → Bool) (check : Nat) (col : Collector σ) :
    List Message → Logged (Collector σ × Except Error Summary)
  | [] =>
    if isCancelled (fired check) col then
      ⟨(col, .error .cancelled), [remark "consumer stopping on cancellation"]⟩
    else pure (col, .error (.internal "result channel closed before completion"))
  | message :: rest =>
    if isCancelled (fired check) col then
      ⟨(col, .error .cancelled), [remark "consumer stopping on cancellation"]⟩
    else
      match message with
      | .found f => do
        match ← col.process ctx f with
        | (col, .ok ()) => col.drain ctx fired (check + 1) rest
        | (col, .error e) => pure (col, .error e)
      | .done =>
        if isCancelled (fired (check + 1)) col then
          ⟨(col, .error .cancelled), [remark "completion signal after cancellation"]⟩
        else col.finish ctx

end Collector

end HazardTrace
