import HazardTrace.CallGraph
import HazardTrace.Collections

/-!
# Searches

A search starts at one method and walks from callee to caller, breadth first, until it meets entry
methods: its destinations. It does not go on behind

* an entry, which is collected;
* a virtual method other than the start, since dispatch through it says little about who calls;
* a safe method;
* another hazard, if interior hazards are excluded, because the search of that hazard reports it;
* a call edge that is known to be harmless.

A node is discovered at most once, so the number of undiscovered nodes together with the number of
waiting ones falls with every node that is expanded. The visits form a tree of shortest ways; the
way to a node is read off by climbing from it to the start.
-/

namespace HazardTrace

namespace Search

/-- The limits of a search. -/
structure Options where
  /-- Stop after this many destinations; `none` collects them all. -/
  maxDestinations : Option Nat := some 10
  /-- Without this, stop at the first destination. -/
  returnMultiple : Bool := true
  /-- Do not walk through hazards other than the start. -/
  excludeInteriorSources : Bool := true
deriving DecidableEq, Repr

/-- The number of destinations at which a search stops; it is at least one. -/
def Options.cap (o : Options) : Option Nat :=
  if o.returnMultiple then o.maxDestinations.map (max · 1) else some 1

/-- How a node was discovered. -/
structure Visit where
  /-- The node it was discovered from; the start was discovered from itself. -/
  via : Nat
  /-- The number of calls between it and the start. -/
  distance : Nat
deriving DecidableEq, Repr

/-- A search in progress. -/
structure State where
  visits : Array (Option Visit)
  waiting : Worklist Nat
  /-- The destinations met so far, in order. -/
  found : Array Nat

namespace State

/-- How many nodes are undiscovered. -/
def undiscovered (st : State) : Nat :=
  st.visits.countP Option.isNone

/-- Bounds the number of nodes still to be expanded. -/
def weight (st : State) : Nat :=
  st.undiscovered + st.waiting.size

/-- Are there as many destinations as asked for? -/
def isFull (o : Options) (st : State) : Bool :=
  o.cap.any (· ≤ st.found.size)

/-- Notes that `v` was discovered from `u` at distance `d`. -/
def discover (st : State) (u d v : Nat) : State :=
  { st with visits := st.visits.setIfInBounds v (some ⟨u, d⟩) }

/-- What becomes of a node that has just been discovered: an entry is a destination, and any other
node that the search may walk through waits to be expanded. -/
def enter (g : CallGraph) (o : Options) (st : State) (v : Nat) : State :=
  if g.isSafe v then st
  else if g.isEntry v then { st with found := st.found.push v }
  else if o.excludeInteriorSources && g.isHazard v then st
  else { st with waiting := st.waiting.push v }

/-- The search meets the caller `v` of `u`. -/
def meet (g : CallGraph) (o : Options) (u d : Nat) (st : State) (v : Nat) : State :=
  match st.visits[v]? with
  | some none => if g.isSafeEdge u v then st else (st.discover u d v).enter g o v
  | _ => st

/-- The search meets callers of `u` in order, until it has enough destinations. -/
def meetAll (g : CallGraph) (o : Options) (u d : Nat) : List Nat → State → State
  | [], st => st
  | v :: vs, st =>
    let st := st.meet g o u d v
    if st.isFull o then st else meetAll g o u d vs st

/-- The distance at which a node was discovered. -/
def distance (st : State) (u : Nat) : Nat :=
  ((st.visits[u]?.join).map Visit.distance).getD 0

/-- Expands one node: its callers are met unless the search does not go on behind it. -/
def expand (g : CallGraph) (o : Options) (start : Nat) (st : State) (u : Nat) : State :=
  if (u != start && g.isVirtual u) || g.isSafe u then st
  else st.meetAll g o u (st.distance u + 1) (g.callers u)

theorem undiscovered_discover {st : State} {u d v : Nat} (h : st.visits[v]? = some none) :
    (st.discover u d v).undiscovered + 1 = st.undiscovered := by
  obtain ⟨hlt, hv⟩ := Array.getElem?_eq_some_iff.1 h
  have hpos : 0 < st.undiscovered :=
    Array.countP_pos_iff.2 ⟨_, Array.getElem_mem hlt, by simp [hv]⟩
  unfold undiscovered discover at *
  simp only [Array.setIfInBounds, hlt, dif_pos]
  rw [Array.countP_set, hv]
  simp
  omega

theorem weight_enter_le (g : CallGraph) (o : Options) (st : State) (v : Nat) :
    (st.enter g o v).weight ≤ st.weight + 1 := by
  unfold enter
  repeat' split
  all_goals simp [weight, undiscovered, ← Nat.add_assoc]

theorem weight_meet_le (g : CallGraph) (o : Options) (u d : Nat) (st : State) (v : Nat) :
    (st.meet g o u d v).weight ≤ st.weight := by
  unfold meet
  split
  next h =>
    split
    · exact Nat.le_refl _
    · refine Nat.le_trans (weight_enter_le g o _ v) ?_
      have := undiscovered_discover (u := u) (d := d) h
      simp only [weight, discover] at *
      omega
  · exact Nat.le_refl _

theorem weight_meetAll_le (g : CallGraph) (o : Options) (u d : Nat) (vs : List Nat) (st : State) :
    (meetAll g o u d vs st).weight ≤ st.weight := by
  induction vs generalizing st with
  | nil => exact Nat.le_refl _
  | cons v vs ih =>
    unfold meetAll
    have h := weight_meet_le g o u d st v
    dsimp only
    split
    · exact h
    · exact Nat.le_trans (ih _) h

theorem weight_expand_le (g : CallGraph) (o : Options) (start : Nat) (st : State) (u : Nat) :
    (st.expand g o start u).weight ≤ st.weight := by
  unfold expand
  split
  · exact Nat.le_refl _
  · exact weight_meetAll_le ..

theorem weight_expand_pop_lt {g : CallGraph} {o : Options} {start : Nat} {st : State} {u : Nat}
    {rest : Worklist Nat} (h : st.waiting.pop? = some (u, rest)) :
    (({ st with waiting := rest } : State).expand g o start u).weight < st.weight := by
  refine Nat.lt_of_le_of_lt (weight_expand_le ..) ?_
  have := Worklist.size_of_pop? h
  simp only [weight, undiscovered]
  omega

/-- Expands waiting nodes until none is left or there are enough destinations. -/
def run (g : CallGraph) (o : Options) (start : Nat) (st : State) : State :=
  match _h : st.waiting.pop? with
  | none => st
  | some (u, rest) =>
    let next := ({ st with waiting := rest } : State).expand g o start u
    if next.isFull o then next else next.run g o start
termination_by st.weight
decreasing_by exact weight_expand_pop_lt _h

/-- As `run`, but a cancellation token is read before each node is expanded, and the search gives up
when it has fired. The `k`-th reading of the token, counted from `check`, is `fired k`. -/
def runUnder (g : CallGraph) (o : Options) (start : Nat) (fired : Nat → Bool) (check : Nat)
    (st : State) : Option State :=
  match _h : st.waiting.pop? with
  | none => some st
  | some (u, rest) =>
    if fired check then none
    else
      let next := ({ st with waiting := rest } : State).expand g o start u
      if next.isFull o then some next else next.runUnder g o start fired (check + 1)
termination_by st.weight
decreasing_by exact weight_expand_pop_lt _h

/-- Before the first step, only the start is discovered. -/
def initial (g : CallGraph) (start : Nat) : State where
  visits := (Array.replicate g.size none).setIfInBounds start (some ⟨start, 0⟩)
  waiting := .ofList [start]
  found := #[]

end State

/-- The outcome of one search. -/
structure Result where
  start : Nat
  visits : Array (Option Visit)
  /-- The destinations in order of discovery, nearest first. -/
  destinations : List Nat
deriving DecidableEq, Repr

namespace Result

/-- How a node was discovered; `none` if it was not. -/
def visit? (r : Result) (v : Nat) : Option Visit :=
  r.visits[v]?.join

/-- The number of calls between the start and a discovered node. -/
def distance? (r : Result) (v : Nat) : Option Nat :=
  (r.visit? v).map Visit.distance

/-- Climbs `d` steps towards the start and lists the nodes on the way, farthest from the start
last. -/
def climb (r : Result) : Nat → Nat → List Nat → List Nat
  | 0, v, below => v :: below
  | d + 1, v, below => r.climb d (((r.visit? v).map Visit.via).getD v) (v :: below)

/-- The nodes from the start to a discovered node, both included. -/
def pathTo (r : Result) (v : Nat) : Option (List Nat) :=
  (r.distance? v).map fun d ↦ r.climb d v []

/-- One path for each destination, in the order of the destinations. -/
def paths (r : Result) : List (List Nat) :=
  r.destinations.filterMap r.pathTo

/-- Is the start itself the only destination? -/
def isSelfDestination (r : Result) : Bool :=
  r.destinations == [r.start]

/-- The outcome of a search that has ended in `st`. -/
def ofState (start : Nat) (st : State) : Result :=
  ⟨start, st.visits, st.found.toList⟩

end Result

end Search

namespace CallGraph

open Search

/-- The outcome of a search that needs no step: a start outside the graph discovers nothing, and a
start that is an entry is its own only destination. -/
def settled? (g : CallGraph) (start : Nat) : Option Result :=
  if start ≥ g.size then some ⟨start, Array.replicate g.size none, []⟩
  else if g.isEntry start then some ⟨start, (State.initial g start).visits, [start]⟩
  else none

/-- Searches from `start`. -/
def search (g : CallGraph) (o : Options) (start : Nat) : Result :=
  (g.settled? start).getD (.ofState start ((State.initial g start).run g o start))

/-- Searches from `start` and gives up, with no result, once the token has fired. -/
def searchUnder (g : CallGraph) (o : Options) (fired : Nat → Bool) (start : Nat) :
    Option Result :=
  g.settled? start <|>
    ((State.initial g start).runUnder g o start fired 0).map (.ofState start)

/-- A start outside the graph is logged. -/
def startEvents (g : CallGraph) (start : Nat) : List Log.Event :=
  if start < g.size then []
  else [Log.event .debug .search "search source outside the graph"
    [("source", .number start), ("nodes", .number g.size)]]

/-- Searches from `start`, with the events of the search. -/
def searchLogged (g : CallGraph) (o : Options) (start : Nat) : Logged Result :=
  ⟨g.search o start, g.startEvents start⟩

/-- Searches from `start` under a token, with the events of the search. -/
def searchUnderLogged (g : CallGraph) (o : Options) (fired : Nat → Bool) (start : Nat) :
    Logged (Option Result) :=
  ⟨g.searchUnder o fired start, g.startEvents start⟩

/-- The events of every thousandth completed search. -/
def progress (total completed : Nat) : List Log.Event :=
  (List.range (completed / 1000)).map fun k ↦
    Log.event .debug .search "search progress"
      [("done", .number ((k + 1) * 1000)), ("total", .number total)] .searcher

/-- Searches from every hazard, in ascending order, and lists the searches that ran to completion.
No search starts once the token has fired. -/
def searchAll (g : CallGraph) (o : Options) (cancelled : Bool) : Logged (List Result) :=
  let results := g.hazards.filterMap fun start ↦
    if cancelled then none else g.searchUnder o (fun _ ↦ cancelled) start
  ⟨results,
    Log.event .info .search "starting reachability searches" [("sources", .number g.hazards.length)]
      :: progress g.hazards.length results.length⟩

end CallGraph

end HazardTrace
