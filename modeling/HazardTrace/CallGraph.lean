import HazardTrace.Collections
import HazardTrace.Log

/-!
# Call graphs

A call graph holds, for each method, the methods that call it and what a search has to know about
it. Every caller is itself a node of the graph; `callers_lt` keeps that in the type.
-/

namespace HazardTrace

/-- What a graph knows about one method. -/
structure GraphNode where
  /-- The callers, ascending. -/
  callers : List Nat := []
  /-- The callers whose call is known to be harmless, ascending. -/
  safeCallers : List Nat := []
  isEntry : Bool := false
  isHazard : Bool := false
  isSafe : Bool := false
  isVirtual : Bool := false
deriving DecidableEq, Repr, Inhabited

/-- Flags of the methods, by number. A missing flag is false. -/
structure NodeFlags where
  entry : Array Bool := #[]
  hazard : Array Bool := #[]
  safe : Array Bool := #[]
  virtual : Array Bool := #[]
deriving DecidableEq, Repr

/-- Methods with their callers. -/
structure CallGraph where
  nodes : Array GraphNode
  callers_lt : ∀ node ∈ nodes, ∀ v ∈ node.callers, v < nodes.size

namespace CallGraph

/-- The size of a graph and of its flagged parts. -/
structure Stats where
  nodeCount : Nat
  edgeCount : Nat
  entryCount : Nat
  hazardCount : Nat
  safeCount : Nat
  virtualCount : Nat
deriving DecidableEq, Repr

/-- The number of methods. -/
def size (g : CallGraph) : Nat :=
  g.nodes.size

/-- What the graph knows about a method; nothing holds of a number outside the graph. -/
def node (g : CallGraph) (u : Nat) : GraphNode :=
  g.nodes[u]?.getD {}

/-- The callers of a method, ascending. -/
def callers (g : CallGraph) (u : Nat) : List Nat :=
  (g.node u).callers

/-- Is the call of `caller` into `callee` known to be harmless? -/
def isSafeEdge (g : CallGraph) (callee caller : Nat) : Bool :=
  bisect caller (g.node callee).safeCallers

/-- Can the method be called from outside? -/
def isEntry (g : CallGraph) (u : Nat) : Bool :=
  (g.node u).isEntry

/-- Is the method annotated and not safe? -/
def isHazard (g : CallGraph) (u : Nat) : Bool :=
  (g.node u).isHazard

/-- Is the method marked safe? -/
def isSafe (g : CallGraph) (u : Nat) : Bool :=
  (g.node u).isSafe

/-- Is the method virtual? -/
def isVirtual (g : CallGraph) (u : Nat) : Bool :=
  (g.node u).isVirtual

/-- The number of call edges. -/
def edgeCount (g : CallGraph) : Nat :=
  (g.nodes.toList.flatMap (·.callers)).length

/-- The hazards, ascending. -/
def hazards (g : CallGraph) : List Nat :=
  (List.range g.size).filter g.isHazard

/-- The size of the graph and of its flagged parts. -/
def stats (g : CallGraph) : Stats where
  nodeCount := g.size
  edgeCount := g.edgeCount
  entryCount := g.nodes.countP (·.isEntry)
  hazardCount := g.nodes.countP (·.isHazard)
  safeCount := g.nodes.countP (·.isSafe)
  virtualCount := g.nodes.countP (·.isVirtual)

theorem lt_of_mem_callers {g : CallGraph} {u v : Nat} (h : v ∈ g.callers u) : v < g.size := by
  unfold callers node at h
  cases hu : g.nodes[u]? with
  | none => simp [hu] at h
  | some node =>
    simp only [hu, Option.getD_some] at h
    exact g.callers_lt node (Array.mem_of_getElem? hu) v h

/-! ### Building -/

/-- Are both ends of a pair of caller and callee among `n` methods? -/
def inRange (n : Nat) (edge : Nat × Nat) : Bool :=
  edge.1 < n && edge.2 < n

/-- The callers of each of `n` methods: those paired with it, ascending and once each. -/
def callerLists (n : Nat) (edges : List (Nat × Nat)) : Array (List Nat) :=
  (buckets n ((edges.filter (inRange n)).map fun e ↦ (e.2, e.1))).map ascending

/-- The node with number `i`. -/
def assemble (flags : NodeFlags) (safeEdges : Array (List Nat)) (i : Nat) (callers : List Nat) :
    GraphNode where
  callers
  safeCallers := ascending (safeEdges[i]?.getD [])
  isEntry := flags.entry[i]?.getD false
  isHazard := flags.hazard[i]?.getD false
  isSafe := flags.safe[i]?.getD false
  isVirtual := flags.virtual[i]?.getD false

@[simp]
theorem size_callerLists (n : Nat) (edges : List (Nat × Nat)) : (callerLists n edges).size = n := by
  simp [callerLists]

theorem getElem?_callerLists (n : Nat) (edges : List (Nat × Nat)) (i : Nat) :
    (callerLists n edges)[i]? =
      if i < n then
        some (ascending (((edges.filter (inRange n)).filter (·.2 == i)).map (·.1)))
      else none := by
  rw [callerLists, Array.getElem?_map, getElem?_buckets]
  by_cases hi : i < n <;> simp [hi, List.filter_map, Function.comp_def]

/-- The graph on `n` methods with the given pairs of caller and callee. A pair with an end outside
the graph is left out. -/
def build (n : Nat) (edges : List (Nat × Nat)) (flags : NodeFlags)
    (safeEdges : Array (List Nat)) : CallGraph where
  nodes := (callerLists n edges).mapIdx (assemble flags safeEdges)
  callers_lt := by
    intro node hnode v hv
    obtain ⟨i, hi, rfl⟩ := Array.mem_iff_getElem.1 hnode
    simp only [Array.getElem_mapIdx, assemble] at hv
    have hget := getElem?_callerLists n edges i
    rw [Array.getElem?_eq_getElem (by simpa using hi)] at hget
    split at hget
    · rw [Option.some.inj hget] at hv
      simp only [mem_ascending, List.mem_map, List.mem_filter, inRange] at hv
      obtain ⟨e, ⟨⟨_, he⟩, _⟩, rfl⟩ := hv
      simp only [Bool.and_eq_true, decide_eq_true_eq] at he
      simpa using he.1
    · cases hget

/-- Builds a graph and logs how many pairs were left out. -/
def buildLogged (n : Nat) (edges : List (Nat × Nat)) (flags : NodeFlags)
    (safeEdges : Array (List Nat)) : Logged CallGraph :=
  let dropped := edges.countP (!inRange n ·)
  ⟨build n edges flags safeEdges,
    if dropped = 0 then []
    else [Log.event .debug .graph "skipped edges referencing unknown nodes"
      [("dropped", .number dropped)]]⟩

end CallGraph

end HazardTrace
