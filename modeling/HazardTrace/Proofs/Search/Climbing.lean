import HazardTrace.Proofs.Search.Paths

/-!
# Climbing to the start

A path is read off by climbing: from a node to the one it was discovered from, and so on. How far to
climb is known in advance, because the distance of the node is on record. Without that record one
would climb until a node is its own predecessor, as the start is. `Traces` is that open-ended climb,
of which it is not clear that it ends. If it does, it lists one path (`Traces.unique`).

On the visits of a search it does end, and both climbs list the same path (`State.Sound.traces`).
The proof is by induction on the distance: with each step it falls by one, so a predecessor is
another node until the distance is zero, and only the start has that distance.

The main statement, `search_paths_exact`, puts this together with what is known of the paths of a
search (`pathTo_search`): they are admissible, have no method twice and one method more than the
distance. It holds for every start and all options, so also for a search that a cap has stopped
between two callers. Nodes that were not reached have no path, and there is one path for each
destination, in the same order (`map_some_paths_search`).

A distance is below the number of methods (`lt_size_of_distance?_search`). So a number above all of
them can stand for a node that was not reached, and no distance is mistaken for it.
-/

namespace HazardTrace

open CallGraph

namespace Search

namespace Result

variable {r : Result} {v : Nat} {path path' : List Nat}

/-- The node that a node was discovered from. The start, and a node that was not discovered, are
their own predecessors. -/
def predecessor (r : Result) (v : Nat) : Nat :=
  ((r.visit? v).map Visit.via).getD v

/-- Going on to the predecessor until a node is its own ends, and lists `path`, with the node where
it began at the end. -/
inductive Traces (r : Result) : Nat → List Nat → Prop
  | stop {v : Nat} : r.predecessor v = v → Traces r v [v]
  | step {v : Nat} {path : List Nat} : r.predecessor v ≠ v → Traces r (r.predecessor v) path →
      Traces r v (path ++ [v])

/-- The open-ended climb lists one path at most. -/
theorem Traces.unique (h : r.Traces v path) (h' : r.Traces v path') : path' = path := by
  induction h generalizing path' with
  | stop hstop =>
    obtain _ | ⟨hstep, -⟩ := h'
    · rfl
    · exact absurd hstop hstep
  | step hstep _ ih =>
    obtain hstop | ⟨-, h'⟩ := h'
    · exact absurd hstop hstep
    · rw [ih h']

end Result

namespace State

variable {g : CallGraph} {o : Options} {s v d : Nat} {st : State} {r : Result}

/-- **The open-ended climb ends**, and lists what the climb by distance lists. -/
theorem Sound.traces {x : Visit} (h : Sound g o s st) (hr : r.visits = st.visits)
    (hv : st.visit? v = some x) (hd : x.distance = d) (below : List Nat) :
    ∃ walk, r.climb d v below = walk ++ below ∧ r.Traces v walk := by
  have hvisit : ∀ w, r.visit? w = st.visit? w := fun w ↦ by rw [Result.visit?, hr]; rfl
  have hpred : r.predecessor v = x.via := by
    rw [Result.predecessor, hvisit, hv]
    rfl
  induction d generalizing v x below with
  | zero =>
    obtain rfl := h.eq_start_of_distance_eq_zero hv hd
    obtain rfl := Option.some.inj (h.visit_start.symm.trans hv)
    exact ⟨[v], rfl, .stop hpred⟩
  | succ d ih =>
    obtain ⟨y, hy, hxy, -⟩ := h.visit_via v x hv (h.ne_start_of_distance_eq_succ hv hd)
    have hne : x.via ≠ v := by
      intro heq
      rw [heq, hv] at hy
      obtain rfl := Option.some.inj hy
      omega
    have hpredVia : r.predecessor x.via = y.via := by
      rw [Result.predecessor, hvisit, hy]
      rfl
    obtain ⟨walk, hclimb, htraces⟩ := ih hy (by omega) (v :: below) hpredVia
    refine ⟨walk ++ [v], ?_, .step (hpred ▸ hne) (hpred ▸ htraces)⟩
    show r.climb d (r.predecessor v) (v :: below) = _
    rw [hpred, hclimb, List.append_assoc]
    rfl

end State

end Search

namespace CallGraph

open Search

variable {g : CallGraph} {o : Options} {s v d : Nat} {path : List Nat}

/-- The path of a search is the one that the open-ended climb lists. -/
theorem traces_of_pathTo_search (h : (g.search o s).pathTo v = some path) :
    (g.search o s).Traces v path := by
  obtain ⟨d, hdist, rfl⟩ := Option.map_eq_some_iff.1 h
  obtain ⟨st, x, hsound, hvisits, hv, hd⟩ := exists_sound_visit hdist
  obtain ⟨walk, hclimb, htraces⟩ := hsound.traces hvisits hv hd []
  rwa [hclimb, List.append_nil]

/-- A distance is below the number of methods. -/
theorem lt_size_of_distance?_search (h : (g.search o s).distance? v = some d) : d < g.size := by
  obtain ⟨st, x, hsound, -, hv, rfl⟩ := exists_sound_visit h
  exact hsound.distance_lt hv

/-- The paths of a search are those of its destinations, one by one. -/
theorem map_some_paths_search (g : CallGraph) (o : Options) (s : Nat) :
    (g.search o s).paths.map some = (g.search o s).destinations.map (g.search o s).pathTo := by
  rw [Result.paths, List.map_filterMap_some_eq_filter_map_isSome, List.filter_eq_self]
  intro path hpath
  obtain ⟨v, hv, rfl⟩ := List.mem_map.1 hpath
  obtain ⟨path, hpath⟩ := exists_pathTo_of_mem_destinations hv
  rw [hpath]
  rfl

/-- **Paths are read off correctly**, whatever the options. A node at distance `d` has a path:
climbing from predecessor to predecessor ends, and lists `d + 1` different nodes, which make an
admissible walk from the start to the node. A node that was not reached has no path. There is one
path for each destination, in the same order.

A distance is below the number of methods, so it cannot be taken for a mark of nodes that were not
reached that lies above all of them. -/
theorem search_paths_exact (g : CallGraph) (o : Options) (s : Nat) :
    (∀ v d, (g.search o s).distance? v = some d → d < g.size ∧
      ∃ path, (g.search o s).pathTo v = some path ∧
        (∀ path', (g.search o s).Traces v path' ↔ path' = path) ∧
        path.length = d + 1 ∧ path.Nodup ∧ g.AdmissibleWalk o s v path) ∧
    (∀ v, (g.search o s).distance? v = none → (g.search o s).pathTo v = none) ∧
    (g.search o s).paths.map some = (g.search o s).destinations.map (g.search o s).pathTo := by
  refine ⟨fun v d hd ↦ ⟨lt_size_of_distance?_search hd, ?_⟩, fun v hnone ↦ ?_,
    map_some_paths_search g o s⟩
  · obtain ⟨path, hpath, hwalk, hlen, hnodup⟩ := pathTo_search hd
    have htraces := traces_of_pathTo_search hpath
    exact ⟨path, hpath, fun path' ↦ ⟨htraces.unique, fun heq ↦ heq ▸ htraces⟩, hlen, hnodup, hwalk⟩
  · rw [Result.pathTo, hnone]
    rfl

/-- A hazard that calls itself stands below a circle, which two entries call. -/
def circle : CallGraph where
  nodes := #[{ callers := [0, 1], isHazard := true }, { callers := [0, 2] },
    { callers := [1, 3, 4] }, { isEntry := true }, { isEntry := true }]
  callers_lt := by decide

/-- A search that stops at the first entry, between two callers of one node: it has the way to that
entry, and none to the second. -/
theorem search_paths_exact_circle :
    (circle.search { maxDestinations := some 1 } 0).distance? 3 = some 3 ∧
    (∃ path, (circle.search { maxDestinations := some 1 } 0).pathTo 3 = some path ∧
      (∀ path', (circle.search { maxDestinations := some 1 } 0).Traces 3 path' ↔ path' = path) ∧
      path.length = 4 ∧ path.Nodup) ∧
    (circle.search { maxDestinations := some 1 } 0).distance? 4 = none ∧
    (circle.search { maxDestinations := some 1 } 0).pathTo 4 = none := by
  have hreached : (circle.search { maxDestinations := some 1 } 0).distance? 3 = some 3 := by
    decide +kernel
  have hmissed : (circle.search { maxDestinations := some 1 } 0).distance? 4 = none := by
    decide +kernel
  obtain ⟨hpaths, hnone, -⟩ := search_paths_exact circle { maxDestinations := some 1 } 0
  obtain ⟨-, path, hpath, htraces, hlen, hnodup, -⟩ := hpaths 3 3 hreached
  exact ⟨hreached, ⟨path, hpath, htraces, hlen, hnodup⟩, hmissed, hnone 4 hmissed⟩

end CallGraph

end HazardTrace
