import HazardTrace.Proofs.Search.Discovery
import Mathlib.Data.List.Nodup
import Mathlib.Data.List.Perm.Subperm

/-!
# The paths of a search

Climbing from a visited node to the start goes down by one in distance with every call, so the
method at place `i` of the path has distance `i`. From that it follows that the path is admissible
(`Sound.climb`), that it has as many calls as the distance says, and that no method stands on it
twice (`nodup_of_distance_eq_place`). A path without repetition is no longer than the number of
methods, which bounds distances (`Sound.distance_lt`).

`Sound.climb` is by induction on the distance. The walk to the node before is extended by one call,
and for that the start must not stand further up on it: it has distance zero, and that place is the
first.

The main statements are about `CallGraph.search` under all options and from every start. A search
from outside the graph finds nothing, one from an entry finds the entry, and all others run
(`search_cases`). In each case the visits are those of a sound state (`exists_sound_search`), so
that these statements need no further case distinction:

* `pathTo_search` describes the path to each visited node;
* `length_paths_search` says that every destination has one, and `nodup_paths_search` that they
  differ;
* `two_le_length_of_mem_paths` and `length_of_mem_paths_of_isEntry` tell the paths of a method that
  is no entry from that of an entry, which is the difference between a chain and an exposed source.
-/

namespace HazardTrace

open CallGraph

namespace Search

variable {g : CallGraph} {o : Options} {s v d : Nat} {st : State}

namespace State

/-- Only the start has distance zero. -/
theorem Sound.eq_start_of_distance_eq_zero {x : Visit} (h : Sound g o s st)
    (hv : st.visit? v = some x) (hx : x.distance = 0) : v = s := by
  by_contra hne
  obtain ⟨y, -, hy, -⟩ := h.visit_via v x hv hne
  omega

theorem Sound.ne_start_of_distance_eq_succ {x : Visit} (h : Sound g o s st)
    (hv : st.visit? v = some x) (hx : x.distance = d + 1) : v ≠ s := by
  rintro rfl
  rw [h.visit_start] at hv
  obtain rfl := Option.some.inj hv
  cases hx

/-- **Climbing from a visited node** lists an admissible walk on which the place of a method is its
distance. -/
theorem Sound.climb {x : Visit} (h : Sound g o s st) (hv : st.visit? v = some x)
    (hd : x.distance = d) (below : List Nat) :
    ∃ walk, (Result.ofState s st).climb d v below = walk ++ below ∧
      g.AdmissibleWalk o s v walk ∧ walk.length = d + 1 ∧
      ∀ i w, walk[i]? = some w → ∃ y, st.visit? w = some y ∧ y.distance = i := by
  induction d generalizing v x below with
  | zero =>
    obtain rfl := h.eq_start_of_distance_eq_zero hv hd
    refine ⟨[v], rfl, .singleton v, rfl, ?_⟩
    intro i w hw
    obtain ⟨rfl, rfl⟩ : i = 0 ∧ v = w := by
      cases i with
      | zero => exact ⟨rfl, by simpa using hw⟩
      | succ i => simp at hw
    exact ⟨x, hv, hd⟩
  | succ d ih =>
    have hvs := h.ne_start_of_distance_eq_succ hv hd
    obtain ⟨y, hy, hxy, hexp, hfollows⟩ := h.visit_via v x hv hvs
    obtain ⟨walk, hclimb, hwalk, hlen, hplace⟩ := ih hy (by omega) (v :: below)
    -- the start has distance 0, so it stands at the head of the walk only
    have htail : s ∉ walk.tail := by
      intro hmem
      obtain ⟨i, hi⟩ := List.mem_iff_getElem?.1 hmem
      rw [List.getElem?_tail] at hi
      obtain ⟨z, hz, hzi⟩ := hplace (i + 1) s hi
      rw [h.visit_start] at hz
      obtain rfl := Option.some.inj hz
      cases hzi
    refine ⟨walk ++ [v], ?_, hwalk.concat hexp htail hfollows, by simp [hlen], ?_⟩
    · have hvia : (((Result.ofState s st).visit? v).map Visit.via).getD v = x.via := by
        rw [show (Result.ofState s st).visit? v = some x from hv]
        rfl
      rw [Result.climb, hvia, hclimb, List.append_assoc]
      rfl
    · intro i w hw
      rcases Nat.lt_or_ge i walk.length with hi | hi
      · exact hplace i w (by rwa [List.getElem?_append_left hi] at hw)
      · rw [List.getElem?_append_right hi, List.getElem?_singleton] at hw
        split at hw
        next hzero =>
          obtain rfl := Option.some.inj hw
          exact ⟨x, hv, by omega⟩
        · cases hw

/-- A list on which the place of a method is its distance has no method twice. -/
theorem nodup_of_distance_eq_place {walk : List Nat}
    (h : ∀ i w, walk[i]? = some w → ∃ y, st.visit? w = some y ∧ y.distance = i) :
    walk.Nodup := by
  rw [List.nodup_iff_getElem?_ne_getElem?]
  intro i j hij hj heq
  have hj' := List.getElem?_eq_getElem hj
  obtain ⟨y, hy, hyj⟩ := h j _ hj'
  obtain ⟨z, hz, hzi⟩ := h i _ (heq.trans hj')
  rw [hy] at hz
  obtain rfl := Option.some.inj hz
  omega

/-- Distances stay below the number of methods. -/
theorem Sound.distance_lt {x : Visit} (h : Sound g o s st) (hv : st.visit? v = some x) :
    x.distance < g.size := by
  obtain ⟨walk, -, -, hlen, hplace⟩ := h.climb hv rfl []
  have hsub : walk ⊆ List.range g.size := by
    intro w hw
    obtain ⟨i, hi⟩ := List.mem_iff_getElem?.1 hw
    obtain ⟨y, hy, -⟩ := hplace i w hi
    rw [List.mem_range, ← h.size_visits]
    unfold visit? at hy
    exact (Array.getElem?_eq_some_iff.1 (Option.join_eq_some_iff.1 hy)).1
  have hle := (List.subperm_of_subset (nodup_of_distance_eq_place hplace) hsub).length_le
  rw [List.length_range] at hle
  omega

end State

end Search

/-! ### Searches from every start -/

namespace CallGraph

open Search

variable {g : CallGraph} {o : Options} {s v d : Nat}

/-- A search runs from a method of the graph that is no entry. -/
theorem settled?_eq_none_iff : g.settled? s = none ↔ s < g.size ∧ g.isEntry s = false := by
  unfold settled?
  by_cases hs : s < g.size
  · cases hentry : g.isEntry s <;> simp [hs, Nat.not_le.2 hs]
  · simp [hs, Nat.not_lt.1 hs]

/-- A search from a method that is no entry ends in the state that its run leads to. -/
theorem search_eq_ofState (hs : s < g.size) (hentry : g.isEntry s = false) :
    g.search o s = .ofState s ((State.initial g s).run g o s) := by
  unfold search
  rw [settled?_eq_none_iff.2 ⟨hs, hentry⟩]
  rfl

/-- A search from an entry finds the entry and nothing else. -/
theorem search_of_isEntry (hs : s < g.size) (hentry : g.isEntry s = true) :
    g.search o s = ⟨s, (State.initial g s).visits, [s]⟩ := by
  unfold search settled?
  rw [if_neg (Nat.not_le.2 hs), if_pos hentry]
  rfl

theorem search_of_size_le (hs : g.size ≤ s) :
    g.search o s = ⟨s, Array.replicate g.size none, []⟩ := by
  unfold search settled?
  rw [if_pos hs]
  rfl

theorem distance?_search_of_size_le (hs : g.size ≤ s) : (g.search o s).distance? v = none := by
  have hvisit : (g.search o s).visit? v = none := by
    rw [search_of_size_le hs, Result.visit?, Array.getElem?_replicate]
    split <;> rfl
  rw [Result.distance?, hvisit]
  rfl

/-- **The three kinds of searches.** Which one it is depends on the start alone. -/
theorem search_cases (g : CallGraph) (s : Nat) :
    (g.size ≤ s ∧ ∀ o, g.search o s = ⟨s, Array.replicate g.size none, []⟩) ∨
    (s < g.size ∧ g.isEntry s = true ∧
      ∀ o, g.search o s = ⟨s, (State.initial g s).visits, [s]⟩) ∨
    (s < g.size ∧ g.isEntry s = false ∧
      ∀ o, g.search o s = .ofState s ((State.initial g s).run g o s)) := by
  rcases Nat.lt_or_ge s g.size with hs | hs
  · cases hentry : g.isEntry s with
    | true => exact .inr (.inl ⟨hs, rfl, fun _ ↦ search_of_isEntry hs hentry⟩)
    | false => exact .inr (.inr ⟨hs, rfl, fun _ ↦ search_eq_ofState hs hentry⟩)
  · exact .inl ⟨hs, fun _ ↦ search_of_size_le hs⟩

@[simp]
theorem start_search (g : CallGraph) (o : Options) (s : Nat) : (g.search o s).start = s := by
  obtain ⟨-, heq⟩ | ⟨-, -, heq⟩ | ⟨-, -, heq⟩ := g.search_cases s
  · rw [heq]
  · rw [heq]
  · rw [heq]
    rfl

/-- The visits of every search are those of a sound state. -/
theorem exists_sound_search (hs : s < g.size) :
    ∃ st, State.Sound g o s st ∧ (g.search o s).visits = st.visits := by
  cases hentry : g.isEntry s with
  | true => exact ⟨_, State.sound_initial hs, by rw [search_of_isEntry hs hentry]⟩
  | false => exact ⟨_, (State.sound_initial hs).run, by rw [search_eq_ofState hs hentry]; rfl⟩

/-- What a search says of a node at distance `d` stands in a sound state. -/
theorem exists_sound_visit (h : (g.search o s).distance? v = some d) :
    ∃ st x, State.Sound g o s st ∧ (g.search o s).visits = st.visits ∧
      st.visit? v = some x ∧ x.distance = d := by
  rcases Nat.lt_or_ge s g.size with hs | hs
  · obtain ⟨st, hsound, hvisits⟩ := exists_sound_search (o := o) hs
    obtain ⟨x, hx, hd⟩ := Option.map_eq_some_iff.1 h
    rw [Result.visit?, hvisits] at hx
    exact ⟨st, x, hsound, hvisits, hx, hd⟩
  · rw [distance?_search_of_size_le hs] at h
    cases h

/-- **The path to a visited node**: admissible, one method longer than the distance, and without
repetition. -/
theorem pathTo_search (h : (g.search o s).distance? v = some d) :
    ∃ path, (g.search o s).pathTo v = some path ∧ g.AdmissibleWalk o s v path ∧
      path.length = d + 1 ∧ path.Nodup := by
  obtain ⟨st, x, hsound, hvisits, hv, hd⟩ := exists_sound_visit h
  have hclimb : ∀ n w below,
      (g.search o s).climb n w below = (Result.ofState s st).climb n w below := by
    intro n
    induction n with
    | zero => intro w below; rfl
    | succ n ih =>
      intro w below
      rw [Result.climb, Result.climb, ih, Result.visit?, hvisits]
      rfl
  obtain ⟨walk, heq, hwalk, hlen, hplace⟩ := hsound.climb hv hd []
  refine ⟨walk, ?_, hwalk, hlen, State.nodup_of_distance_eq_place hplace⟩
  rw [Result.pathTo, h, Option.map_some, hclimb, heq, List.append_nil]

/-- No destination is found twice. -/
theorem nodup_destinations_search (g : CallGraph) (o : Options) (s : Nat) :
    (g.search o s).destinations.Nodup := by
  obtain ⟨-, heq⟩ | ⟨-, -, heq⟩ | ⟨hs, -, heq⟩ := g.search_cases s
  · rw [heq]
    exact .nil
  · rw [heq]
    exact List.nodup_singleton s
  · rw [heq]
    exact (State.sound_initial hs).run.nodup_found

/-- Every destination was visited. -/
theorem exists_distance?_of_mem_destinations (h : v ∈ (g.search o s).destinations) :
    ∃ d, (g.search o s).distance? v = some d := by
  obtain ⟨-, heq⟩ | ⟨hs, -, heq⟩ | ⟨hs, -, heq⟩ := g.search_cases s
  · rw [heq] at h
    cases h
  · rw [heq] at h ⊢
    obtain rfl := List.mem_singleton.1 h
    exact ⟨0, congrArg (Option.map Visit.distance) (State.sound_initial (o := o) hs).visit_start⟩
  · rw [heq] at h ⊢
    obtain ⟨⟨x, hx⟩, -⟩ := (State.sound_initial hs).run.found v h
    exact ⟨x.distance, congrArg (Option.map Visit.distance) hx⟩

/-- The destinations of a search that does not start at an entry are entries other than the start,
and not safe. -/
theorem isDestination_of_mem_destinations (hentry : g.isEntry s = false)
    (h : v ∈ (g.search o s).destinations) : v ≠ s ∧ g.IsDestination v := by
  rcases Nat.lt_or_ge s g.size with hs | hs
  · rw [search_eq_ofState hs hentry] at h
    exact ((State.sound_initial hs).run.found v h).2
  · rw [search_of_size_le hs] at h
    cases h

/-- Every destination has a path. -/
theorem exists_pathTo_of_mem_destinations (h : v ∈ (g.search o s).destinations) :
    ∃ path, (g.search o s).pathTo v = some path := by
  obtain ⟨d, hd⟩ := exists_distance?_of_mem_destinations h
  obtain ⟨path, hpath, -⟩ := pathTo_search hd
  exact ⟨path, hpath⟩

theorem exists_mem_paths_of_mem_destinations (h : v ∈ (g.search o s).destinations) :
    ∃ path, path ∈ (g.search o s).paths := by
  obtain ⟨path, hpath⟩ := exists_pathTo_of_mem_destinations h
  exact ⟨path, List.mem_filterMap.2 ⟨v, h, hpath⟩⟩

/-- There are as many paths as destinations. -/
theorem length_paths_search (g : CallGraph) (o : Options) (s : Nat) :
    (g.search o s).paths.length = (g.search o s).destinations.length := by
  unfold Result.paths
  rw [List.length_filterMap_eq_countP, List.countP_eq_length]
  intro v hv
  obtain ⟨path, hpath⟩ := exists_pathTo_of_mem_destinations hv
  rw [hpath]
  rfl

/-- What is known of every path that a search gives. -/
theorem walk_of_pathTo_search {path : List Nat} (h : (g.search o s).pathTo v = some path) :
    g.AdmissibleWalk o s v path ∧ path.Nodup := by
  obtain ⟨d, hd, -⟩ := Option.map_eq_some_iff.1 h
  obtain ⟨path', hpath', hwalk, -, hnodup⟩ := pathTo_search hd
  obtain rfl := Option.some.inj (h.symm.trans hpath')
  exact ⟨hwalk, hnodup⟩

/-- What is known of every path that a search hands out. -/
theorem mem_paths_search {path : List Nat} (h : path ∈ (g.search o s).paths) :
    ∃ v ∈ (g.search o s).destinations, (g.search o s).pathTo v = some path ∧
      g.AdmissibleWalk o s v path ∧ path.Nodup := by
  obtain ⟨v, hv, hpath⟩ := List.mem_filterMap.1 h
  exact ⟨v, hv, hpath, walk_of_pathTo_search hpath⟩

/-- Paths to different destinations are different. -/
theorem nodup_paths_search (g : CallGraph) (o : Options) (s : Nat) :
    (g.search o s).paths.Nodup := by
  refine List.Pairwise.filterMap _ ?_ (nodup_destinations_search g o s)
  rintro v w hne path hpath path' hpath' rfl
  refine hne (Option.some.inj ?_)
  rw [← (walk_of_pathTo_search hpath).1.last, (walk_of_pathTo_search hpath').1.last]

/-- A path from a method that is no entry has an entry at another end. -/
theorem two_le_length_of_mem_paths {path : List Nat} (hentry : g.isEntry s = false)
    (h : path ∈ (g.search o s).paths) : 2 ≤ path.length := by
  obtain ⟨v, hv, -, hwalk, -⟩ := mem_paths_search h
  have hne := (isDestination_of_mem_destinations hentry hv).1
  have hhead := hwalk.head
  have hlast := hwalk.last
  match path with
  | [] => simp at hhead
  | [a] => simp_all
  | a :: b :: rest => simp

/-- An entry has the path that stays there, and no other. -/
theorem length_of_mem_paths_of_isEntry {path : List Nat} (hs : s < g.size)
    (hentry : g.isEntry s = true) (h : path ∈ (g.search o s).paths) : path.length = 1 := by
  obtain ⟨v, hv, hpath, -⟩ := mem_paths_search h
  rw [search_of_isEntry hs hentry] at hv hpath
  obtain rfl := List.mem_singleton.1 hv
  obtain ⟨d, hd, rfl⟩ := Option.map_eq_some_iff.1 hpath
  have hstart := (State.sound_initial (o := o) hs).visit_start
  have hzero : d = 0 := by
    have hdist : (Result.mk v (State.initial g v).visits [v]).distance? v = some 0 :=
      congrArg (Option.map Visit.distance) hstart
    exact Option.some.inj (hd.symm.trans hdist)
  subst hzero
  rfl

theorem isEntry_eq_false_of_mem_paths {path : List Nat} (hs : s < g.size)
    (h : path ∈ (g.search o s).paths) (hlen : 2 ≤ path.length) : g.isEntry s = false := by
  refine Bool.eq_false_iff.2 fun hentry ↦ ?_
  have hone := length_of_mem_paths_of_isEntry hs hentry h
  omega

end CallGraph

end HazardTrace
