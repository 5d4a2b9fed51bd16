import HazardTrace.Proofs.Search.Interior

/-!
# Searches under a cap

A search under a cap is the search without it, broken off. Up to the last destination the two are in
the same state, because the cap is asked only after a caller has been met, and does not bear on what
becomes of that caller (`meet_congr`). From there on the search without a cap only adds to what the
other one has left behind (`State.Extends`): visits are final, and destinations are added at the
end.

`CutAt` says where two searches stand that began in the same state: they are in the same state
still, or the capped one has stopped with exactly `k` destinations and the other one extends it. It
is proved for the callers of one node (`cutAt_meetAll`), and from there for whole runs
(`cutAt_run`). A cap is reached exactly, because each caller adds at most one destination
(`size_found_meet_le`).

Destinations are collected at discovery, and in a breadth-first order, so they stand in order of
distance (`NearestFirst`), and the ones that a cap keeps are the nearest. This holds under a cap or
not. It is carried through the run together with soundness and the order of the queue (`Ordered`),
since a new destination is discovered at the next level and all others are at that level or below.

For the main result, `search_nearest_under_cap`, paths have to be compared as well. A path is read
off the visits by climbing, and climbing goes through visited nodes only, so it is the same for a
search that has kept these visits and made others (`Sound.climb_eq_of_visit?`).
-/

namespace HazardTrace

open CallGraph

namespace Search

variable {g : CallGraph} {o o' : Options} {s u v d k l : Nat}

/-- A cap leaves room for one destination at least. -/
theorem Options.one_le_of_cap (h : o.cap = some k) : 1 ≤ k := by
  rw [cap] at h
  split at h
  · obtain ⟨n, -, rfl⟩ := Option.map_eq_some_iff.1 h
    exact Nat.le_max_right n 1
  · obtain rfl := Option.some.inj h
    exact Nat.le_refl 1

/-- Options without a cap differ only in what they exclude. -/
theorem Options.eq_uncapped_of_cap (h : o.cap = none) : o = .uncapped o.excludeInteriorSources := by
  obtain ⟨limit, multiple, exclude⟩ := o
  rw [cap] at h
  split at h
  next hmultiple =>
    obtain rfl : limit = none := Option.map_eq_none_iff.1 h
    obtain rfl : multiple = true := hmultiple
    rfl
  · cases h

namespace State

variable {st st' st'' : State} {vs : List Nat}

/-! ### Going on -/

/-- `st'` may come after `st`: every visit is kept, and destinations are added at the end. -/
structure Extends (st st' : State) : Prop where
  visit : ∀ v x, st.visit? v = some x → st'.visit? v = some x
  found : st.found.toList <+: st'.found.toList

theorem Extends.refl (st : State) : st.Extends st :=
  ⟨fun _ _ h ↦ h, List.prefix_refl _⟩

theorem Extends.trans (h : st.Extends st') (h' : st'.Extends st'') : st.Extends st'' :=
  ⟨fun v x hv ↦ h'.visit v x (h.visit v x hv), h.found.trans h'.found⟩

theorem found_prefix_enter (g : CallGraph) (o : Options) (st : State) (v : Nat) :
    st.found.toList <+: (st.enter g o v).found.toList := by
  obtain ⟨-, heq⟩ | ⟨-, heq⟩ | ⟨-, -, heq⟩ := enter_cases g o st v
  · simp [heq]
  · simp [heq]
  · simp [heq]

/-- A discovery adds a visit, and at most a destination. -/
theorem extends_discover_enter (hfresh : st.visits[v]? = some none) (u d : Nat) :
    st.Extends ((st.discover u d v).enter g o v) where
  visit w x hw := by rw [visit?_enter, visit?_discover_of_visit? hfresh hw]
  found := found_prefix_enter g o (st.discover u d v) v

/-- Meeting callers only adds to a state, and so does every later step. -/
theorem extends_meetAll (g : CallGraph) (o : Options) (u d : Nat) (vs : List Nat) (st : State) :
    st.Extends (meetAll g o u d vs st) :=
  meetAll_induction (P := st.Extends) (.refl st) fun _ _ _ h hfresh _ ↦
    h.trans (extends_discover_enter hfresh u d)

theorem extends_expand (g : CallGraph) (o : Options) (s : Nat) (st : State) (u : Nat) :
    st.Extends (st.expand g o s u) := by
  rw [expand]
  split
  · exact .refl st
  · exact extends_meetAll ..

theorem extends_run (g : CallGraph) (o : Options) (s : Nat) (st : State) :
    st.Extends (st.run g o s) := by
  refine run_induction (P := st.Extends) (.refl st) fun st' u rest h _ ↦ ?_
  have hpop : st'.Extends { st' with waiting := rest } := ⟨fun _ _ hv ↦ hv, List.prefix_refl _⟩
  exact h.trans (hpop.trans (extends_expand g o s _ u))

/-! ### The cut -/

/-- Where a search that stops at `k` destinations stands, beside one that goes on. -/
inductive CutAt (k : Nat) (st st' : State) : Prop
  /-- There are fewer destinations, and nothing tells the two apart. -/
  | going : st.found.size < k → st = st' → CutAt k st st'
  /-- The first search has stopped. -/
  | stopped : st.found.size = k → st.Extends st' → CutAt k st st'

theorem CutAt.extends (h : CutAt k st st') : st.Extends st' := by
  obtain ⟨-, rfl⟩ | ⟨-, h⟩ := h
  · exact .refl st
  · exact h

/-- The capped search has the first `k` destinations. -/
theorem CutAt.found_eq (h : CutAt k st st') : st.found.toList = st'.found.toList.take k := by
  obtain ⟨hlt, rfl⟩ | ⟨hk, hextends⟩ := h
  · rw [List.take_of_length_le]
    rw [Array.length_toList]
    omega
  · have heq := List.prefix_iff_eq_take.1 hextends.found
    rwa [Array.length_toList, hk] at heq

/-- A search is full when it has as many destinations as the cap says. -/
theorem isFull_iff (hcap : o.cap = some k) : st.isFull o = true ↔ k ≤ st.found.size := by
  rw [isFull, hcap]
  exact decide_eq_true_iff

/-- What becomes of a caller does not depend on the cap. -/
theorem meet_congr (ho : o.excludeInteriorSources = o'.excludeInteriorSources) (u d : Nat)
    (st : State) (v : Nat) : st.meet g o u d v = st.meet g o' u d v := by
  simp only [meet, enter, ho]

/-- A node that is entered is one destination more, or none. -/
theorem size_found_enter_le (g : CallGraph) (o : Options) (st : State) (v : Nat) :
    (st.enter g o v).found.size ≤ st.found.size + 1 := by
  obtain ⟨-, heq⟩ | ⟨-, heq⟩ | ⟨-, -, heq⟩ := enter_cases g o st v
  · rw [heq]
    exact Nat.le_succ _
  · rw [heq, Array.size_push]
  · rw [heq]
    exact Nat.le_succ _

theorem size_found_meet_le (g : CallGraph) (o : Options) (u d : Nat) (st : State) (v : Nat) :
    (st.meet g o u d v).found.size ≤ st.found.size + 1 := by
  rw [meet]
  split
  · split
    · exact Nat.le_succ _
    · exact size_found_enter_le g o (st.discover u d v) v
  · exact Nat.le_succ _

/-- Without a cap a run goes on from every expansion. -/
theorem run_of_cap_eq_none {rest : Worklist Nat} (hcap : o.cap = none)
    (hpop : st.waiting.pop? = some (u, rest)) :
    st.run g o s = (({ st with waiting := rest } : State).expand g o s u).run g o s := by
  rw [run_of_pop?_eq_some hpop, isFull_eq_false hcap, if_neg Bool.false_ne_true]

section Cut

variable (hcap : o.cap = some k) (hcap' : o'.cap = none)
  (ho : o.excludeInteriorSources = o'.excludeInteriorSources)
include hcap hcap' ho

/-- **The callers of one node.** A cap is reached exactly, because each caller adds at most one
destination. -/
theorem cutAt_meetAll (hst : st.found.size < k) (u d : Nat) (vs : List Nat) :
    CutAt k (meetAll g o u d vs st) (meetAll g o' u d vs st) := by
  induction vs generalizing st with
  | nil => exact .going hst rfl
  | cons v vs ih =>
    rw [meetAll, meetAll, ← meet_congr ho, isFull_eq_false hcap', if_neg Bool.false_ne_true]
    split
    next hfull =>
      have hle := size_found_meet_le g o u d st v
      have hge := (isFull_iff hcap).1 hfull
      exact .stopped (by omega) (extends_meetAll ..)
    next hfull =>
      rw [isFull_iff hcap] at hfull
      exact ih (by omega)

/-- The cut in one expansion, which meets the callers of a node or does nothing. -/
theorem cutAt_expand (hst : st.found.size < k) (s u : Nat) :
    CutAt k (st.expand g o s u) (st.expand g o' s u) := by
  rw [expand, expand]
  split
  · exact .going hst rfl
  · exact cutAt_meetAll hcap hcap' ho hst ..

/-- **Whole runs.** The capped search stops after the expansion that fills it up, and until then the
next expansion starts from the same state in both. -/
theorem cutAt_run (hst : st.found.size < k) : CutAt k (st.run g o s) (st.run g o' s) := by
  -- the induction is along the capped run; the other one is unfolded beside it
  induction st using run.induct g o s with
  | case1 st hpop =>
    rw [run_of_pop?_eq_none hpop, run_of_pop?_eq_none hpop]
    exact .going hst rfl
  | case2 st u rest hpop next hfull =>
    have hpopped : ({ st with waiting := rest } : State).found.size < k := hst
    have hcut := cutAt_expand (g := g) hcap hcap' ho hpopped s u
    rw [run_of_pop?_eq_some hpop, if_pos hfull, run_of_cap_eq_none hcap' hpop]
    have hge := (isFull_iff hcap).1 hfull
    obtain ⟨hlt, -⟩ | ⟨hk, hextends⟩ := hcut
    · exact absurd hge (Nat.not_le.2 hlt)
    · exact .stopped hk (hextends.trans (extends_run ..))
  | case3 st u rest hpop next hfull ih =>
    have hpopped : ({ st with waiting := rest } : State).found.size < k := hst
    have hcut := cutAt_expand (g := g) hcap hcap' ho hpopped s u
    rw [run_of_pop?_eq_some hpop, if_neg hfull, run_of_cap_eq_none hcap' hpop]
    rw [isFull_iff hcap] at hfull
    obtain ⟨hlt, heq⟩ | ⟨hk, -⟩ := hcut
    · rw [← heq]
      exact ih hlt
    · exact absurd hk.ge hfull

end Cut

/-! ### The order of the destinations -/

/-- The destinations stand in order of distance. -/
def NearestFirst (st : State) : Prop :=
  st.found.toList.Pairwise fun a b ↦ st.distance a ≤ st.distance b

/-- A discovery at the next level is no nearer than the destinations that are there. -/
theorem NearestFirst.discover_enter (h : NearestFirst st) (hsound : Sound g o s st)
    (hlevel : Level l st) (hfresh : st.visits[v]? = some none) :
    NearestFirst ((st.discover u (l + 1) v).enter g o v) := by
  have hdist : ∀ w ∈ st.found.toList, (st.discover u (l + 1) v).distance w = st.distance w := by
    intro w hw
    obtain ⟨⟨x, hx⟩, -⟩ := hsound.found w hw
    exact distance_discover_of_visit? hfresh hx u (l + 1)
  have hdisc : NearestFirst (st.discover u (l + 1) v) := by
    refine List.Pairwise.imp_of_mem (fun ha hb hab ↦ ?_) h
    rwa [hdist _ ha, hdist _ hb]
  obtain ⟨-, heq⟩ | ⟨-, heq⟩ | ⟨-, -, heq⟩ := enter_cases g o (st.discover u (l + 1) v) v
  · rw [heq]
    exact hdisc
  · rw [heq, NearestFirst, Array.toList_push]
    refine List.pairwise_append.2 ⟨hdisc, List.pairwise_singleton .., fun a ha b hb ↦ ?_⟩
    obtain rfl := List.mem_singleton.1 hb
    obtain ⟨⟨x, hx⟩, -⟩ := hsound.found a ha
    show (st.discover u (l + 1) b).distance a ≤ (st.discover u (l + 1) b).distance b
    rw [hdist a ha, distance_discover hfresh, distance_of_visit? hx]
    exact hlevel.visit_le a x hx
  · rwa [heq]

/-- What holds between two expansions, under a cap or not. -/
structure Ordered (g : CallGraph) (o : Options) (s : Nat) (st : State) : Prop where
  sound : Sound g o s st
  level : ∃ l, Level l st
  nearestFirst : NearestFirst st

theorem ordered_initial (hs : s < g.size) : Ordered g o s (initial g s) :=
  ⟨sound_initial hs, ⟨0, level_initial g s⟩, .nil⟩

/-- **One expansion** keeps the order of the queue and of the destinations. -/
theorem Ordered.expand {rest : Worklist Nat} (h : Ordered g o s st)
    (hpop : st.waiting.pop? = some (u, rest)) :
    Ordered g o s (({ st with waiting := rest } : State).expand g o s u) := by
  obtain ⟨⟨x, hx⟩, hwaits⟩ := h.sound.of_pop? hpop
  obtain ⟨l, hlevel⟩ := h.level
  have hsound := h.sound.pop hpop
  have hlevel' := hlevel.pop hpop hx
  have hx' : ({ st with waiting := rest } : State).visit? u = some x := hx
  rw [State.expand]
  split
  · exact ⟨hsound, ⟨_, hlevel'⟩, h.nearestFirst⟩
  next hopen =>
    rw [distance_of_visit? hx']
    obtain ⟨hsound', -, hlevel'', hnearest⟩ := hsound.meetAll_induction
      (P := fun st ↦ Level x.distance st ∧ NearestFirst st) hx' (expands_of_waits hwaits hopen)
      (fun v hv ↦ hv) ⟨hlevel', h.nearestFirst⟩
      fun st v hsound _ ⟨hlevel, hnearest⟩ hfresh _ ↦
        ⟨hlevel.discover_enter hsound hfresh, hnearest.discover_enter hsound hlevel hfresh⟩
    exact ⟨hsound', ⟨_, hlevel''⟩, hnearest⟩

/-- Whole runs keep the order. -/
theorem Ordered.run (h : Ordered g o s st) : Ordered g o s (st.run g o s) :=
  run_induction h fun _ _ _ h hpop ↦ h.expand hpop

/-! ### Paths -/

/-- Climbing goes through visited nodes only, so it is the same for a search that kept their visits
and made others. -/
theorem Sound.climb_eq_of_visit? {x : Visit} {r r' : Result} (h : Sound g o s st)
    (hr : r.visits = st.visits) (hr' : ∀ w y, r.visit? w = some y → r'.visit? w = some y)
    (hv : st.visit? v = some x) (hd : x.distance = d) (below : List Nat) :
    r'.climb d v below = r.climb d v below := by
  induction d generalizing v x below with
  | zero => rfl
  | succ d ih =>
    have hrv : r.visit? v = some x := by rwa [Result.visit?, hr]
    obtain ⟨y, hy, hxy, -⟩ := h.visit_via v x hv (h.ne_start_of_distance_eq_succ hv hd)
    rw [Result.climb, Result.climb, hrv, hr' v x hrv]
    exact ih hy (by omega) (v :: below)

end State

end Search

/-! ### Searches from every start -/

namespace CallGraph

open Search

variable {g : CallGraph} {o o' : Options} {s v d k : Nat}

/-- **A search finds the nearest destinations first**, under a cap or not. -/
theorem pairwise_destinations_search (g : CallGraph) (o : Options) (s : Nat) :
    (g.search o s).destinations.Pairwise fun v w ↦ ∃ d e,
      (g.search o s).distance? v = some d ∧ (g.search o s).distance? w = some e ∧ d ≤ e := by
  obtain ⟨-, heq⟩ | ⟨-, -, heq⟩ | ⟨hs, -, heq⟩ := g.search_cases s
  · rw [heq]
    exact .nil
  · rw [heq]
    exact List.pairwise_singleton ..
  · rw [heq]
    have hordered := (State.ordered_initial (o := o) hs).run
    refine List.Pairwise.imp_of_mem (fun {v w} hv hw hle ↦ ?_) hordered.nearestFirst
    obtain ⟨⟨x, hx⟩, -⟩ := hordered.sound.found v hv
    obtain ⟨⟨y, hy⟩, -⟩ := hordered.sound.found w hw
    rw [State.distance_of_visit? hx, State.distance_of_visit? hy] at hle
    exact ⟨x.distance, y.distance, congrArg (Option.map Visit.distance) hx,
      congrArg (Option.map Visit.distance) hy, hle⟩

/-- **A search under a cap** has the first destinations of the search without it, and no visit that
the other has not. -/
theorem search_of_cap (hcap : o.cap = some k) (hcap' : o'.cap = none)
    (ho : o.excludeInteriorSources = o'.excludeInteriorSources) (s : Nat) :
    (g.search o s).destinations = (g.search o' s).destinations.take k ∧
      ∀ v x, (g.search o s).visit? v = some x → (g.search o' s).visit? v = some x := by
  have hpos := Options.one_le_of_cap hcap
  obtain ⟨-, heq⟩ | ⟨-, -, heq⟩ | ⟨-, -, heq⟩ := g.search_cases s
  · rw [heq, heq]
    exact ⟨List.take_nil.symm, fun _ _ hv ↦ hv⟩
  · rw [heq, heq]
    exact ⟨(List.take_of_length_le hpos).symm, fun _ _ hv ↦ hv⟩
  · rw [heq, heq]
    have hcut : State.CutAt k ((State.initial g s).run g o s) ((State.initial g s).run g o' s) :=
      State.cutAt_run hcap hcap' ho hpos
    exact ⟨hcut.found_eq, hcut.extends.visit⟩

/-- A result that has all visits of a search gives the same paths to them. -/
theorem pathTo_eq_of_visit? {r : Result}
    (hr : ∀ w y, (g.search o s).visit? w = some y → r.visit? w = some y)
    (hd : (g.search o s).distance? v = some d) :
    (g.search o s).distance? v = r.distance? v ∧ (g.search o s).pathTo v = r.pathTo v := by
  obtain ⟨st, x, hsound, hvisits, hv, hx⟩ := exists_sound_visit hd
  have hrv : r.visit? v = some x := hr v x (by rwa [Result.visit?, hvisits])
  have hrd : r.distance? v = some d := by
    rw [Result.distance?, hrv, Option.map_some, hx]
  refine ⟨hd.trans hrd.symm, ?_⟩
  rw [Result.pathTo, Result.pathTo, hd, hrd, Option.map_some, Option.map_some,
    hsound.climb_eq_of_visit? hvisits hr hv hx]

/-- **A cap keeps the nearest destinations.** Without a cap, the destinations stand in order of
distance. A cap of `k` leaves the first `k` of them, and at least one; if only one is asked for, it
is the first. Distances and paths of the destinations that are left do not depend on the cap. -/
theorem search_nearest_under_cap (g : CallGraph) (o : Options) (s : Nat) :
    let all := g.search (.uncapped o.excludeInteriorSources) s
    all.destinations.Pairwise (fun v w ↦ ∃ d e,
      all.distance? v = some d ∧ all.distance? w = some e ∧ d ≤ e) ∧
    (∀ k, o.maxDestinations = some k → o.returnMultiple = true →
      (g.search o s).destinations = all.destinations.take (max k 1)) ∧
    (o.returnMultiple = false → (g.search o s).destinations = all.destinations.take 1) ∧
    ∀ v ∈ (g.search o s).destinations,
      (g.search o s).distance? v = all.distance? v ∧ (g.search o s).pathTo v = all.pathTo v := by
  intro all
  have huncapped : (Options.uncapped o.excludeInteriorSources).cap = none := rfl
  refine ⟨pairwise_destinations_search .., fun k hmax hmulti ↦ ?_, fun hsingle ↦ ?_, fun v hv ↦ ?_⟩
  · have hcap : o.cap = some (max k 1) := by
      rw [Options.cap, if_pos hmulti, hmax]
      rfl
    exact (search_of_cap hcap huncapped rfl s).1
  · have hcap : o.cap = some 1 := by
      rw [Options.cap, if_neg (by simp [hsingle])]
    exact (search_of_cap hcap huncapped rfl s).1
  · obtain ⟨d, hd⟩ := exists_distance?_of_mem_destinations hv
    refine pathTo_eq_of_visit? (fun w y hw ↦ ?_) hd
    cases hcap : o.cap with
    | some k => exact (search_of_cap hcap huncapped rfl s).2 w y hw
    | none => rwa [Options.eq_uncapped_of_cap hcap] at hw

/-- A hazard with an entry among its callers, and two more behind the other caller. -/
def fork : CallGraph where
  nodes := #[{ callers := [1, 2], isHazard := true }, { callers := [3, 4] }, { isEntry := true },
    { isEntry := true }, { isEntry := true }]
  callers_lt := by decide

/-- A cap of two cuts the callers of one method apart. The destination that is left of them has the
path that it has without a cap. -/
theorem search_nearest_under_cap_fork :
    (fork.search (.uncapped true) 0).destinations = [2, 3, 4] ∧
    (fork.search { maxDestinations := some 2 } 0).destinations = [2, 3] ∧
    (fork.search { maxDestinations := some 2 } 0).pathTo 3 = some [0, 1, 3] ∧
    (fork.search { returnMultiple := false } 0).destinations = [2] := by
  have hall : (fork.search (.uncapped true) 0).destinations = [2, 3, 4] := by decide +kernel
  have hpath : (fork.search (.uncapped true) 0).pathTo 3 = some [0, 1, 3] := by decide +kernel
  obtain ⟨-, htwo, -, hpaths⟩ := search_nearest_under_cap fork { maxDestinations := some 2 } 0
  obtain ⟨-, -, hone, -⟩ := search_nearest_under_cap fork { returnMultiple := false } 0
  have htwo' : (fork.search { maxDestinations := some 2 } 0).destinations = [2, 3] :=
    (htwo 2 rfl rfl).trans (congrArg (List.take 2) hall)
  exact ⟨hall, htwo', (hpaths 3 (by rw [htwo']; decide)).2.trans hpath,
    (hone rfl).trans (congrArg (List.take 1) hall)⟩

end CallGraph

end HazardTrace
