import HazardTrace.Proofs.Search.Paths
import Mathlib.Order.Bounds.Basic

/-!
# Searches are exact

A search without a cap discovers exactly what admissible walks lead to, and at the least distance
(`search_exact`). `Sound` gives one half: the path of a visited node is such a walk. The other half
needs three more invariants.

* `Level l`: visits reach at most one call beyond level `l`, and what waits is no nearer than `l`
  and stands in order of distance. This is the order of a breadth-first search; it holds under a cap
  too.
* `Complete`: a visited method that the search expands waits, or all callers behind it have been
  visited, at most one call farther. The bound on the distance of a caller that was visited
  *earlier* is what `Level` is for. Nothing is said of methods that the search does not expand, so a
  method that was discovered and then dropped hides no other way.
* `Collected`: every visited destination other than the start has been collected.

Each of them has a lemma for one discovery (`discover_enter`). In the middle of an expansion
`Complete` does not hold of the node whose callers are being met, so it has a parameter for the one
that is busy: taking a node off the queue makes it busy (`Complete.pop`), and once all its callers
have been met it is excused no longer (`Complete.settle`). `Exact` puts all four together, and
`Exact.expand` is the step of a run.

When nothing waits any more, `Complete` carries a visit along any admissible walk, call by call,
from the near end of the walk to the far one (`Complete.visit_of_walk`).
-/

namespace HazardTrace

open CallGraph

namespace Search

namespace State

variable {g : CallGraph} {o : Options} {s u v w l : Nat} {st : State} {vs : List Nat}

@[simp]
theorem distance_enter (g : CallGraph) (o : Options) (st : State) (v w : Nat) :
    (st.enter g o v).distance w = st.distance w := by
  simp [distance]

/-- Distances of discovered nodes are final. -/
theorem distance_discover_of_visit? {x : Visit} (hfresh : st.visits[v]? = some none)
    (hw : st.visit? w = some x) (u d : Nat) : (st.discover u d v).distance w = st.distance w := by
  rw [distance_of_visit? hw, distance_of_visit? (visit?_discover_of_visit? hfresh hw u d)]

theorem distance_discover (hfresh : st.visits[v]? = some none) (u d : Nat) :
    (st.discover u d v).distance v = d :=
  distance_of_visit? (x := ⟨u, d⟩) (by rw [visit?_discover hfresh, if_pos rfl])

/-- At first nothing else has been visited. -/
theorem eq_start_of_visit?_initial {x : Visit} (h : (initial g s).visit? v = some x) : v = s := by
  by_contra hne
  unfold visit? initial at h
  rw [Array.getElem?_setIfInBounds_ne (Ne.symm hne), Array.getElem?_replicate] at h
  split at h <;> cases h

/-! ### The order of the queue -/

/-- The queue of a breadth-first search at level `l`. -/
structure Level (l : Nat) (st : State) : Prop where
  visit_le : ∀ v x, st.visit? v = some x → x.distance ≤ l + 1
  le_waiting : ∀ w ∈ st.waiting.toList, l ≤ st.distance w
  sorted : st.waiting.toList.Pairwise fun a b ↦ st.distance a ≤ st.distance b

/-- The start is at level zero. -/
theorem level_initial (g : CallGraph) (s : Nat) : Level 0 (initial g s) where
  visit_le v x hv := by
    unfold visit? initial at hv
    rw [Array.getElem?_setIfInBounds] at hv
    split at hv
    · split at hv
      · obtain rfl := Option.some.inj hv
        exact Nat.zero_le _
      · cases hv
    · rw [Array.getElem?_replicate] at hv
      split at hv <;> cases hv
  le_waiting _ _ := Nat.zero_le _
  sorted := by simp [initial]

/-- A discovery at the next level keeps the order of the queue. -/
theorem Level.discover_enter (h : Level l st) (hsound : Sound g o s st)
    (hfresh : st.visits[v]? = some none) :
    Level l ((st.discover u (l + 1) v).enter g o v) := by
  have hdist : ∀ w ∈ st.waiting.toList, (st.discover u (l + 1) v).distance w = st.distance w := by
    intro w hw
    obtain ⟨⟨x, hx⟩, -⟩ := hsound.waiting w hw
    exact distance_discover_of_visit? hfresh hx u (l + 1)
  have hdisc : Level l (st.discover u (l + 1) v) := by
    refine ⟨fun w x hw ↦ ?_, fun w hw ↦ ?_, ?_⟩
    · rw [visit?_discover hfresh] at hw
      split at hw
      · obtain rfl := Option.some.inj hw
        exact Nat.le_refl _
      · exact h.visit_le w x hw
    · rw [hdist w hw]
      exact h.le_waiting w hw
    · refine h.sorted.imp_of_mem fun ha hb hab ↦ ?_
      rwa [hdist _ ha, hdist _ hb]
  rcases enter_cases g o (st.discover u (l + 1) v) v with ⟨-, heq⟩ | ⟨-, heq⟩ | ⟨-, -, heq⟩
  · -- the new node goes to the end of the queue, and nothing that waits is farther
    have hv := distance_discover hfresh u (l + 1)
    rw [heq]
    refine ⟨hdisc.visit_le, fun w hw ↦ ?_, ?_⟩
    · rw [Worklist.toList_push, List.mem_append, List.mem_singleton] at hw
      rcases hw with hw | rfl
      · exact hdisc.le_waiting w hw
      · show l ≤ (st.discover u (l + 1) w).distance w
        omega
    · rw [Worklist.toList_push]
      refine List.pairwise_append.2 ⟨hdisc.sorted, by simp, fun a ha b hb ↦ ?_⟩
      obtain rfl := List.mem_singleton.1 hb
      obtain ⟨⟨x, hx⟩, -⟩ := hsound.waiting a ha
      show (st.discover u (l + 1) b).distance a ≤ (st.discover u (l + 1) b).distance b
      rw [hdist a ha, hv, distance_of_visit? hx]
      exact h.visit_le a x hx
  · rw [heq]
    exact ⟨hdisc.visit_le, hdisc.le_waiting, hdisc.sorted⟩
  · rwa [heq]

/-- Taking the next node off the queue moves the level up to that node. -/
theorem Level.pop {x : Visit} {rest : Worklist Nat} (h : Level l st)
    (hpop : st.waiting.pop? = some (u, rest)) (hu : st.visit? u = some x) :
    Level x.distance { st with waiting := rest } := by
  have hlist := Worklist.toList_of_pop? hpop
  have hux := distance_of_visit? hu
  have hl : l ≤ x.distance := by
    rw [← hux]
    exact h.le_waiting u (by rw [hlist]; exact List.mem_cons_self ..)
  have hsorted := h.sorted
  rw [hlist, List.pairwise_cons] at hsorted
  refine ⟨fun v y hv ↦ ?_, fun w hw ↦ ?_, hsorted.2⟩
  · have := h.visit_le v y hv
    omega
  · rw [← hux]
    exact hsorted.1 w hw

/-! ### Nothing is missed -/

/-- All callers that the search meets behind `u` have been visited, at most one call farther. -/
def CallersVisited (g : CallGraph) (st : State) (u : Nat) : Prop :=
  ∀ v, g.Follows u v → ∃ y, st.visit? v = some y ∧ y.distance ≤ st.distance u + 1

/-- Every visited node that the search expands waits or has its callers visited. Only the node that
is `busy`, if there is one, may be excused. -/
def Complete (g : CallGraph) (o : Options) (s : Nat) (busy : Option Nat) (st : State) : Prop :=
  ∀ u x, st.visit? u = some x → g.Expands o s u →
    busy = some u ∨ u ∈ st.waiting.toList ∨ CallersVisited g st u

/-- The start waits. -/
theorem complete_initial (g : CallGraph) (o : Options) (s : Nat) :
    Complete g o s none (initial g s) := by
  intro u x hu _
  refine .inr (.inl ?_)
  simp [initial, eq_start_of_visit?_initial hu]

/-- Callers that have been visited stay so, at the same distances. -/
theorem CallersVisited.discover_enter {x : Visit} (h : CallersVisited g st w)
    (hfresh : st.visits[v]? = some none) (hw : st.visit? w = some x) (u d : Nat) :
    CallersVisited g ((st.discover u d v).enter g o v) w := by
  intro v' hv'
  obtain ⟨y, hy, hle⟩ := h v' hv'
  refine ⟨y, ?_, ?_⟩
  · rw [visit?_enter, visit?_discover_of_visit? hfresh hy]
  · rwa [distance_enter, distance_discover_of_visit? hfresh hw]

/-- What waits goes on waiting. -/
theorem subset_waiting_enter (g : CallGraph) (o : Options) (st : State) (v : Nat) :
    st.waiting.toList ⊆ (st.enter g o v).waiting.toList := by
  rcases enter_cases g o st v with ⟨-, heq⟩ | ⟨-, heq⟩ | ⟨-, -, heq⟩
  · rw [heq]
    exact fun a ha ↦ by simp [ha]
  · rw [heq]
    exact fun a ha ↦ ha
  · rw [heq]
    exact fun a ha ↦ ha

theorem mem_waiting_enter (h : g.Waits o v) : v ∈ (st.enter g o v).waiting.toList := by
  rcases enter_cases g o st v with ⟨-, heq⟩ | ⟨hdest, -⟩ | ⟨hnot, -⟩
  · rw [heq]
    simp
  · have hentry := h.not_entry
    rw [hdest.isEntry] at hentry
    cases hentry
  · exact absurd h hnot

/-- A discovery keeps `Complete`: the new node waits if the search is to expand it. -/
theorem Complete.discover_enter {busy : Option Nat} (h : Complete g o s busy st)
    (hsound : Sound g o s st) (hfresh : st.visits[v]? = some none) (u d : Nat) :
    Complete g o s busy ((st.discover u d v).enter g o v) := by
  intro w x hw hexp
  rw [visit?_enter, visit?_discover hfresh] at hw
  split at hw
  next hwv =>
    subst hwv
    exact .inr (.inl (mem_waiting_enter (hexp.waits (hsound.ne_start_of_fresh hfresh))))
  · rcases h w x hw hexp with hbusy | hwait | hdone
    · exact .inl hbusy
    · exact .inr (.inl (subset_waiting_enter g o (st.discover u d v) v hwait))
    · exact .inr (.inr (hdone.discover_enter hfresh hw u d))

/-- Every visited destination other than the start has been collected. -/
def Collected (g : CallGraph) (s : Nat) (st : State) : Prop :=
  ∀ v x, st.visit? v = some x → v ≠ s → g.IsDestination v → v ∈ st.found.toList

theorem collected_initial (g : CallGraph) (s : Nat) : Collected g s (initial g s) := by
  intro v x hv hne _
  exact absurd (eq_start_of_visit?_initial hv) hne

/-- A destination is collected when it is discovered. -/
theorem Collected.discover_enter (h : Collected g s st) (hfresh : st.visits[v]? = some none)
    (u d : Nat) : Collected g s ((st.discover u d v).enter g o v) := by
  intro w x hw hne hdest
  rw [visit?_enter, visit?_discover hfresh] at hw
  rcases enter_cases g o (st.discover u d v) v with ⟨hwaits, heq⟩ | ⟨-, heq⟩ | ⟨-, hnot, heq⟩
  · split at hw
    next hwv =>
      subst hwv
      have hentry := hwaits.not_entry
      rw [hdest.isEntry] at hentry
      cases hentry
    · rw [heq]
      exact h w x hw hne hdest
  · rw [heq, Array.toList_push]
    split at hw
    next hwv => simp [hwv]
    · exact List.mem_append_left _ (h w x hw hne hdest)
  · split at hw
    next hwv => exact absurd (hwv ▸ hdest) hnot
    · rw [heq]
      exact h w x hw hne hdest

theorem isFull_eq_false (hcap : o.cap = none) (st : State) : st.isFull o = false := by
  simp [isFull, hcap]

theorem visit?_meet_of_visit? {x : Visit} {d : Nat} (hw : st.visit? w = some x) :
    (st.meet g o u d v).visit? w = some x := by
  unfold meet
  split
  next hfresh =>
    split
    · exact hw
    · rw [visit?_enter, visit?_discover_of_visit? hfresh hw]
  · exact hw

/-- Meeting callers leaves all visits as they are. -/
theorem visit?_meetAll_of_visit? {x : Visit} {d : Nat} (hw : st.visit? w = some x) :
    (meetAll g o u d vs st).visit? w = some x := by
  refine meetAll_induction (P := fun st ↦ st.visit? w = some x) hw ?_
  intro st v _ hw hfresh _
  rw [visit?_enter, visit?_discover_of_visit? hfresh hw]

/-- A caller that has been met has been visited, unless the call is known to be harmless. -/
theorem exists_visit?_meet {d : Nat} (hv : v < st.visits.size) (hsafe : g.isSafeEdge u v = false) :
    ∃ y, (st.meet g o u d v).visit? v = some y := by
  cases hvisit : st.visit? v with
  | some x => exact ⟨x, visit?_meet_of_visit? hvisit⟩
  | none =>
    have hfresh := fresh_of_visit?_eq_none hv hvisit
    refine ⟨⟨u, d⟩, ?_⟩
    simp only [meet, hfresh, hsafe]
    rw [if_neg Bool.false_ne_true, visit?_enter, visit?_discover hfresh, if_pos rfl]

theorem size_visits_meet {d : Nat} : (st.meet g o u d v).visits.size = st.visits.size := by
  unfold meet
  split
  · split
    · rfl
    · simp [discover]
  · rfl

/-- Without a cap, all callers are met. -/
theorem exists_visit?_meetAll {d : Nat} (hcap : o.cap = none) (hmem : v ∈ vs)
    (hv : v < st.visits.size) (hsafe : g.isSafeEdge u v = false) :
    ∃ y, (meetAll g o u d vs st).visit? v = some y := by
  induction vs generalizing st with
  | nil => cases hmem
  | cons a as ih =>
    rw [meetAll]
    rw [isFull_eq_false hcap, if_neg Bool.false_ne_true]
    rcases List.mem_cons.1 hmem with rfl | hmem
    · obtain ⟨y, hy⟩ := exists_visit?_meet (o := o) (d := d) hv hsafe
      exact ⟨y, visit?_meetAll_of_visit? hy⟩
    · exact ih hmem (by rwa [size_visits_meet])

/-- What holds between two expansions of a search without a cap. -/
structure Exact (g : CallGraph) (o : Options) (s : Nat) (st : State) : Prop where
  sound : Sound g o s st
  level : ∃ l, Level l st
  complete : Complete g o s none st
  collected : Collected g s st

/-- The node that is taken off the queue does not wait any more, and is busy. -/
theorem Complete.pop {rest : Worklist Nat} (h : Complete g o s none st)
    (hpop : st.waiting.pop? = some (u, rest)) :
    Complete g o s (some u) { st with waiting := rest } := by
  intro w x hw hexp
  rcases h w x hw hexp with hbusy | hwait | hdone
  · cases hbusy
  · rw [Worklist.toList_of_pop? hpop, List.mem_cons] at hwait
    rcases hwait with rfl | hwait
    · exact .inl rfl
    · exact .inr (.inl hwait)
  · exact .inr (.inr hdone)

/-- The busy node is excused no longer once its callers have been visited, or if there was no need
to expand it. -/
theorem Complete.settle (h : Complete g o s (some u) st)
    (hu : g.Expands o s u → CallersVisited g st u) : Complete g o s none st := by
  intro w x hw hexp
  rcases h w x hw hexp with hbusy | hwait | hdone
  · obtain rfl := Option.some.inj hbusy
    exact .inr (.inr (hu hexp))
  · exact .inr (.inl hwait)
  · exact .inr (.inr hdone)

/-- **One expansion** of a search without a cap keeps all its invariants. -/
theorem Exact.expand {rest : Worklist Nat} (hcap : o.cap = none) (h : Exact g o s st)
    (hpop : st.waiting.pop? = some (u, rest)) :
    Exact g o s (({ st with waiting := rest } : State).expand g o s u) := by
  obtain ⟨⟨x, hx⟩, hwaits⟩ := h.sound.of_pop? hpop
  obtain ⟨l, hlevel⟩ := h.level
  have hsound := h.sound.pop hpop
  have hlevel' := hlevel.pop hpop hx
  have hcomplete := h.complete.pop hpop
  have hx' : ({ st with waiting := rest } : State).visit? u = some x := hx
  unfold State.expand
  split
  next hclosed =>
    refine ⟨hsound, ⟨_, hlevel'⟩, hcomplete.settle fun hexp ↦ ?_, h.collected⟩
    -- a node that is passed over is not one that the search expands
    simp only [Bool.or_eq_true, Bool.and_eq_true, bne_iff_ne] at hclosed
    rcases hclosed with ⟨hne, hvirtual⟩ | hsafe
    · rw [(hexp.isInterior hne).not_virtual] at hvirtual
      cases hvirtual
    · rw [hexp.not_safe] at hsafe
      cases hsafe
  next hopen =>
    have hexp := expands_of_waits hwaits hopen
    rw [distance_of_visit? hx']
    obtain ⟨hsound', hx'', hlevel'', hcomplete', hcollected⟩ := hsound.meetAll_induction
      (P := fun st ↦ Level x.distance st ∧ Complete g o s (some u) st ∧ Collected g s st) hx' hexp
      (fun v hv ↦ hv) ⟨hlevel', hcomplete, h.collected⟩
      fun st v hsound _ ⟨hlevel, hcomplete, hcollected⟩ hfresh _ ↦
        ⟨hlevel.discover_enter hsound hfresh, hcomplete.discover_enter hsound hfresh _ _,
          hcollected.discover_enter hfresh _ _⟩
    refine ⟨hsound', ⟨_, hlevel''⟩, hcomplete'.settle fun _ v hv ↦ ?_, hcollected⟩
    have hlt : v < ({ st with waiting := rest } : State).visits.size := by
      rw [hsound.size_visits]
      exact lt_of_mem_callers hv.1
    obtain ⟨y, hy⟩ := exists_visit?_meetAll (g := g) (u := u) (d := x.distance + 1) hcap hv.1 hlt hv.2
    refine ⟨y, hy, ?_⟩
    rw [distance_of_visit? hx'']
    exact hlevel''.visit_le v y hy

/-- **The invariants hold at the end of a search without a cap.** -/
theorem exact_run (hcap : o.cap = none) (hs : s < g.size) :
    Exact g o s ((initial g s).run g o s) :=
  run_induction
    ⟨sound_initial hs, ⟨0, level_initial g s⟩, complete_initial g o s, collected_initial g s⟩
    fun _ _ _ h hpop ↦ h.expand hcap hpop

/-- A search without a cap goes on until nothing waits. -/
theorem toList_waiting_run (hcap : o.cap = none) (st : State) :
    (st.run g o s).waiting.toList = [] := by
  induction st using run.induct g o s with
  | case1 st hpop =>
    rw [run_of_pop?_eq_none hpop]
    exact Worklist.toList_of_pop?_none hpop
  | case2 st u rest hpop next hfull =>
    rw [isFull_eq_false hcap] at hfull
    cases hfull
  | case3 st u rest hpop next hfull ih =>
    rw [run_of_pop?_eq_some hpop, if_neg hfull]
    exact ih

/-- When nothing waits, an admissible walk leads to a visited node, and is no shorter than its
distance. -/
theorem Complete.visit_of_walk {walk : List Nat} (h : Complete g o s none st)
    (hsound : Sound g o s st) (hempty : st.waiting.toList = [])
    (hwalk : g.AdmissibleWalk o s v walk) :
    ∃ x, st.visit? v = some x ∧ x.distance + 1 ≤ walk.length := by
  -- along the walk, the end of each initial part is visited; the last call is added behind
  induction walk using List.reverseRecOn generalizing v with
  | nil => exact absurd rfl hwalk.ne_nil
  | append_singleton walk a ih =>
    obtain rfl : a = v := by simpa using hwalk.last
    cases hu : walk.getLast? with
    | none =>
      obtain rfl := List.getLast?_eq_none_iff.1 hu
      obtain rfl : a = s := by simpa using hwalk.head
      exact ⟨_, hsound.visit_start, by simp⟩
    | some u =>
      obtain ⟨x, hx, hle⟩ := ih (hwalk.of_concat hu)
      rcases h u x hx (hwalk.expands_of_concat hu) with hbusy | hwait | hdone
      · cases hbusy
      · rw [hempty] at hwait
        cases hwait
      · obtain ⟨y, hy, hyx⟩ := hdone a (hwalk.follows_of_concat hu)
        rw [distance_of_visit? hx] at hyx
        refine ⟨y, hy, ?_⟩
        rw [List.length_append, List.length_singleton]
        omega

end State

/-- All destinations are asked for. -/
theorem Options.cap_eq_none {o : Options} (hmax : o.maxDestinations = none)
    (hmulti : o.returnMultiple = true) : o.cap = none := by
  simp [cap, hmax, hmulti]

end Search

namespace CallGraph

open Search

variable {g : CallGraph} {o : Options} {s : Nat}

/-- A search without a cap visits the end of every admissible walk, at a distance that the walk does
not undercut. -/
theorem distance?_search_le_of_walk {v : Nat} {walk : List Nat} (hcap : o.cap = none)
    (hs : s < g.size) (hentry : g.isEntry s = false) (hwalk : g.AdmissibleWalk o s v walk) :
    ∃ d, (g.search o s).distance? v = some d ∧ d + 1 ≤ walk.length := by
  have hexact := State.exact_run hcap hs
  obtain ⟨x, hx, hle⟩ := hexact.complete.visit_of_walk hexact.sound
    (State.toList_waiting_run hcap _) hwalk
  rw [search_eq_ofState hs hentry]
  exact ⟨x.distance, congrArg (Option.map Visit.distance) hx, hle⟩

/-- A search without a cap collects every destination to which an admissible walk leads. -/
theorem mem_destinations_of_walk {v : Nat} {walk : List Nat} (hcap : o.cap = none) (hs : s < g.size)
    (hentry : g.isEntry s = false) (hne : v ≠ s) (hdest : g.IsDestination v)
    (hwalk : g.AdmissibleWalk o s v walk) : v ∈ (g.search o s).destinations := by
  obtain ⟨d, hd, -⟩ := distance?_search_le_of_walk hcap hs hentry hwalk
  rw [search_eq_ofState hs hentry] at hd ⊢
  obtain ⟨x, hx, -⟩ := Option.map_eq_some_iff.1 hd
  exact (State.exact_run hcap hs).collected v x hx hne hdest

/-- A search without a cap gives the shortest paths. -/
theorem length_le_of_walk {v : Nat} {path walk : List Nat} (hcap : o.cap = none) (hs : s < g.size)
    (hentry : g.isEntry s = false) (hpath : (g.search o s).pathTo v = some path)
    (hwalk : g.AdmissibleWalk o s v walk) : path.length ≤ walk.length := by
  obtain ⟨d, hd, hle⟩ := distance?_search_le_of_walk hcap hs hentry hwalk
  obtain ⟨path', hpath', -, hlen, -⟩ := pathTo_search hd
  obtain rfl := Option.some.inj (hpath.symm.trans hpath')
  omega

/-- **A search without a cap is exact.** Its distances are the least lengths of admissible walks,
and its destinations are the entries, other than safe ones, at the end of such walks.

A distance is below the number of methods, so no distance can be taken for the mark of a method that
was not reached, as long as the methods can be numbered by machine words. -/
theorem search_exact (hmax : o.maxDestinations = none) (hmulti : o.returnMultiple = true)
    (hs : s < g.size) (hentry : g.isEntry s = false) :
    (∀ v d, (g.search o s).distance? v = some d ↔
      IsLeast {k | ∃ walk, g.AdmissibleWalk o s v walk ∧ walk.length = k + 1} d) ∧
    (∀ v, (g.search o s).distance? v = none ↔ ∀ walk, ¬ g.AdmissibleWalk o s v walk) ∧
    (∀ v d, (g.search o s).distance? v = some d → d < g.size) ∧
    (g.search o s).destinations.Nodup ∧
    ∀ v, v ∈ (g.search o s).destinations ↔
      v ≠ s ∧ g.isEntry v = true ∧ g.isSafe v = false ∧ ∃ walk, g.AdmissibleWalk o s v walk := by
  have hcap := Options.cap_eq_none hmax hmulti
  have hleast : ∀ v d, (g.search o s).distance? v = some d →
      IsLeast {k | ∃ walk, g.AdmissibleWalk o s v walk ∧ walk.length = k + 1} d := by
    intro v d hd
    obtain ⟨path, -, hwalk, hlen, -⟩ := pathTo_search hd
    refine ⟨⟨path, hwalk, hlen⟩, ?_⟩
    rintro k ⟨walk, hwalk', hk⟩
    obtain ⟨d', hd', hle⟩ := distance?_search_le_of_walk hcap hs hentry hwalk'
    obtain rfl := Option.some.inj (hd.symm.trans hd')
    omega
  refine ⟨fun v d ↦ ⟨hleast v d, fun h ↦ ?_⟩, fun v ↦ ⟨fun hnone walk hwalk ↦ ?_, fun h ↦ ?_⟩,
    fun v d hd ↦ ?_, nodup_destinations_search g o s, fun v ↦ ⟨fun hv ↦ ?_, ?_⟩⟩
  · obtain ⟨walk, hwalk, -⟩ := h.1
    obtain ⟨d', hd', -⟩ := distance?_search_le_of_walk hcap hs hentry hwalk
    rw [hd', (hleast v d' hd').unique h]
  · obtain ⟨d, hd, -⟩ := distance?_search_le_of_walk hcap hs hentry hwalk
    rw [hnone] at hd
    cases hd
  · cases hd : (g.search o s).distance? v with
    | none => rfl
    | some d =>
      obtain ⟨path, -, hwalk, -⟩ := pathTo_search hd
      exact absurd hwalk (h path)
  · rw [search_eq_ofState hs hentry] at hd
    obtain ⟨x, hx, rfl⟩ := Option.map_eq_some_iff.1 hd
    exact (State.exact_run hcap hs).sound.distance_lt hx
  · obtain ⟨hne, hdest⟩ := isDestination_of_mem_destinations hentry hv
    obtain ⟨d, hd⟩ := exists_distance?_of_mem_destinations hv
    obtain ⟨path, -, hwalk, -⟩ := pathTo_search hd
    exact ⟨hne, hdest.isEntry, hdest.not_safe, path, hwalk⟩
  · rintro ⟨hne, hentry', hsafe, walk, hwalk⟩
    exact mem_destinations_of_walk hcap hs hentry hne ⟨hentry', hsafe⟩ hwalk

/-- An entry that calls a hazard harmlessly, and calls it again through another method. -/
def detour : CallGraph where
  nodes := #[{ callers := [1, 2], safeCallers := [1], isHazard := true }, { isEntry := true },
    { callers := [1] }]
  callers_lt := by decide

/-- The harmless call is not followed, and does not hide the other way. -/
theorem search_exact_detour :
    detour.isEntry 0 = false ∧
      1 ∈ (detour.search { maxDestinations := none } 0).destinations ∧
      (detour.search { maxDestinations := none } 0).distance? 1 = some 2 := by
  obtain ⟨hdist, -, -, -, hdest⟩ :=
    search_exact (g := detour) (o := { maxDestinations := none }) (s := 0) rfl rfl (by decide)
      (by decide)
  have hwalk : detour.AdmissibleWalk { maxDestinations := none } 0 1 [0, 2, 1] := by
    refine ⟨rfl, rfl, ?_, fun _ ↦ by decide, ?_⟩
    · simp only [List.isChain_cons_cons, List.isChain_singleton, Follows]
      decide
    · intro w hw
      obtain rfl : w = 2 := by simpa using hw
      exact ⟨by decide, by decide, by decide, by decide⟩
  refine ⟨by decide, (hdest 1).2 ⟨by decide, by decide, by decide, _, hwalk⟩,
    (hdist 1 2).2 ⟨⟨_, hwalk, rfl⟩, ?_⟩⟩
  rintro k ⟨walk, hwalk, hlen⟩
  by_contra hk
  have hk' : k = 0 ∨ k = 1 := by omega
  rcases hk' with rfl | rfl
  · obtain ⟨a, rfl⟩ := List.length_eq_one_iff.1 hlen
    have hhead := hwalk.head
    have hlast := hwalk.last
    simp_all
  · obtain ⟨a, b, rfl⟩ := List.length_eq_two.1 hlen
    obtain rfl : a = 0 := by simpa using hwalk.head
    obtain rfl : b = 1 := by simpa using hwalk.last
    have hfollows := hwalk.follows
    simp only [List.isChain_cons_cons, List.isChain_singleton, Follows] at hfollows
    revert hfollows
    decide

end CallGraph

end HazardTrace
