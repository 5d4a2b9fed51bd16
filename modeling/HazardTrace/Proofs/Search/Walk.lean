import HazardTrace.Search
import Mathlib.Data.List.Chain

/-!
# Walks of a search

The relation that a search is measured against, stated on the graph alone. A search from `s` follows
calls upwards, from callee to caller, over edges that are not known to be harmless (`Follows`). What
it walks *through* has to be `IsInterior`: neither safe nor an entry nor virtual, and no hazard when
interior hazards are excluded. Nothing is asked of the far end of a walk, and of the start only that
it is not safe, and that only if the walk leaves it.

`AdmissibleWalk g o s v walk` says that `walk` is such a walk from `s` to `v`, both included; its
length in calls is `walk.length - 1`. A walk is taken apart at its **far end**
(`AdmissibleWalk.of_concat`, `AdmissibleWalk.concat`), because that is how a search makes it: the
last call is the latest discovery.

Around walks there are three properties of methods that a search distinguishes when it meets them.

* `Expands`: its callers are met. The start is held to less than the methods that are discovered
  later.
* `Waits`: it is put in the queue. Whether it is virtual is asked only when its turn comes.
* `IsDestination`: it is collected.

`concat` extends a walk behind a method that the search expands. It needs the start not to stand
further up on the walk, as the start may be of a kind that must not be walked through.
-/

namespace HazardTrace

/-- Every member of a chain but the first has one before it. -/
theorem eq_head_or_exists_rel {β : Type} {R : β → β → Prop} {l : List β} (h : l.IsChain R) {a : β}
    (ha : a ∈ l) : l.head? = some a ∨ ∃ b, R b a := by
  induction l with
  | nil => cases ha
  | cons b l ih =>
    rcases List.mem_cons.1 ha with rfl | ha
    · exact .inl rfl
    · refine .inr ?_
      rcases ih h.tail ha with hhead | hrel
      · exact ⟨b, (List.isChain_cons.1 h).1 a hhead⟩
      · exact hrel

namespace CallGraph

open Search

variable {g : CallGraph} {o : Options} {s u v : Nat} {walk : List Nat}

/-- A search goes from `u` to its caller `v`: the call is not known to be harmless. -/
def Follows (g : CallGraph) (u v : Nat) : Prop :=
  v ∈ g.callers u ∧ g.isSafeEdge u v = false

/-- A method that a search walks through. -/
structure IsInterior (g : CallGraph) (o : Options) (v : Nat) : Prop where
  not_safe : g.isSafe v = false
  not_entry : g.isEntry v = false
  not_virtual : g.isVirtual v = false
  not_hazard : o.excludeInteriorSources = true → g.isHazard v = false

/-- A method whose callers a search from `s` meets. The start is held to less than the methods that
are discovered later. -/
structure Expands (g : CallGraph) (o : Options) (s u : Nat) : Prop where
  not_safe : g.isSafe u = false
  isInterior : u ≠ s → g.IsInterior o u

/-- A method that waits for its turn once it is discovered. Whether it is virtual is asked only when
its turn comes. -/
structure Waits (g : CallGraph) (o : Options) (v : Nat) : Prop where
  not_safe : g.isSafe v = false
  not_entry : g.isEntry v = false
  not_hazard : o.excludeInteriorSources = true → g.isHazard v = false

/-- A method that a search collects. -/
structure IsDestination (g : CallGraph) (v : Nat) : Prop where
  isEntry : g.isEntry v = true
  not_safe : g.isSafe v = false

/-- A walk from `s` to `v`, both included, that a search may take. -/
structure AdmissibleWalk (g : CallGraph) (o : Options) (s v : Nat) (walk : List Nat) : Prop where
  head : walk.head? = some s
  last : walk.getLast? = some v
  follows : walk.IsChain g.Follows
  /-- Only the walk that stays where it is may start at a safe method. -/
  start_not_safe : walk.length ≠ 1 → g.isSafe s = false
  interior : ∀ w ∈ walk.tail.dropLast, g.IsInterior o w

theorem Expands.start (h : g.isSafe s = false) : g.Expands o s s :=
  ⟨h, fun hne ↦ absurd rfl hne⟩

/-- What may be walked through is expanded. -/
theorem IsInterior.expands (h : g.IsInterior o u) : g.Expands o s u :=
  ⟨h.not_safe, fun _ ↦ h⟩

/-- Whatever is expanded behind the start has waited for it. -/
theorem Expands.waits (h : g.Expands o s u) (hne : u ≠ s) : g.Waits o u :=
  ⟨h.not_safe, (h.isInterior hne).not_entry, (h.isInterior hne).not_hazard⟩

namespace AdmissibleWalk

theorem ne_nil (h : g.AdmissibleWalk o s v walk) : walk ≠ [] := by
  rintro rfl
  simpa using h.head

/-- A walk that starts in the graph stays in the graph. -/
theorem lt_size (h : g.AdmissibleWalk o s v walk) (hs : s < g.size) (hu : u ∈ walk) : u < g.size := by
  rcases eq_head_or_exists_rel h.follows hu with hhead | ⟨w, hw, -⟩
  · obtain rfl := Option.some.inj (h.head.symm.trans hhead)
    exact hs
  · exact lt_of_mem_callers hw

/-- The walk that stays at the start. -/
theorem singleton (s : Nat) : g.AdmissibleWalk o s s [s] :=
  ⟨rfl, rfl, .singleton s, by simp, by simp⟩

/-- What stands behind the start of a walk that is extended: its old interior and its old end. -/
theorem expands_of_concat (h : g.AdmissibleWalk o s v (walk ++ [v])) (hu : walk.getLast? = some u) :
    g.Expands o s u := by
  have hne : walk ≠ [] := List.ne_nil_of_mem (List.mem_of_getLast? hu)
  have hsafe : g.isSafe s = false := by
    refine h.start_not_safe ?_
    have hpos := List.length_pos_iff.2 hne
    simp only [List.length_append, List.length_singleton]
    omega
  have hhead : walk.head? = some s := by
    rw [← h.head, List.head?_append_of_ne_nil _ hne]
  by_cases hus : u = s
  · subst hus
    exact .start hsafe
  · refine IsInterior.expands (h.interior u ?_)
    obtain ⟨a, rest, rfl⟩ := List.exists_cons_of_ne_nil hne
    obtain rfl : a = s := by simpa using hhead
    -- `u` is not the start, so it stands in the tail, which the new end leaves untouched
    have hrest : rest ≠ [] := by
      rintro rfl
      exact hus (by simpa using hu.symm)
    rw [List.getLast?_cons_of_ne_nil hrest] at hu
    simpa using List.mem_of_getLast? hu

/-- Without its last method, a walk leads to the method before. -/
theorem of_concat (h : g.AdmissibleWalk o s v (walk ++ [v])) (hu : walk.getLast? = some u) :
    g.AdmissibleWalk o s u walk where
  head := by
    have hne : walk ≠ [] := List.ne_nil_of_mem (List.mem_of_getLast? hu)
    rw [← h.head, List.head?_append_of_ne_nil _ hne]
  last := hu
  follows := (List.isChain_append.1 h.follows).1
  start_not_safe _ := by
    refine h.start_not_safe ?_
    have hpos := List.length_pos_of_mem (List.mem_of_getLast? hu)
    simp only [List.length_append, List.length_singleton]
    omega
  interior w hw := by
    refine h.interior w ?_
    cases walk with
    | nil => simp at hw
    | cons a rest => simpa using List.dropLast_subset _ hw

/-- The last call of a walk is one that a search follows. -/
theorem follows_of_concat (h : g.AdmissibleWalk o s v (walk ++ [v]))
    (hu : walk.getLast? = some u) : g.Follows u v :=
  (List.isChain_append.1 h.follows).2.2 u hu v rfl

/-- A walk is extended behind a method whose callers the search meets. -/
theorem concat (h : g.AdmissibleWalk o s u walk) (hexp : g.Expands o s u) (hne : s ∉ walk.tail)
    (huv : g.Follows u v) : g.AdmissibleWalk o s v (walk ++ [v]) where
  head := by rw [List.head?_append_of_ne_nil _ h.ne_nil, h.head]
  last := by simp
  follows := by
    refine List.isChain_append.2 ⟨h.follows, .singleton v, ?_⟩
    intro x hx y hy
    rw [h.last] at hx
    obtain rfl := Option.some.inj hx
    obtain rfl := Option.some.inj hy
    exact huv
  start_not_safe _ := by
    by_cases hlen : walk.length = 1
    · obtain ⟨a, rfl⟩ := List.length_eq_one_iff.1 hlen
      obtain rfl : a = s := by simpa using h.head
      obtain rfl : a = u := by simpa using h.last
      exact hexp.not_safe
    · exact h.start_not_safe hlen
  -- the old end becomes interior, and the start cannot be the old end again
  interior w hw := by
    obtain ⟨a, rest, rfl⟩ := List.exists_cons_of_ne_nil h.ne_nil
    simp only [List.cons_append, List.tail_cons, List.dropLast_concat] at hw hne
    have hrest : rest ≠ [] := List.ne_nil_of_mem hw
    have hlast : rest.getLast? = some u := by
      rw [← h.last, List.getLast?_cons_of_ne_nil hrest]
    -- a member of the old tail is interior already, or it is the old end
    rw [← List.dropLast_append_getLast? u hlast] at hw
    rcases List.mem_append.1 hw with hw | hw
    · exact h.interior w hw
    · obtain rfl := List.mem_singleton.1 hw
      exact hexp.isInterior fun hws ↦ hne (hws ▸ List.mem_of_getLast? hlast)

end AdmissibleWalk

end CallGraph

end HazardTrace
