import HazardTrace.Proofs.Analysis.Graph
import HazardTrace.Proofs.Search.Walk
import Mathlib.Data.List.Nodup

/-!
# Exposed methods

A dangerous method is exposed by the methods that lead from it, caller after caller, to an entry of
the program. `Exposes` states that of ids, by the calls and the verdicts of the program and by the
notes that the analysis has given out; no number and no search occurs in it. It is what a report is
meant to tell its reader, and it can be checked for given methods.

* `Tells` says which methods a chain tells of. For a warning these are the methods of the chain, and
  for an unresolved call the called reflection method stands in front of them.
* `Shows` puts both together: the chain tells of methods that expose its dangerous method.

The search works on numbers, and the two are tied together by `Mirrors`. Replacing ids by numbers
turns methods that expose another into an admissible walk of the prepared graph (`Exposes.walk`):
every method that leads on has a number, as an end of a call. In the other direction an admissible
walk that is worth reporting comes from such methods (`Mirrors.exposes_of_walk`): every number on it
has an id. In both directions the single steps are `Mirrors.follows_iff` for calls and
`Mirrors.isInterior_iff` for the methods in between.

The lemmas on lists of ids and of numbers are there for one reason. A list of methods occurs in both
forms, and what is known of its ends and its length in one form is needed in the other; `map_id?_eq`
and `eq_map_name` go back and forth.
-/

namespace HazardTrace

open Search (Options)

/-- A call by which danger spreads from callee to caller: no reflective call that was resolved. -/
def Program.Leads (p : Program) (callee caller : String) : Prop :=
  (caller, callee) ∈ p.edges ∧ ⟨caller, callee⟩ ∉ p.reflection.recognized

namespace Analysis

namespace Prepared

/-- The note of a method. -/
def noteOf (pre : Prepared) (id : String) : Option Note :=
  (pre.numbering.number? id).bind pre.marking.note?

/-- Is the method marked safe? -/
def isSafe (pre : Prepared) (id : String) : Bool :=
  (pre.numbering.number? id).any pre.marking.isSafe

/-- Is the method annotated, in whatever way, and not safe? -/
def isHazard (pre : Prepared) (id : String) : Bool :=
  (pre.noteOf id).isSome && !pre.isSafe id

end Prepared

/-- The methods `ids` lead from the dangerous method `source` to the entry `entry`. If interior
hazards are excluded, no method in between is annotated, not even with a suppression. -/
structure Exposes (p : Program) (pre : Prepared) (o : Options) (source entry : String)
    (ids : List String) : Prop where
  head : ids.head? = some source
  last : ids.getLast? = some entry
  two_le_length : 2 ≤ ids.length
  nodup : ids.Nodup
  leads : ids.IsChain p.Leads
  source_note : ∃ a, pre.noteOf source = some a ∧ (a.isWarn = true ∨ a.isUnanalyzed = true)
  source_not_safe : pre.isSafe source = false
  source_not_entry : p.isEntry source = false
  entry_isEntry : p.isEntry entry = true
  entry_not_safe : pre.isSafe entry = false
  interior_not_entry : ∀ id ∈ ids.tail.dropLast, p.isEntry id = false
  interior_not_safe : ∀ id ∈ ids.tail.dropLast, pre.isSafe id = false
  interior_not_hazard : o.excludeInteriorSources = true →
    ∀ id ∈ ids.tail.dropLast, pre.isHazard id = false

instance (p : Program) : DecidableRel p.Leads := fun callee caller ↦
  inferInstanceAs
    (Decidable ((caller, callee) ∈ p.edges ∧ ⟨caller, callee⟩ ∉ p.reflection.recognized))

/-- Exposure by given methods can be checked. -/
instance (p : Program) (pre : Prepared) (o : Options) (source entry : String) (ids : List String) :
    Decidable (Exposes p pre o source entry ids) :=
  decidable_of_iff
    (ids.head? = some source ∧ ids.getLast? = some entry ∧ 2 ≤ ids.length ∧ ids.Nodup ∧
      ids.IsChain p.Leads ∧
      (pre.noteOf source).any (fun a ↦ a.isWarn || a.isUnanalyzed) = true ∧
      pre.isSafe source = false ∧ p.isEntry source = false ∧ p.isEntry entry = true ∧
      pre.isSafe entry = false ∧ (∀ id ∈ ids.tail.dropLast, p.isEntry id = false) ∧
      (∀ id ∈ ids.tail.dropLast, pre.isSafe id = false) ∧
      (o.excludeInteriorSources = true → ∀ id ∈ ids.tail.dropLast, pre.isHazard id = false))
    ⟨fun ⟨h₁, h₂, h₃, h₄, h₅, h₆, h₇, h₈, h₉, h₁₀, h₁₁, h₁₂, h₁₃⟩ ↦
      ⟨h₁, h₂, h₃, h₄, h₅, by simpa [Option.any_eq_true] using h₆, h₇, h₈, h₉, h₁₀, h₁₁, h₁₂, h₁₃⟩,
    fun ⟨h₁, h₂, h₃, h₄, h₅, h₆, h₇, h₈, h₉, h₁₀, h₁₁, h₁₂, h₁₃⟩ ↦
      ⟨h₁, h₂, h₃, h₄, h₅, by simpa [Option.any_eq_true] using h₆, h₇, h₈, h₉, h₁₀, h₁₁, h₁₂, h₁₃⟩⟩

/-- The chain `c` tells of the methods `ids`, which start at `source`. For a warning these are the
methods of the chain. For an unresolved call, the called reflection method stands in front of
them. -/
inductive Tells (pre : Prepared) (source : String) (ids : List String) (c : Chain) : Prop where
  | warning {r : Remark} (hnote : pre.noteOf source = some (.warn r)) (hc : c.note = .warn r)
      (hnodes : c.nodes.map pre.numbering.id? = ids.map some)
  | unresolved {calls : List ReflectiveCall} {call : ReflectiveCall}
      (hnote : pre.noteOf source = some (.unanalyzed calls)) (hcall : call ∈ calls)
      (hc : c.note = .warn call.remark) (hhead : c.nodes.head? = some call.target)
      (hnodes : c.nodes.tail.map pre.numbering.id? = ids.map some)

/-- The chain `c` shows that `source` is exposed by `entry`. -/
def Shows (p : Program) (pre : Prepared) (o : Options) (source entry : String) (c : Chain) : Prop :=
  ∃ ids, Exposes p pre o source entry ids ∧ Tells pre source ids c

/-! ### Lists of ids and of numbers -/

section Names

variable {α : Type} {s : Numbering α} {nodes : List Nat} {ids : List String} {u : Nat} {id : String}

/-- Numbers that have ids are listed by their names. -/
theorem map_id?_eq (h : ∀ u ∈ nodes, s.id? u = some (s.name u)) :
    nodes.map s.id? = (nodes.map s.name).map some := by
  rw [List.map_map]
  exact List.map_congr_left h

/-- Ids that some numbers have are their names. -/
theorem eq_map_name (h : nodes.map s.id? = ids.map some) :
    ids = nodes.map s.name ∧ ∀ u ∈ nodes, s.id? u = some (s.name u) := by
  refine ⟨?_, fun u hu ↦ ?_⟩
  · calc ids = (ids.map some).map (·.getD "") := by simp [Function.comp_def]
      _ = (nodes.map s.id?).map (·.getD "") := by rw [h]
      _ = nodes.map s.name := List.map_map ..
  · have hmem : s.id? u ∈ ids.map some := h ▸ List.mem_map_of_mem hu
    obtain ⟨id, -, hid⟩ := List.mem_map.1 hmem
    exact Numbering.id?_eq_some_name hid.symm

/-- A list is as long in ids as in numbers. -/
theorem length_eq_of_map_id? (h : nodes.map s.id? = ids.map some) : nodes.length = ids.length := by
  simpa using congrArg List.length h

theorem id?_of_head? (h : nodes.map s.id? = ids.map some) (hu : nodes.head? = some u)
    (hid : ids.head? = some id) : s.id? u = some id := by
  obtain ⟨rfl, hnames⟩ := eq_map_name h
  rw [List.head?_map, hu] at hid
  exact (hnames u (List.mem_of_head? hu)).trans hid

theorem id?_of_getLast? (h : nodes.map s.id? = ids.map some) (hu : nodes.getLast? = some u)
    (hid : ids.getLast? = some id) : s.id? u = some id := by
  obtain ⟨rfl, hnames⟩ := eq_map_name h
  rw [List.getLast?_map, hu] at hid
  exact (hnames u (List.mem_of_getLast? hu)).trans hid

/-- Ids that have numbers are the names of these numbers. -/
theorem exists_nodes (h : ∀ id ∈ ids, ∃ u, s.number? id = some u) :
    ∃ nodes : List Nat, nodes.map s.id? = ids.map some := by
  induction ids with
  | nil => exact ⟨[], rfl⟩
  | cons id ids ih =>
    obtain ⟨u, hu⟩ := h id List.mem_cons_self
    obtain ⟨nodes, hnodes⟩ := ih fun id hid ↦ h id (List.mem_cons_of_mem _ hid)
    refine ⟨u :: nodes, ?_⟩
    rw [List.map_cons, List.map_cons, hnodes, Numbering.number?_eq_some_iff.1 hu]

end Names

/-! ### Exposure as a walk -/

variable {p : Program} {pre : Prepared} {o : Options} {u v s : Nat} {id source entry : String}
  {nodes : List Nat} {ids : List String}

/-- The note of a method may be looked up by its number. -/
theorem Prepared.noteOf_eq (h : pre.numbering.id? u = some id) :
    pre.noteOf id = pre.marking.note? u := by
  rw [noteOf, Numbering.number?_eq_some_iff.2 h]
  rfl

theorem Prepared.isSafe_eq (h : pre.numbering.id? u = some id) :
    pre.isSafe id = pre.marking.isSafe u := by
  rw [isSafe, Numbering.number?_eq_some_iff.2 h]
  rfl

theorem Prepared.isHazard_eq (h : pre.numbering.id? u = some id) :
    pre.isHazard id = pre.marking.isHazard u := by
  rw [isHazard, noteOf_eq h, isSafe_eq h, Marking.isHazard_eq]

namespace Mirrors

/-- A search follows the calls by which danger spreads. -/
theorem follows_iff (hpre : Mirrors p pre) {callee caller : String}
    (hu : pre.numbering.id? u = some callee) (hv : pre.numbering.id? v = some caller) :
    pre.graph.Follows u v ↔ p.Leads callee caller := by
  refine and_congr (hpre.mem_callers hu hv) ?_
  rw [← Bool.not_eq_true, hpre.isSafeEdge hu hv]

/-- A search goes on from the methods that may stand in between. -/
theorem isInterior_iff (hpre : Mirrors p pre) (hu : pre.numbering.id? u = some id) :
    pre.graph.IsInterior o u ↔ p.isEntry id = false ∧ pre.isSafe id = false ∧
      (o.excludeInteriorSources = true → pre.isHazard id = false) := by
  rw [Prepared.isSafe_eq hu, Prepared.isHazard_eq hu, ← hpre.isSafe hu, ← hpre.isHazard hu,
    ← hpre.isEntry hu]
  constructor
  · intro h
    exact ⟨h.not_entry, h.not_safe, h.not_hazard⟩
  · rintro ⟨hentry, hsafe, hhazard⟩
    exact ⟨hsafe, hentry, hpre.isVirtual hu (by rwa [← hpre.isEntry hu]), hhazard⟩

/-- A walk of the prepared graph that is worth reporting exposes its start. -/
theorem exposes_of_walk (hpre : Mirrors p pre) (hsource : pre.numbering.id? s = some source)
    (hlast : pre.numbering.id? v = some entry) (hwalk : pre.graph.AdmissibleWalk o s v nodes)
    (hlen : 2 ≤ nodes.length) (hnodup : nodes.Nodup)
    (hnote : ∃ a, pre.marking.note? s = some a ∧ (a.isWarn = true ∨ a.isUnanalyzed = true))
    (hentry : pre.graph.isEntry s = false) (hdest : pre.graph.IsDestination v) :
    ∃ ids, nodes.map pre.numbering.id? = ids.map some ∧ Exposes p pre o source entry ids := by
  -- every number on the walk has an id
  have hnames : ∀ u ∈ nodes, pre.numbering.id? u = some (pre.numbering.name u) := by
    intro u hu
    obtain ⟨id, hid⟩ := hpre.exists_id? (hwalk.lt_size (hpre.lt_size hsource) hu)
    exact Numbering.id?_eq_some_name hid
  have hinterior : ∀ id ∈ (nodes.map pre.numbering.name).tail.dropLast, p.isEntry id = false ∧
      pre.isSafe id = false ∧ (o.excludeInteriorSources = true → pre.isHazard id = false) := by
    intro id hid
    rw [← List.map_tail, ← List.map_dropLast] at hid
    obtain ⟨w, hw, rfl⟩ := List.mem_map.1 hid
    have hmem := List.mem_of_mem_tail (List.dropLast_subset _ hw)
    exact (hpre.isInterior_iff (hnames w hmem)).1 (hwalk.interior w hw)
  refine ⟨nodes.map pre.numbering.name, map_id?_eq hnames, ?_⟩
  exact
    { head := by rw [List.head?_map, hwalk.head, Option.map_some, Numbering.name, hsource]; rfl
      last := by rw [List.getLast?_map, hwalk.last, Option.map_some, Numbering.name, hlast]; rfl
      two_le_length := by rwa [List.length_map]
      nodup := hnodup.map_on fun a ha b hb hab ↦
        Numbering.eq_of_id? (hnames a ha) (hab ▸ hnames b hb)
      leads := (List.isChain_map _).2 <| hwalk.follows.imp_of_mem_imp fun a b ha hb hab ↦
        (hpre.follows_iff (hnames a ha) (hnames b hb)).1 hab
      source_note := by rwa [Prepared.noteOf_eq hsource]
      source_not_safe := by
        rw [Prepared.isSafe_eq hsource, ← hpre.isSafe hsource]
        exact hwalk.start_not_safe (by omega)
      source_not_entry := by rwa [← hpre.isEntry hsource]
      entry_isEntry := by rw [← hpre.isEntry hlast]; exact hdest.isEntry
      entry_not_safe := by
        rw [Prepared.isSafe_eq hlast, ← hpre.isSafe hlast]
        exact hdest.not_safe
      interior_not_entry := fun id hid ↦ (hinterior id hid).1
      interior_not_safe := fun id hid ↦ (hinterior id hid).2.1
      interior_not_hazard := fun hex id hid ↦ (hinterior id hid).2.2 hex }

end Mirrors

namespace Exposes

/-- Every method that leads on has a number, as an end of a call. -/
theorem exists_number? (h : Exposes p pre o source entry ids) (hpre : Mirrors p pre) :
    ∀ id ∈ ids, ∃ u, pre.numbering.number? id = some u := by
  intro id hid
  rcases eq_head_or_exists_rel h.leads hid with hhead | ⟨callee, hcall, -⟩
  · -- the first method is called by the second
    match ids, h.two_le_length, h.leads with
    | a :: b :: ids, _, hleads =>
      obtain rfl : a = id := by simpa using hhead
      exact (hpre.exists_number? (List.isChain_cons_cons.1 hleads).1.1).2
  · exact (hpre.exists_number? hcall).1

/-- Replacing ids by numbers turns the methods into a walk of the prepared graph. -/
theorem walk (h : Exposes p pre o source entry ids) (hpre : Mirrors p pre) :
    ∃ s v nodes, pre.numbering.id? s = some source ∧ pre.numbering.id? v = some entry ∧
      nodes.map pre.numbering.id? = ids.map some ∧ pre.graph.AdmissibleWalk o s v nodes ∧
      pre.graph.isEntry s = false ∧ pre.graph.IsDestination v := by
  obtain ⟨nodes, hnodes⟩ := exists_nodes (h.exists_number? hpre)
  obtain ⟨rfl, hnames⟩ := eq_map_name hnodes
  obtain ⟨s, hs, rfl⟩ := Option.map_eq_some_iff.1 (List.head?_map.symm.trans h.head)
  obtain ⟨v, hv, rfl⟩ := Option.map_eq_some_iff.1 (List.getLast?_map.symm.trans h.last)
  have hsource := hnames s (List.mem_of_head? hs)
  have hlast := hnames v (List.mem_of_getLast? hv)
  refine ⟨s, v, nodes, hsource, hlast, hnodes, ⟨hs, hv, ?_, fun _ ↦ ?_, fun w hw ↦ ?_⟩, ?_, ?_, ?_⟩
  · exact ((List.isChain_map _).1 h.leads).imp_of_mem_imp fun a b ha hb hab ↦
      (hpre.follows_iff (hnames a ha) (hnames b hb)).2 hab
  · rw [hpre.isSafe hsource, ← Prepared.isSafe_eq hsource]
    exact h.source_not_safe
  · have hmem := List.mem_of_mem_tail (List.dropLast_subset _ hw)
    have hid : pre.numbering.name w ∈ (nodes.map pre.numbering.name).tail.dropLast := by
      rw [← List.map_tail, ← List.map_dropLast]
      exact List.mem_map_of_mem hw
    exact (hpre.isInterior_iff (hnames w hmem)).2 ⟨h.interior_not_entry _ hid,
      h.interior_not_safe _ hid, fun hex ↦ h.interior_not_hazard hex _ hid⟩
  · rw [hpre.isEntry hsource]
    exact h.source_not_entry
  · rw [hpre.isEntry hlast]
    exact h.entry_isEntry
  · rw [hpre.isSafe hlast, ← Prepared.isSafe_eq hlast]
    exact h.entry_not_safe

end Exposes

end Analysis

end HazardTrace
