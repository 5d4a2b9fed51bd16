import HazardTrace.Proofs.Ordering
import HazardTrace.Proofs.Program.Numbering

/-!
# Relations between numbered methods

A program relates its methods by pairs of ids: calls and overrides. The program that runs on numbers
keeps such a relation in two steps, and it has to be shown that neither loses anything.

* **From ids to numbers.** A pair is kept if both its ids have numbers (`Numbering.numberBoth?`).
  Where that holds of all pairs (`Numbering.Knows`), no pair is lost when the ids are replaced
  (`Numbering.map_names_filterMap`), and different pairs stay different
  (`Numbering.length_dedup_filterMap`). Both rest on `names_of_numberBoth?`: a pair can be recovered
  from its numbers, because a number has one id.
* **From pairs to lists.** A relation between numbers is kept as one list for each member, such as
  the callers of a method. `pairsOf` puts the lists back together. If no member has two lists and no
  list repeats a value, then the lists hold as many values as the relation has different pairs
  (`length_flatMap_eq_of_mem_iff`); for this it is enough to know which values are in which list.

Nothing here depends on how the lists were made. The modules on call graphs and on overrides supply
the membership of their own lists and get the counts from the last lemma.
-/

namespace HazardTrace

namespace Numbering

variable {α : Type} {s : Numbering α} {l : List (String × String)}

/-- A pair of ids by number, if both ids have one. -/
def numberBoth? (s : Numbering α) (e : String × String) : Option (Nat × Nat) := do
  return (← s.number? e.1, ← s.number? e.2)

/-- The ids of a pair of numbers. -/
def names (s : Numbering α) (q : Nat × Nat) : String × String :=
  (s.name q.1, s.name q.2)

/-- Do all ids of some pairs have numbers? -/
def Knows (s : Numbering α) (l : List (String × String)) : Prop :=
  ∀ e ∈ l, e.1 ∈ s.ids ∧ e.2 ∈ s.ids

/-- A number that was given to an id has this id for its name. -/
theorem name_of_number? {id : String} {i : Nat} (h : s.number? id = some i) : s.name i = id := by
  rw [name, number?_eq_some_iff.1 h]
  rfl

/-- A pair has numbers if both its ids do. -/
theorem numberBoth?_eq_some_iff {e : String × String} {q : Nat × Nat} :
    s.numberBoth? e = some q ↔ s.number? e.1 = some q.1 ∧ s.number? e.2 = some q.2 := by
  rw [numberBoth?]
  cases s.number? e.1 <;> cases s.number? e.2 <;> simp [Prod.ext_iff]

/-- The ids of a pair can be recovered from its numbers. -/
theorem names_of_numberBoth? {e : String × String} {q : Nat × Nat} (h : s.numberBoth? e = some q) :
    s.names q = e := by
  obtain ⟨h₁, h₂⟩ := numberBoth?_eq_some_iff.1 h
  exact Prod.ext (name_of_number? h₁) (name_of_number? h₂)

/-- A pair of known ids has numbers. -/
theorem Knows.exists_numberBoth? (h : s.Knows l) {e : String × String} (he : e ∈ l) :
    ∃ q, s.numberBoth? e = some q := by
  obtain ⟨i, hi⟩ := mem_ids.1 (h e he).1
  obtain ⟨j, hj⟩ := mem_ids.1 (h e he).2
  exact ⟨(i, j), numberBoth?_eq_some_iff.2 ⟨hi, hj⟩⟩

/-- **No pair of known ids is lost.** -/
theorem map_names_filterMap (h : s.Knows l) : (l.filterMap s.numberBoth?).map s.names = l := by
  rw [List.map_filterMap]
  refine (List.filterMap_congr fun e he ↦ ?_).trans List.filterMap_some
  obtain ⟨q, hq⟩ := h.exists_numberBoth? he
  rw [hq, Option.map_some, names_of_numberBoth? hq]

/-- So there are as many pairs of numbers as of ids. -/
theorem length_filterMap_numberBoth? (h : s.Knows l) :
    (l.filterMap s.numberBoth?).length = l.length := by
  rw [← List.length_map s.names, map_names_filterMap h]

/-- Different pairs of known ids stay different. -/
theorem length_dedup_filterMap (h : s.Knows l) :
    (l.filterMap s.numberBoth?).dedup.length = l.dedup.length := by
  -- names are injective on the numbers that are in use
  have hinj : ∀ q ∈ l.filterMap s.numberBoth?, ∀ q' ∈ l.filterMap s.numberBoth?,
      s.names q = s.names q' → q = q' := by
    intro q hq q' hq' hnames
    obtain ⟨e, -, he⟩ := List.mem_filterMap.1 hq
    obtain ⟨e', -, he'⟩ := List.mem_filterMap.1 hq'
    rw [names_of_numberBoth? he, names_of_numberBoth? he'] at hnames
    exact Option.some.inj (he.symm.trans (hnames ▸ he'))
  rw [← (length_dedup_map_eq_iff ..).2 hinj, map_names_filterMap h]

end Numbering

/-! ### One list for each member -/

section PairsOf

variable {κ β : Type} (keys : List κ) (values : κ → List β)

/-- The pairs of a relation that is kept as a list of values for each of some keys. -/
def pairsOf : List (β × κ) :=
  keys.flatMap fun k ↦ (values k).map (·, k)

variable {keys values}

/-- A value and a key are a pair if the value is in the list of the key. -/
theorem mem_pairsOf {b : β} {k : κ} : (b, k) ∈ pairsOf keys values ↔ k ∈ keys ∧ b ∈ values k := by
  simp [pairsOf]

theorem length_pairsOf : (pairsOf keys values).length = (keys.flatMap values).length := by
  simp [pairsOf, List.length_flatMap]

/-- No pair comes up twice: the lists repeat nothing, and the pairs of different lists have
different keys. -/
theorem nodup_pairsOf (hkeys : keys.Nodup) (hvalues : ∀ k ∈ keys, (values k).Nodup) :
    (pairsOf keys values).Nodup := by
  refine List.nodup_flatMap.2 ⟨fun k hk ↦ ?_, hkeys.imp fun hne ↦ ?_⟩
  · exact (hvalues k hk).map fun b b' h ↦ (Prod.mk.inj h).1
  · rintro ⟨b, k⟩ hb hb'
    obtain ⟨c, -, heq⟩ := List.mem_map.1 hb
    obtain ⟨c', -, heq'⟩ := List.mem_map.1 hb'
    exact hne ((Prod.mk.inj heq).2.trans (Prod.mk.inj heq').2.symm)

/-- As many values are kept as the relation has pairs. -/
theorem length_flatMap_eq_of_mem_iff [DecidableEq β] [DecidableEq κ] (hkeys : keys.Nodup)
    (hvalues : ∀ k ∈ keys, (values k).Nodup) {l : List (β × κ)}
    (h : ∀ b k, k ∈ keys ∧ b ∈ values k ↔ (b, k) ∈ l) :
    (keys.flatMap values).length = l.dedup.length := by
  rw [← length_pairsOf]
  refine List.Perm.length_eq ?_
  rw [List.perm_ext_iff_of_nodup (nodup_pairsOf hkeys hvalues) l.nodup_dedup]
  rintro ⟨b, k⟩
  rw [mem_pairsOf, List.mem_dedup, h]

end PairsOf

end HazardTrace
