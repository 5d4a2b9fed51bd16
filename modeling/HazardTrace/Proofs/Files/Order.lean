import HazardTrace.Files.Path
import Mathlib.Data.List.Lex
import Mathlib.Data.List.Sort
import Mathlib.Data.Prod.Lex
import Mathlib.Data.String.Basic

/-!
# Paths in order

Paths are ordered by their components. Each path gets a key, so that the order of paths is the
lexicographic order of their keys (`le_iff`), and two spellings of a path have one key
(`key_eq_iff`). With that, the order is known to be linear, and paths that are on a par in it are
spellings of one path (`same_iff`).

* `pairwise_sorted`: sorted paths stand in strict order, by the order `Precedes` of paths and of
  their keys (`precedes_iff`). For this the repetitions must be dropped after sorting, when equal
  keys stand side by side (`lt_of_mem_dropWhile`, `pairwise_dropRepeats`).
* `forall₂_sorted`: which paths they are depends only on which paths were given, not on their
  number, order or spelling. Both lists have ascending keys, and the same ones
  (`map_key_sorted_subset`), so the keys are the same lists. Of the spellings of a path one is kept,
  and it may be another one on the other side; that is why the result is stated by components.
-/

namespace HazardTrace

namespace Path

variable {p q : String}

/-- Where a component stands in the order of components. -/
def Component.key (c : Component) : Nat ×ₗ String :=
  toLex (c.rank, c.text)

/-- A component is known by its key. -/
theorem Component.key_injective : Function.Injective Component.key := by
  intro a b h
  cases a <;> cases b <;> simp_all [key, rank, text]

/-- Components are ordered by their keys. -/
theorem Component.lt_iff {a b : Component} : a.lt b = true ↔ a.key < b.key := by
  simp [lt, key, Prod.Lex.lt_iff]

/-- Lists of components are ordered as the lists of their keys. -/
theorem componentsLe_iff {as bs : List Component} :
    componentsLe as bs = true ↔ as.map Component.key ≤ bs.map Component.key := by
  rw [← not_lt]
  induction as generalizing bs with
  | nil => simp [componentsLe]
  | cons a as ih =>
    cases bs with
    | nil => simp [componentsLe]
    | cons b bs =>
      rw [List.map_cons, List.map_cons, List.cons_lt_cons_iff, componentsLe]
      by_cases hab : a = b
      · simp [hab, ih]
      · have hne : b.key ≠ a.key := fun h ↦ hab (Component.key_injective h).symm
        simp [hab, hne, Component.lt_iff, hne.symm.le_iff_lt]

/-- Where a path stands in the order of paths. -/
def key (p : String) : List (Nat ×ₗ String) :=
  (components p).map Component.key

/-- **Paths are ordered by their keys.** -/
theorem le_iff : le p q = true ↔ key p ≤ key q :=
  componentsLe_iff

/-- Spellings of a path have one key. -/
theorem key_eq_iff : key p = key q ↔ components p = components q :=
  Component.key_injective.list_map.eq_iff

theorem same_iff : same p q = true ↔ components p = components q :=
  beq_iff_eq

/-- The path stands before the other in the order of components, and is not the same. -/
def Precedes (p q : String) : Prop :=
  le p q = true ∧ same p q = false

/-- A path stands before another if its key is smaller. -/
theorem precedes_iff : Precedes p q ↔ key p < key q := by
  rw [Precedes, le_iff, ← Bool.not_eq_true, same_iff, ← key_eq_iff, lt_iff_le_and_ne]

/-! ### Repetitions -/

variable {ps qs : List String}

theorem dropRepeats_subset : dropRepeats ps ⊆ ps := by
  induction ps with
  | nil => exact List.Subset.refl []
  | cons p ps ih =>
    exact List.cons_subset_cons p (List.Subset.trans (List.dropWhile_subset _) ih)

/-- Of each path, a spelling is kept. -/
theorem exists_mem_dropRepeats (hp : p ∈ ps) : ∃ q ∈ dropRepeats ps, key q = key p := by
  induction ps with
  | nil => cases hp
  | cons r ps ih =>
    rcases List.mem_cons.1 hp with rfl | hp
    · exact ⟨p, List.mem_cons_self, rfl⟩
    · obtain ⟨q, hq, hkey⟩ := ih hp
      rw [← (dropRepeats ps).takeWhile_append_dropWhile (p := same r), List.mem_append] at hq
      rcases hq with hq | hq
      · have hsame := same_iff.1 (List.all_eq_true.1 List.all_takeWhile q hq)
        exact ⟨r, List.mem_cons_self, (key_eq_iff.2 hsame).trans hkey⟩
      · exact ⟨q, List.mem_cons_of_mem r hq, hkey⟩

/-- What is left of an ascending list behind the paths that are the same as `p` comes after `p`. -/
theorem lt_of_mem_dropWhile (hps : ps.Pairwise fun q r ↦ key q < key r)
    (hle : ∀ q ∈ ps, key p ≤ key q) (hq : q ∈ ps.dropWhile (same p)) : key p < key q := by
  induction ps with
  | nil => cases hq
  | cons r ps ih =>
    obtain ⟨hr, hps⟩ := List.pairwise_cons.1 hps
    by_cases hsame : same p r = true
    · rw [List.dropWhile_cons_of_pos hsame] at hq
      exact ih hps (fun q hq ↦ hle q (List.mem_cons_of_mem r hq)) hq
    · rw [List.dropWhile_cons_of_neg hsame] at hq
      have hpr : key p < key r :=
        lt_of_le_of_ne (hle r List.mem_cons_self) fun h ↦ hsame (same_iff.2 (key_eq_iff.1 h))
      rcases List.mem_cons.1 hq with rfl | hq
      · exact hpr
      · exact hpr.trans (hr q hq)

/-- Without repetitions, what is in order is in strict order. -/
theorem pairwise_dropRepeats (h : ps.Pairwise fun p q ↦ key p ≤ key q) :
    (dropRepeats ps).Pairwise fun p q ↦ key p < key q := by
  induction ps with
  | nil => exact List.Pairwise.nil
  | cons p ps ih =>
    obtain ⟨hp, hps⟩ := List.pairwise_cons.1 h
    refine List.pairwise_cons.2 ⟨fun q hq ↦ ?_, (ih hps).sublist (List.dropWhile_sublist _)⟩
    exact lt_of_mem_dropWhile (ih hps) (fun q hq ↦ hp q (dropRepeats_subset hq)) hq

/-! ### Sorted paths -/

/-- **Sorted paths stand in strict order.** -/
theorem pairwise_sorted (ps : List String) :
    (sorted ps).Pairwise fun p q ↦ key p < key q := by
  refine pairwise_dropRepeats ((List.pairwise_mergeSort ?_ ?_ ps).imp le_iff.1)
  · intro p q r hpq hqr
    rw [le_iff] at *
    exact hpq.trans hqr
  · intro p q
    rw [Bool.or_eq_true, le_iff, le_iff]
    exact le_total (key p) (key q)

theorem sorted_subset : sorted ps ⊆ ps := fun _ hp ↦
  List.mem_mergeSort.1 (dropRepeats_subset hp)

/-- What is among the given paths, in any spelling, is among the sorted ones. -/
theorem map_key_sorted_subset (h : ∀ p ∈ ps, ∃ q ∈ qs, components p = components q) :
    (sorted ps).map key ⊆ (sorted qs).map key := by
  intro k hk
  obtain ⟨p, hp, rfl⟩ := List.mem_map.1 hk
  obtain ⟨q, hq, hpq⟩ := h p (sorted_subset hp)
  obtain ⟨r, hr, hqr⟩ := exists_mem_dropRepeats (List.mem_mergeSort.2 hq)
  exact List.mem_map.2 ⟨r, hr, hqr.trans (key_eq_iff.2 hpq.symm)⟩

/-- **Sorting forgets how paths are listed and spelled**, except for the spelling that it keeps of
each. -/
theorem forall₂_sorted (hpq : ∀ p ∈ ps, ∃ q ∈ qs, components p = components q)
    (hqp : ∀ q ∈ qs, ∃ p ∈ ps, components q = components p) :
    List.Forall₂ (fun p q ↦ components p = components q) (sorted ps) (sorted qs) := by
  have hkeys : (sorted ps).map key = (sorted qs).map key :=
    List.Subset.antisymm_of_pairwise (r := (· < ·)) (List.pairwise_map.2 (pairwise_sorted ps))
      (List.pairwise_map.2 (pairwise_sorted qs)) (map_key_sorted_subset hpq)
      (map_key_sorted_subset hqp)
  rw [← List.forall₂_eq_eq_eq, List.forall₂_map_left_iff, List.forall₂_map_right_iff] at hkeys
  exact hkeys.imp fun _ _ ↦ key_eq_iff.1

end Path

end HazardTrace
