/-!
# Collections

The plain containers of the analysis, each with the few facts that say what it holds: lists in
ascending order, lists sorted into buckets by number, and queues.
-/

namespace HazardTrace

variable {α : Type}

/-!
## Ascending lists

`ascending l` lists the members of `l` once each, in order; `tally l` pairs each of them with the
number of times it occurs. `bisect a l` looks a value up in a list that is ascending.
-/

/-- Keeps one of each run of equal neighbours. -/
def dropRepeats [DecidableEq α] : List α → List α
  | a :: b :: l => if a = b then dropRepeats (b :: l) else a :: dropRepeats (b :: l)
  | l => l

/-- The members of a list in ascending order, each of them once. -/
def ascending [LE α] [DecidableLE α] [DecidableEq α] (l : List α) : List α :=
  dropRepeats (l.mergeSort fun a b ↦ decide (a ≤ b))

/-- The members of a list in ascending order, each with the number of its occurrences. -/
def tally [LE α] [DecidableLE α] [DecidableEq α] (l : List α) : List (α × Nat) :=
  (ascending l).map fun a ↦ (a, l.count a)

/-- Pairs by descending count, and by ascending name where the counts are equal. -/
def byCount [LE α] [DecidableLE α] (l : List (α × Nat)) : List (α × Nat) :=
  l.mergeSort fun a b ↦ decide (b.2 < a.2) || (a.2 == b.2 && decide (a.1 ≤ b.1))

theorem length_of_drop_half {l upper : List α} {b : α} (h : l.drop (l.length / 2) = b :: upper) :
    (l.take (l.length / 2)).length < l.length ∧ upper.length < l.length := by
  have hlength := congrArg List.length h
  rw [List.length_drop, List.length_cons] at hlength
  rw [List.length_take]
  omega

/-- Is a value in an ascending list? It is compared with the member in the middle and then looked up
in the half that can hold it. -/
@[semireducible]
def bisect [LT α] [DecidableLT α] [DecidableEq α] (a : α) (l : List α) : Bool :=
  match h : l.drop (l.length / 2) with
  | [] => false
  | b :: upper =>
    if a = b then true
    else if a < b then bisect a (l.take (l.length / 2))
    else bisect a upper
termination_by l.length
decreasing_by
  · exact (length_of_drop_half h).1
  · exact (length_of_drop_half h).2

@[simp]
theorem mem_dropRepeats [DecidableEq α] {a : α} {l : List α} : a ∈ dropRepeats l ↔ a ∈ l := by
  fun_induction dropRepeats l with
  | case1 b l ih => simp [ih]
  | case2 b c l hne ih => simp [ih]
  | case3 l hl => rfl

@[simp]
theorem mem_ascending [LE α] [DecidableLE α] [DecidableEq α] {a : α} {l : List α} :
    a ∈ ascending l ↔ a ∈ l := by
  simp [ascending]

/-!
## Buckets

Pairs of a number and a value, sorted into one list per number. `getElem?_buckets` says what each
list holds.
-/

/-- The values paired with each number below `n`, in order; other pairs are left out. -/
def buckets (n : Nat) (pairs : List (Nat × α)) : Array (List α) :=
  pairs.foldr (fun p acc ↦ acc.modify p.1 (p.2 :: ·)) (Array.replicate n [])

@[simp]
theorem size_buckets (n : Nat) (pairs : List (Nat × α)) : (buckets n pairs).size = n := by
  unfold buckets
  induction pairs with
  | nil => simp
  | cons p ps ih => simp [ih]

theorem getElem?_buckets (n : Nat) (pairs : List (Nat × α)) (i : Nat) :
    (buckets n pairs)[i]? =
      if i < n then some ((pairs.filter (·.1 == i)).map (·.2)) else none := by
  unfold buckets
  induction pairs with
  | nil => simp [Array.getElem?_replicate]
  | cons p ps ih =>
    rw [List.foldr_cons, Array.getElem?_modify, ih]
    by_cases hp : p.1 = i <;> by_cases hi : i < n <;> simp [hp, hi]

/-!
## Worklists

A queue that is served in the order of arrival. Its view is `toList`, oldest first: `push` adds at
the end of the view and `pop?` takes its head.
-/

/-- Items that wait, oldest first in `front` and newest first in `back`. -/
structure Worklist (α : Type) where
  front : List α := []
  back : List α := []
deriving Repr

namespace Worklist

/-- The waiting items, oldest first. -/
def toList (w : Worklist α) : List α :=
  w.front ++ w.back.reverse

/-- A worklist that holds the items of `l`. -/
def ofList (l : List α) : Worklist α :=
  ⟨l, []⟩

/-- How many items wait. -/
def size (w : Worklist α) : Nat :=
  w.front.length + w.back.length

/-- Adds an item that is served after all others. -/
def push (w : Worklist α) (a : α) : Worklist α :=
  ⟨w.front, a :: w.back⟩

/-- The oldest item and the rest. -/
def pop? : Worklist α → Option (α × Worklist α)
  | ⟨a :: front, back⟩ => some (a, ⟨front, back⟩)
  | ⟨[], back⟩ =>
    match back.reverse with
    | [] => none
    | a :: front => some (a, ⟨front, []⟩)

@[simp]
theorem toList_ofList (l : List α) : (ofList l).toList = l := by
  simp [toList, ofList]

@[simp]
theorem toList_push (w : Worklist α) (a : α) : (w.push a).toList = w.toList ++ [a] := by
  simp [toList, push]

@[simp]
theorem length_toList (w : Worklist α) : w.toList.length = w.size := by
  simp [toList, size]

@[simp]
theorem size_push (w : Worklist α) (a : α) : (w.push a).size = w.size + 1 := by
  simp [size, push, Nat.add_assoc]

theorem toList_of_pop? {w w' : Worklist α} {a : α} (h : w.pop? = some (a, w')) :
    w.toList = a :: w'.toList := by
  unfold pop? at h
  split at h
  · cases h
    simp [toList]
  · split at h
    · cases h
    next hback =>
      cases h
      simp [toList, hback]

theorem toList_of_pop?_none {w : Worklist α} (h : w.pop? = none) : w.toList = [] := by
  unfold pop? at h
  split at h
  · cases h
  · split at h
    next hback => simp [toList, hback]
    · cases h

theorem size_of_pop? {w w' : Worklist α} {a : α} (h : w.pop? = some (a, w')) :
    w.size = w'.size + 1 := by
  simpa using congrArg List.length (toList_of_pop? h)

end Worklist

end HazardTrace
