import Std.Data.TreeMap

/-!
# Methods and their numbers

What is known of a method of the analysed program, and the numbering under which the analysis keeps
the methods.

Every method that a program mentions gets a number, the next free one when its id is first seen.
Numbers are never taken back, and an id may have a number without any detail being known of it. The
table from ids to numbers is the inverse of the list of slots; `lookup_iff` keeps that in the type,
so every numbering is a bijection between its ids and the numbers below its size.
-/

namespace HazardTrace

/-! ## Methods -/

/-- A resolved method. The signature is the name with its parameter types; the declaring type is
written in full. -/
structure Method where
  id : String
  name : String
  signature : String
  declaringType : String
  /-- Namespace of the outermost declaring type, empty for the global one. -/
  ns : String := ""
  assembly : String := ""
  isPublic : Bool := false
  isVirtual : Bool := false
deriving DecidableEq, Repr

namespace Method

/-- Declaring type and signature, the form in which a method stands in a chain. -/
def fullName (m : Method) : String :=
  m.declaringType ++ "::" ++ m.signature

/-- An entry can be called from outside: directly, or through virtual dispatch. -/
def isEntry (m : Method) : Bool :=
  m.isPublic || m.isVirtual

/-- `*` names every method, a pattern with a parenthesis the method with that signature, and any
other pattern the methods with that name. -/
def matchesPattern (m : Method) (pattern : String) : Bool :=
  if pattern = "*" then true
  else if pattern.toList.contains '(' then pattern == m.signature
  else pattern == m.name

end Method

/-! ## Numbers -/

/-- A numbered id, with its detail once it is known. -/
structure Slot (α : Type) where
  id : String
  detail : Option α := none
deriving DecidableEq, Repr

/-- Ids numbered in order of first appearance. -/
structure Numbering (α : Type) where
  slots : Array (Slot α)
  lookup : Std.TreeMap String Nat
  lookup_iff : ∀ id i, lookup[id]? = some i ↔ slots[i]?.map Slot.id = some id

namespace Numbering

variable {α : Type}

/-- No id is numbered yet. -/
def empty : Numbering α where
  slots := #[]
  lookup := {}
  lookup_iff := by simp

/-- How many ids are numbered. -/
def size (s : Numbering α) : Nat :=
  s.slots.size

/-- The number of an id. -/
def number? (s : Numbering α) (id : String) : Option Nat :=
  s.lookup[id]?

/-- The id with a given number. -/
def id? (s : Numbering α) (node : Nat) : Option String :=
  s.slots[node]?.map Slot.id

/-- What is known of the method with a given number. -/
def detail? (s : Numbering α) (node : Nat) : Option α :=
  s.slots[node]?.bind Slot.detail

theorem number?_eq_some_iff {s : Numbering α} {id : String} {i : Nat} :
    s.number? id = some i ↔ s.id? i = some id :=
  s.lookup_iff id i

theorem number?_eq_none_iff {s : Numbering α} {id : String} :
    s.number? id = none ↔ ∀ i, s.id? i ≠ some id := by
  rw [Option.eq_none_iff_forall_ne_some]
  exact forall_congr' fun i ↦ not_congr number?_eq_some_iff

/-- The lookup table of a numbering that gains one new id at the end. -/
theorem lookup_push_iff {s : Numbering α} {id : String} (h : s.number? id = none)
    (detail : Option α) (id' : String) (i : Nat) :
    (s.lookup.insert id s.size)[id']? = some i ↔
      ((s.slots.push ⟨id, detail⟩)[i]?).map Slot.id = some id' := by
  rw [Std.TreeMap.getElem?_insert, Array.getElem?_push]
  by_cases hi : i = s.size
  · subst hi
    by_cases hid : id = id'
    · simp [hid, size]
    · have hne : compare id id' ≠ .eq := by simpa using hid
      have hnone : s.lookup[id']? ≠ some s.size := by
        rw [Ne, s.lookup_iff]
        simp [size]
      simp only [hne, if_false, size, if_true, Option.map_some, Option.some.injEq]
      exact ⟨fun h' ↦ absurd h' hnone, fun h' ↦ absurd h' hid⟩
  · have hi' : ¬ i = s.slots.size := hi
    by_cases hid : id = id'
    · subst hid
      have := number?_eq_none_iff.1 h i
      simp only [Std.ReflCmp.compare_self, if_true, Option.some.injEq, hi', if_false]
      exact ⟨fun h' ↦ absurd h'.symm hi, fun h' ↦ absurd h' this⟩
    · have hne : compare id id' ≠ .eq := by simpa using hid
      simp only [hne, if_false, hi']
      exact s.lookup_iff id' i

/-- The number of `id`, a fresh one if it has none, and the numbering that has it. -/
def assign (s : Numbering α) (id : String) : Nat × Numbering α :=
  match h : s.number? id with
  | some i => (i, s)
  | none =>
    (s.size,
      { slots := s.slots.push ⟨id, none⟩
        lookup := s.lookup.insert id s.size
        lookup_iff := lookup_push_iff h none })

/-- Gives the method numbered `i` its detail, unless it has one. -/
def describe (s : Numbering α) (i : Nat) (detail : α) : Numbering α where
  slots := s.slots.modify i fun slot ↦ { slot with detail := slot.detail <|> some detail }
  lookup := s.lookup
  lookup_iff id j := by
    rw [s.lookup_iff, Array.getElem?_modify]
    by_cases h : i = j
    · subst h
      cases s.slots[i]? <;> simp
    · simp [h]

/-- Numbers `id` and gives it its detail; the detail given first is kept. -/
def declare (s : Numbering α) (id : String) (detail : α) : Nat × Numbering α :=
  let (i, s') := s.assign id
  (i, s'.describe i detail)

/-- The methods with a known detail, by ascending number. -/
def resolved (s : Numbering α) : List (Nat × α) :=
  s.slots.toList.zipIdx.filterMap fun (slot, i) ↦ slot.detail.map (i, ·)

/-- How many methods have a known detail. -/
def resolvedCount (s : Numbering α) : Nat :=
  s.resolved.length

end Numbering

end HazardTrace
