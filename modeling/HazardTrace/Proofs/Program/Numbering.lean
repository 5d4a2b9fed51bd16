import HazardTrace.Program

/-!
# What the numbering of a program knows

The numbering of a program is made by a fold: first the methods are described one after the other
(`declared`), then the ids that calls, overrides and verdicts mention are given numbers
(`numbering`). Both loops repeat one step, `Numbering.declare` or `Numbering.assign`, so everything
is said of the step first and carried along the fold.

For one step:

* `number?_assign`: a number, once given, stays, and a new id gets the next one;
* `find?_declare`: the first description of an id is kept, and other ids are not affected. It rests
  on ids and numbers going one to one (`number?_eq_some_iff`), since the step writes at a number and
  the lemma speaks of an id;
* `ids_assign`: a new id comes last.

For a whole program:

* `find?_numbering`: what is known of an id is its first description, `Program.method?`. Mentioning
  an id tells nothing about it (`find?_foldl_assign`);
* `exists_number?`: an id that is mentioned has a number;
* `ids_numbering`: the ids are numbered in order of first appearance, the described ones first. This
  is `ids_foldl`, which holds of every loop that numbers one id in each step, applied twice;
* `numbering_eq_declared`: if all ids are described, then mentioning them changes nothing.

The statements about programs use ids alone. That is what lets other modules speak of the methods of
a program without the numbers they happen to have.
-/

namespace HazardTrace

namespace Numbering

variable {α : Type} {s : Numbering α} {id : String} {i : Nat}

/-- What is known of the method with a given id. -/
def find? (s : Numbering α) (id : String) : Option α :=
  (s.number? id).bind s.detail?

/-- The id with a given number, as text. -/
def name (s : Numbering α) (i : Nat) : String :=
  (s.id? i).getD ""

/-- A number in use has its name for an id. -/
theorem id?_eq_some_name (h : s.id? i = some id) : s.id? i = some (s.name i) := by
  rw [name, h]
  rfl

/-- No id has two numbers. -/
theorem eq_of_id? {j : Nat} (hi : s.id? i = some id) (hj : s.id? j = some id) : i = j :=
  Option.some.inj ((number?_eq_some_iff.2 hi).symm.trans (number?_eq_some_iff.2 hj))

/-- Numbers in use are below the size. -/
theorem lt_size_of_id? (h : s.id? i = some id) : i < s.size := by
  obtain ⟨slot, hslot, -⟩ := Option.map_eq_some_iff.1 h
  exact (Array.getElem?_eq_some_iff.1 hslot).1

/-- All numbers below the size are in use. -/
theorem exists_id? (h : i < s.size) : ∃ id, s.id? i = some id := by
  refine ⟨s.slots[i].id, ?_⟩
  rw [id?, Array.getElem?_eq_getElem h]
  rfl

/-- What is known of an id is what is stored at its number. -/
theorem find?_eq_detail? (h : s.id? i = some id) : s.find? id = s.detail? i := by
  rw [find?, number?_eq_some_iff.2 h]
  rfl

theorem detail?_size (s : Numbering α) : s.detail? s.size = none := by
  simp [detail?, size]

/-- The resolved numbers are those of which something is known. -/
theorem mem_resolved {d : α} : (i, d) ∈ s.resolved ↔ s.detail? i = some d := by
  rw [resolved, List.mem_filterMap, detail?, Option.bind_eq_some_iff]
  constructor
  · rintro ⟨⟨slot, j⟩, hmem, heq⟩
    obtain ⟨d', hd', heq⟩ := Option.map_eq_some_iff.1 heq
    obtain ⟨rfl, rfl⟩ := Prod.mk.inj heq
    exact ⟨slot, by simpa using List.mem_zipIdx_iff_getElem?.1 hmem, hd'⟩
  · rintro ⟨slot, hslot, hd⟩
    exact ⟨(slot, i), List.mem_zipIdx_iff_getElem?.2 (by simpa using hslot), by simp [hd]⟩

/-! ### One step -/

/-- A number, once given, stays; a new id gets the next one. -/
theorem number?_assign (s : Numbering α) (id id' : String) :
    (s.assign id).2.number? id' =
      if id = id' then some ((s.number? id).getD s.size) else s.number? id' := by
  unfold assign
  split
  next i h =>
    by_cases hid : id = id'
    · subst hid
      simp [h]
    · rw [if_neg hid]
  next h =>
    -- a new id: the lookup table gains one entry
    change (s.lookup.insert id s.size)[id']? = _
    rw [h, Std.TreeMap.getElem?_insert]
    by_cases hid : id = id'
    · subst hid
      simp
    · rw [if_neg (by simpa using hid), if_neg hid]
      rfl

/-- The number that is handed out is the number of the id from then on. -/
theorem number?_assign_self (s : Numbering α) (id : String) :
    (s.assign id).2.number? id = some (s.assign id).1 := by
  rw [number?_assign, if_pos rfl]
  unfold assign
  split
  next h => simp [h]
  next h => simp [h]

/-- A number tells nothing about its method. -/
theorem detail?_assign (s : Numbering α) (id : String) (i : Nat) :
    (s.assign id).2.detail? i = s.detail? i := by
  unfold assign
  split
  · rfl
  · simp only [detail?, Array.getElem?_push]
    split
    next hi =>
      subst hi
      simp
    · rfl

/-- What is known stays known as well. -/
theorem find?_assign (s : Numbering α) (id id' : String) :
    (s.assign id).2.find? id' = s.find? id' := by
  have hdetail : (s.assign id).2.detail? = s.detail? := funext (detail?_assign s id)
  unfold find?
  rw [hdetail, number?_assign]
  by_cases hid : id = id'
  · subst hid
    rw [if_pos rfl]
    cases h : s.number? id with
    | some i => rfl
    | none => exact s.detail?_size
  · rw [if_neg hid]

/-- A description fills the slot at its number, unless the slot is filled already. -/
theorem detail?_describe (s : Numbering α) {i : Nat} (hi : i < s.size) (d : α) (j : Nat) :
    (s.describe i d).detail? j = if i = j then s.detail? j <|> some d else s.detail? j := by
  simp only [describe, detail?, Array.getElem?_modify]
  by_cases hij : i = j
  · subst hij
    have hslot : s.slots[i]? = some s.slots[i] := Array.getElem?_eq_getElem hi
    simp [hslot]
  · simp [hij]

/-- The first description of an id is kept. -/
theorem find?_declare (s : Numbering α) (id : String) (d : α) (id' : String) :
    (s.declare id d).2.find? id' = if id = id' then s.find? id' <|> some d else s.find? id' := by
  have hself := number?_assign_self s id
  have hlt := lt_size_of_id? (number?_eq_some_iff.1 hself)
  have hnumber : (s.declare id d).2.number? = (s.assign id).2.number? := rfl
  rw [← find?_assign s id id', find?, find?, hnumber]
  cases hi : (s.assign id).2.number? id' with
  | none =>
    have hne : id ≠ id' := by
      rintro rfl
      rw [hself] at hi
      cases hi
    rw [if_neg hne]
    rfl
  | some i =>
    -- ids and numbers go one to one, so only `id` is described
    have hiff : (s.assign id).1 = i ↔ id = id' := by
      rw [number?_eq_some_iff] at hself hi
      constructor
      · rintro rfl
        exact Option.some.inj (hself.symm.trans hi)
      · rintro rfl
        exact Option.some.inj ((number?_eq_some_iff.2 hself).symm.trans (number?_eq_some_iff.2 hi))
    simp only [Option.bind_some, declare, detail?_describe _ hlt, hiff]

/-! ### Ids in order -/

/-- The numbered ids, by ascending number. -/
def ids (s : Numbering α) : List String :=
  s.slots.toList.map Slot.id

theorem getElem?_ids (s : Numbering α) (i : Nat) : s.ids[i]? = s.id? i := by
  rw [ids, List.getElem?_map, Array.getElem?_toList]
  rfl

/-- An id is listed if it has a number. -/
theorem mem_ids : id ∈ s.ids ↔ ∃ i, s.number? id = some i := by
  rw [List.mem_iff_getElem?]
  refine exists_congr fun i ↦ ?_
  rw [getElem?_ids, number?_eq_some_iff]

/-- An id that has a number is not numbered again. -/
theorem assign_of_mem_ids (h : id ∈ s.ids) : (s.assign id).2 = s := by
  obtain ⟨i, hi⟩ := mem_ids.1 h
  rw [assign]
  split
  · rfl
  next hnone => cases hnone.symm.trans hi

/-- A new id comes last. -/
theorem ids_assign (s : Numbering α) (id : String) :
    (s.assign id).2.ids = if id ∈ s.ids then s.ids else s.ids ++ [id] := by
  by_cases hid : id ∈ s.ids
  · rw [assign_of_mem_ids hid, if_pos hid]
  · rw [if_neg hid, assign]
    split
    next i hi => exact absurd (mem_ids.2 ⟨i, hi⟩) hid
    next => simp [ids]

/-- A description changes no id. -/
theorem ids_describe (s : Numbering α) (i : Nat) (d : α) : (s.describe i d).ids = s.ids := by
  refine List.ext_getElem? fun j ↦ ?_
  rw [getElem?_ids, getElem?_ids]
  show (s.slots.modify i _)[j]?.map Slot.id = _
  rw [Array.getElem?_modify]
  split
  · rw [Option.map_map]
    rfl
  · rfl

/-- In the order of the ids, a declaration counts as a mention. -/
theorem ids_declare (s : Numbering α) (id : String) (d : α) :
    (s.declare id d).2.ids = (s.assign id).2.ids :=
  ids_describe ..

/-- Whatever numbers one id in each step leaves the ids in order of first appearance. -/
theorem ids_foldl {β : Type} {f : Numbering α → β → Numbering α} (key : β → String)
    (hf : ∀ s b, (f s b).ids = (s.assign (key b)).2.ids) {seen : List String}
    (hseen : s.ids = seen.eraseDups) (l : List β) :
    (l.foldl f s).ids = (seen ++ l.map key).eraseDups := by
  induction l generalizing s seen with
  | nil => simpa using hseen
  | cons b l ih =>
    -- one step appends its key to what has been seen, unless the key is there
    have hstep : (f s b).ids = (seen ++ [key b]).eraseDups := by
      rw [hf, ids_assign, hseen, List.eraseDups_append]
      by_cases hkey : key b ∈ seen <;> simp [List.removeAll, List.eraseDups_cons, hkey]
    rw [List.foldl_cons, ih hstep, List.append_assoc]
    rfl

/-- Mentioning ids that have numbers changes nothing. -/
theorem foldl_assign_of_mem_ids {l : List String} (h : ∀ id ∈ l, id ∈ s.ids) :
    l.foldl (fun s id ↦ (s.assign id).2) s = s := by
  induction l with
  | nil => rfl
  | cons id l ih =>
    rw [List.forall_mem_cons] at h
    rw [List.foldl_cons, assign_of_mem_ids h.1, ih h.2]

/-! ### Whole programs -/

/-- After some descriptions, what is known of an id is what was known before or else the first of
them. -/
theorem find?_foldl_declare (s : Numbering Method) (l : List Method) (id : String) :
    (l.foldl (fun s m ↦ (s.declare m.id m).2) s).find? id =
      (s.find? id <|> l.find? (·.id == id)) := by
  induction l generalizing s with
  | nil => simp
  | cons m l ih =>
    rw [List.foldl_cons, ih, find?_declare, List.find?_cons]
    by_cases hid : m.id = id
    · simp [hid]
    · rw [if_neg hid, beq_false_of_ne hid]

/-- Mentioning ids tells nothing about any of them. -/
theorem find?_foldl_assign (s : Numbering α) (l : List String) (id : String) :
    (l.foldl (fun s id ↦ (s.assign id).2) s).find? id = s.find? id := by
  induction l generalizing s with
  | nil => rfl
  | cons a l ih => rw [List.foldl_cons, ih, find?_assign]

/-- An id that is mentioned has a number from then on. -/
theorem exists_number?_foldl_assign {l : List String} (h : id ∈ l ∨ ∃ i, s.number? id = some i) :
    ∃ i, (l.foldl (fun s id ↦ (s.assign id).2) s).number? id = some i := by
  induction l generalizing s with
  | nil => exact h.elim nofun fun h ↦ h
  | cons a l ih =>
    refine ih ?_
    by_cases ha : a = id
    · subst ha
      exact .inr ⟨_, number?_assign_self s a⟩
    · refine h.imp (fun hmem ↦ (List.mem_cons.1 hmem).resolve_left (Ne.symm ha)) ?_
      rintro ⟨i, hi⟩
      exact ⟨i, by rw [number?_assign, if_neg ha, hi]⟩

end Numbering

namespace Program

variable {p : Program} {id caller callee : String}

/-- The first description of a method. -/
def method? (p : Program) (id : String) : Option Method :=
  p.methods.find? (·.id == id)

/-- Can the method be called from outside, by its first description? -/
def isEntry (p : Program) (id : String) : Bool :=
  (p.method? id).any Method.isEntry

/-- **What is known of a method is its first description.** -/
theorem find?_numbering (p : Program) (id : String) : p.numbering.find? id = p.method? id := by
  rw [numbering, Numbering.find?_foldl_assign, declared, Numbering.find?_foldl_declare]
  rfl

/-- Every id that is mentioned anywhere in the program has a number. -/
theorem exists_number? (h : id ∈ p.mentioned) : ∃ i, p.numbering.number? id = some i :=
  Numbering.exists_number?_foldl_assign (.inl h)

/-- Both ends of a call have a number. -/
theorem exists_number?_of_mem_edges (h : (caller, callee) ∈ p.edges) :
    (∃ v, p.numbering.number? caller = some v) ∧ ∃ u, p.numbering.number? callee = some u := by
  have hends : ∀ id ∈ [caller, callee], id ∈ p.mentioned := by
    intro id hid
    refine List.mem_append_left _ (List.mem_append_left _ ?_)
    exact List.mem_flatMap.2 ⟨_, h, hid⟩
  exact ⟨exists_number? (hends caller (by simp)), exists_number? (hends callee (by simp))⟩

/-- The described ids are numbered in order of their first descriptions. -/
theorem ids_declared (p : Program) : p.declared.ids = (p.methods.map Method.id).eraseDups :=
  have hempty : (Numbering.empty : Numbering Method).ids = [].eraseDups := rfl
  Numbering.ids_foldl Method.id (fun s m ↦ s.ids_declare m.id m) hempty p.methods

/-- **The ids of a program are numbered in order of first appearance**, the described ones first. -/
theorem ids_numbering (p : Program) :
    p.numbering.ids = (p.methods.map Method.id ++ p.mentioned).eraseDups := by
  have h := Numbering.ids_foldl (fun id ↦ id) (fun _ _ ↦ rfl) p.ids_declared p.mentioned
  rwa [List.map_id'] at h

/-- If every id that is mentioned is described, then the descriptions number all methods. -/
theorem numbering_eq_declared (h : ∀ id ∈ p.mentioned, id ∈ p.methods.map Method.id) :
    p.numbering = p.declared := by
  refine Numbering.foldl_assign_of_mem_ids fun id hid ↦ ?_
  rw [ids_declared, List.mem_eraseDups]
  exact h id hid

/-- The numbered calls are the calls both of whose ends have numbers. -/
theorem mem_numberedEdges {s : Numbering Method} {u v : Nat} :
    (v, u) ∈ p.numberedEdges s ↔
      ∃ e ∈ p.edges, s.number? e.1 = some v ∧ s.number? e.2 = some u := by
  unfold numberedEdges
  rw [List.mem_filterMap]
  refine exists_congr fun e ↦ and_congr_right fun _ ↦ ?_
  cases hv : s.number? e.1 <;> cases hu : s.number? e.2 <;> simp [hv, hu]

end Program

end HazardTrace
