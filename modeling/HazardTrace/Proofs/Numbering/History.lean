import HazardTrace.Proofs.Ordering
import HazardTrace.Proofs.Program.Numbering

/-!
# The history of a numbering

Every numbering comes about by requests, each of which names an id and may describe it (`Request`).
The main statement, `numbered_by_requests`, reads the whole numbering off the list of requests. Two
facts carry it, each of them about one request:

* the ids only grow at the end (`ids_prefix_serve`), so that a number keeps its id;
* what is known of an id is what was known before, or else what the request says of it
  (`find?_serve`), so that the first description counts.

Both are carried along the list of requests (`ids_prefix_serveAll`, `find?_serveAll`). A request
that has been answered is one that stands in the middle of the list; its number still names its id
at the end, because the ids at that time are the first ones of the ids at the end (`id?_of_prefix`).

What is known is kept under ids and looked up by numbers as well. The two agree, since numbers and
ids go one to one (`detail?_eq_bind`).

The number of described ids is not counted along the requests. The ids of the resolved numbers are
the described ids, each of them once (`resolvedCount_eq`), and a request that describes an id a
second time adds nothing to either side.
-/

namespace HazardTrace

namespace Numbering

variable {α : Type}

/-- A request to a numbering. -/
inductive Request (α : Type) where
  /-- The id is mentioned. -/
  | assign (id : String)
  /-- The id is described. -/
  | declare (id : String) (detail : α)

namespace Request

/-- The id that a request names. -/
def id : Request α → String
  | .assign id | .declare id _ => id

/-- What a request says of an id. -/
def detailOf? (id : String) : Request α → Option α
  | .assign _ => none
  | .declare id' detail => if id' = id then some detail else none

/-- The id that a request describes. -/
def described? : Request α → Option String
  | .assign _ => none
  | .declare id _ => some id

end Request

/-- Answers a request with the number of its id. -/
def serve (s : Numbering α) : Request α → Nat × Numbering α
  | .assign id => s.assign id
  | .declare id detail => s.declare id detail

/-- The numbering after some requests, in order. -/
def serveAll (s : Numbering α) (requests : List (Request α)) : Numbering α :=
  requests.foldl (fun s r ↦ (s.serve r).2) s

variable {s s' : Numbering α} {id : String} {i : Nat} {d : α}

/-! ### One request -/

/-- A description brings the same ids as a mention. -/
theorem ids_serve (s : Numbering α) (r : Request α) :
    (s.serve r).2.ids = (s.assign r.id).2.ids := by
  rcases r with id | ⟨id, detail⟩
  · rfl
  · exact ids_declare s id detail

/-- A request adds its id at the end, or nothing. -/
theorem ids_prefix_serve (s : Numbering α) (r : Request α) : s.ids <+: (s.serve r).2.ids := by
  rw [ids_serve, ids_assign]
  split
  · exact List.prefix_refl _
  · exact List.prefix_append _ _

/-- The answer is the number of the id. -/
theorem number?_serve (s : Numbering α) (r : Request α) :
    (s.serve r).2.number? r.id = some (s.serve r).1 := by
  rcases r with id | ⟨id, detail⟩
  · exact number?_assign_self s id
  · exact number?_assign_self s id

/-- The first description of an id counts. -/
theorem find?_serve (s : Numbering α) (r : Request α) (id : String) :
    (s.serve r).2.find? id = (s.find? id <|> r.detailOf? id) := by
  rcases r with id' | ⟨id', detail⟩
  · show (s.assign id').2.find? id = (s.find? id <|> none)
    rw [find?_assign]
    simp
  · show (s.declare id' detail).2.find? id = (s.find? id <|> if id' = id then some detail else none)
    rw [find?_declare]
    split
    · rfl
    · simp

/-! ### Many requests -/

theorem ids_prefix_serveAll (s : Numbering α) (requests : List (Request α)) :
    s.ids <+: (s.serveAll requests).ids := by
  induction requests generalizing s with
  | nil => exact List.prefix_refl _
  | cons r requests ih => exact (ids_prefix_serve s r).trans (ih _)

theorem find?_serveAll (s : Numbering α) (requests : List (Request α)) (id : String) :
    (s.serveAll requests).find? id =
      (s.find? id <|> requests.findSome? (Request.detailOf? id)) := by
  induction requests generalizing s with
  | nil => simp [serveAll]
  | cons r requests ih =>
    show ((s.serve r).2.serveAll requests).find? id = _
    rw [ih, find?_serve, List.findSome?_cons]
    cases s.find? id <;> cases r.detailOf? id <;> rfl

/-- A number keeps its id while ids are added at the end. -/
theorem id?_of_prefix (h : s.ids <+: s'.ids) (hi : s.id? i = some id) : s'.id? i = some id := by
  rw [← getElem?_ids] at hi ⊢
  obtain ⟨rest, hrest⟩ := h
  obtain ⟨hlt, -⟩ := List.getElem?_eq_some_iff.1 hi
  rw [← hrest, List.getElem?_append_left hlt, hi]

/-! ### Resolved numbers -/

/-- What is known of a number is what is known of its id. -/
theorem detail?_eq_bind (s : Numbering α) (i : Nat) : s.detail? i = (s.id? i).bind s.find? := by
  cases hid : s.id? i with
  | some id => exact (find?_eq_detail? hid).symm
  | none =>
    have hslot : s.slots[i]? = none := Option.map_eq_none_iff.1 hid
    rw [detail?, hslot]
    rfl

/-- Resolved numbers are listed in ascending order. -/
theorem pairwise_resolved (s : Numbering α) : s.resolved.Pairwise fun p q ↦ p.1 < q.1 := by
  refine pairwise_filterMap_zipIdx fun p q hq ↦ ?_
  obtain ⟨detail, -, rfl⟩ := Option.map_eq_some_iff.1 hq
  rfl

/-- A resolved number names an id of which something is known. -/
theorem id?_of_mem_resolved (h : (i, d) ∈ s.resolved) :
    s.id? i = some (s.name i) ∧ s.find? (s.name i) = some d := by
  rw [mem_resolved, detail?_eq_bind] at h
  obtain ⟨id, hid, hfind⟩ := Option.bind_eq_some_iff.1 h
  have hname : s.name i = id := by rw [name, hid]; rfl
  rw [hname]
  exact ⟨hid, hfind⟩

/-- **There are as many resolved numbers as ids of which something is known.** -/
theorem resolvedCount_eq {l : List String} (hl : ∀ id, id ∈ l ↔ (s.find? id).isSome = true) :
    s.resolvedCount = l.dedup.length := by
  have hnodup : (s.resolved.map fun p ↦ s.name p.1).Nodup := by
    refine List.pairwise_map.2 (s.pairwise_resolved.imp_of_mem fun {p q} hp hq hlt heq ↦ ?_)
    have hi := (id?_of_mem_resolved hp).1
    rw [heq] at hi
    exact Nat.ne_of_lt hlt (eq_of_id? hi (id?_of_mem_resolved hq).1)
  have hmem : ∀ id, (id ∈ s.resolved.map fun p ↦ s.name p.1) ↔ id ∈ l.dedup := by
    intro id
    rw [List.mem_dedup, hl, List.mem_map]
    constructor
    · rintro ⟨⟨i, d⟩, hp, rfl⟩
      rw [(id?_of_mem_resolved hp).2]
      rfl
    · intro hsome
      obtain ⟨d, hd⟩ := Option.isSome_iff_exists.1 hsome
      obtain ⟨i, hi, hdetail⟩ := Option.bind_eq_some_iff.1 hd
      have hid := number?_eq_some_iff.1 hi
      refine ⟨(i, d), mem_resolved.2 hdetail, ?_⟩
      rw [name, hid]
      rfl
  have hperm := (List.perm_ext_iff_of_nodup hnodup l.nodup_dedup).2 hmem
  rw [← hperm.length_eq, List.length_map]
  rfl

theorem mem_described_iff (requests : List (Request α)) (id : String) :
    id ∈ requests.filterMap Request.described? ↔
      (requests.findSome? (Request.detailOf? id)).isSome = true := by
  rw [List.mem_filterMap, List.findSome?_isSome_iff]
  refine exists_congr fun r ↦ and_congr_right fun _ ↦ ?_
  rcases r with id' | ⟨id', detail⟩
  · exact iff_of_false nofun nofun
  · show some id' = some id ↔ (if id' = id then some detail else none).isSome = true
    by_cases hid : id' = id <;> simp [hid]

/-- **A numbering is determined by its requests.** The numbers are those below the number of
different ids, given in order of first appearance. Looking up a number and looking up an id are
inverse to each other, and a number that was answered once names its id ever after. What is known of
a number is the first description of its id. The resolved numbers, in ascending order, are those of
which something is known, and there are as many of them as different ids were described. -/
theorem numbered_by_requests (requests : List (Request α)) :
    let s := (empty : Numbering α).serveAll requests
    let ids := (requests.map Request.id).eraseDups
    s.size = ids.length ∧
    (∀ i, s.id? i = ids[i]?) ∧
    (∀ id i, s.number? id = some i ↔ s.id? i = some id) ∧
    (∀ before r after, requests = before ++ r :: after →
      s.id? (((empty : Numbering α).serveAll before).serve r).1 = some r.id) ∧
    (∀ i, s.detail? i = (s.id? i).bind fun id ↦ requests.findSome? (Request.detailOf? id)) ∧
    s.resolvedCount = (requests.filterMap Request.described?).dedup.length ∧
    (s.resolved.map Prod.fst).Pairwise (· < ·) ∧
    ∀ i d, (i, d) ∈ s.resolved ↔ s.detail? i = some d := by
  intro s ids
  have hempty : (empty : Numbering α).ids = [].eraseDups := rfl
  have hids : s.ids = ids := ids_foldl Request.id ids_serve hempty requests
  have hfind : ∀ id, s.find? id = requests.findSome? (Request.detailOf? id) := fun id ↦
    find?_serveAll empty requests id
  refine ⟨?_, fun i ↦ ?_, fun id i ↦ number?_eq_some_iff, ?_, fun i ↦ ?_,
    resolvedCount_eq fun id ↦ ?_, List.pairwise_map.2 s.pairwise_resolved, fun i d ↦ mem_resolved⟩
  · rw [← hids, Numbering.ids, List.length_map, Array.length_toList]
    rfl
  · rw [← hids, getElem?_ids]
  · rintro before r after rfl
    have hanswer := number?_eq_some_iff.1 (number?_serve ((empty : Numbering α).serveAll before) r)
    have hsplit : s = (((empty : Numbering α).serveAll before).serve r).2.serveAll after :=
      List.foldl_append
    rw [hsplit]
    exact id?_of_prefix (ids_prefix_serveAll _ after) hanswer
  · rw [detail?_eq_bind]
    exact congrArg _ (funext hfind)
  · rw [mem_described_iff, hfind]

/-- An id is mentioned, and described twice later on. -/
def lateDetail : List (Request Nat) :=
  [.assign "late", .declare "known" 1, .declare "late" 2, .declare "late" 3, .assign "known"]

/-- It has the first number and the first of its two descriptions, and the number that the second
request was answered with still names its id. -/
theorem numbered_by_requests_lateDetail :
    let s := (empty : Numbering Nat).serveAll lateDetail
    s.number? "late" = some 0 ∧ s.detail? 0 = some 2 ∧ s.size = 2 ∧ s.resolvedCount = 2 ∧
      s.id? (((empty : Numbering Nat).serveAll [.assign "late"]).serve (.declare "known" 1)).1 =
        some "known" := by
  obtain ⟨hsize, hid, hnumber, hanswer, hdetail, hcount, -⟩ := numbered_by_requests lateDetail
  have hlate : ((empty : Numbering Nat).serveAll lateDetail).id? 0 = some "late" := by
    rw [hid]
    decide
  refine ⟨(hnumber _ _).2 hlate, ?_, hsize.trans (by decide), hcount.trans (by decide),
    hanswer [.assign "late"] (.declare "known" 1) _ rfl⟩
  rw [hdetail, hlate]
  decide

end Numbering

end HazardTrace
