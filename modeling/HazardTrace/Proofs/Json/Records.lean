import HazardTrace.Json.Basic
import HazardTrace.Proofs.Json.RoundTrip
import Mathlib.Data.List.Forall2
import Mathlib.Data.List.Nodup

/-!
# Records in any key order

The fields of an object have no order that matters. `Reorders` relates a value to those that differ
from it in the order of fields only, at any depth; the items of arrays stay where they are. A
decoder of records should not see the difference, and this module says so of the two ways in which
decoders look at values.

* `Reorders.record?_eq`: a record that has all its fields, each once, is decoded from any
  reordering, with the values of its fields in the order of their names. The values are reorderings
  in turn, so a decoder of nested records is treated from the inside outwards. It rests on
  `record?_eq_of_perm` for the order and on `record?_keys` for the values: a field whose key is not
  repeated is found (`field?_of_mem`).
* `Reorders.listOf?_eq`: a list is decoded if its members are. Here the decoder of the members is an
  argument, and the hypothesis on it is exactly what the modules on records prove.

That no key is repeated is needed. An object with a repeated key has no value for that key, by the
rule that decoding follows (`field?`).

A value without fields (`Plain`) has no reordering but itself, which gives the shorter form
`Reorders.record?_eq_of_plain` for records that hold no others. Reordering does not affect whether a
value can be written (`Reorders.writable`).
-/

namespace HazardTrace

namespace Json

/-- The second value is the first with the fields of its objects in another order, at any depth. -/
inductive Reorders : Json → Json → Prop
  | refl (v : Json) : Reorders v v
  | arr {vs ws : List Json} (hlength : vs.length = ws.length)
      (h : ∀ p ∈ vs.zip ws, Reorders p.1 p.2) : Reorders (.arr vs) (.arr ws)
  | obj {fs gs gs' : List (String × Json)} (hkeys : fs.map Prod.fst = gs.map Prod.fst)
      (h : ∀ p ∈ fs.zip gs, Reorders p.1.2 p.2.2) (hperm : gs.Perm gs') :
      Reorders (.obj fs) (.obj gs')

variable {v w : Json} {vs : List Json} {fs gs : List (String × Json)}

/-! ### Reordered values -/

/-- Fields with the same keys are as many. -/
theorem length_eq_of_keys_eq (h : fs.map Prod.fst = gs.map Prod.fst) : fs.length = gs.length := by
  simpa using congrArg List.length h

/-- A member of the second list of a pair has a partner in the first. -/
theorem exists_mem_zip {α β : Type} {l : List α} {l' : List β} (hlength : l.length = l'.length)
    {b : β} (hb : b ∈ l') : ∃ a ∈ l, (a, b) ∈ l.zip l' := by
  rw [← List.map_snd_zip (Nat.le_of_eq hlength.symm), List.mem_map] at hb
  obtain ⟨⟨a, _⟩, hp, rfl⟩ := hb
  exact ⟨a, (List.of_mem_zip hp).1, hp⟩

/-- A value that can be written can be written in any order. -/
theorem Reorders.writable (h : Reorders v w) (hv : Writable v) : Writable w := by
  induction h with
  | refl => exact hv
  | @arr vs ws hlength _ ih =>
    cases hv with
    | arr hvs =>
      refine .arr fun w hw ↦ ?_
      obtain ⟨v, hv, hp⟩ := exists_mem_zip hlength hw
      exact ih (v, w) hp (hvs v hv)
  | @obj fs gs gs' hkeys _ hperm ih =>
    cases hv with
    | obj hfs =>
      refine .obj fun g hg ↦ ?_
      obtain ⟨f, hf, hp⟩ := exists_mem_zip (length_eq_of_keys_eq hkeys) (hperm.mem_iff.2 hg)
      exact ih (f, g) hp (hfs f hf)

/-- The reorderings of an array are the arrays of reorderings of its items, in the same order. -/
theorem Reorders.items (h : Reorders (.arr vs) w) :
    ∃ ws, w = .arr ws ∧ List.Forall₂ Reorders vs ws := by
  cases h with
  | refl => exact ⟨vs, rfl, List.forall₂_same.2 fun v _ ↦ .refl v⟩
  | arr hlength h => exact ⟨_, rfl, List.forall₂_iff_zip.2 ⟨hlength, fun hp ↦ h _ hp⟩⟩

/-- A value without fields, in which there is nothing to reorder. -/
inductive Plain : Json → Prop
  | null : Plain .null
  | bool (b : Bool) : Plain (.bool b)
  | str (s : String) : Plain (.str s)

/-- Plain values can be written. -/
theorem Plain.writable (h : Plain v) : Writable v := by
  cases h with
  | null => exact .null
  | bool b => exact .bool b
  | str s => exact .str s

/-- In a plain value there is nothing to reorder. -/
theorem Reorders.eq_of_plain (h : Reorders v w) (hv : Plain v) : w = v := by
  cases hv with
  | null | bool _ | str _ => cases h; rfl

theorem eq_of_forall_plain {ws : List Json} (h : List.Forall₂ Reorders vs ws)
    (hvs : ∀ v ∈ vs, Plain v) : ws = vs := by
  induction h with
  | nil => rfl
  | cons hv _ ih =>
    obtain ⟨hplain, hrest⟩ := List.forall_mem_cons.1 hvs
    rw [hv.eq_of_plain hplain, ih hrest]

/-! ### Fields -/

/-- What is found under a key does not depend on the order: there is no such field, or one, or it is
repeated, and a permutation keeps the number. -/
theorem field?_eq_of_perm (h : fs.Perm gs) (name : String) : field? fs name = field? gs name := by
  have hperm := h.filter (·.1 == name)
  rw [field?, field?]
  generalize fs.filter (·.1 == name) = l at hperm
  generalize gs.filter (·.1 == name) = l' at hperm
  -- `field?` tells apart no, one and several fields of a name
  match l, l', hperm with
  | [], l', hperm => rw [List.nil_perm.1 hperm]
  | [f], l', hperm => rw [List.singleton_perm.1 hperm]
  | _ :: _ :: _, [], hperm | _ :: _ :: _, [_], hperm => simpa using hperm.length_eq
  | _ :: _ :: _, _ :: _ :: _, _ => rfl

/-- A record has the same fields in any order. -/
theorem record?_eq_of_perm (h : fs.Perm gs) (names : List String) :
    record? names (.obj fs) = record? names (.obj gs) := by
  have hfield : field? fs = field? gs := funext (field?_eq_of_perm h)
  rw [record?, record?, hfield]

/-- A field whose key is not repeated has its value. -/
theorem field?_of_mem (hkeys : (fs.map Prod.fst).Nodup) {k : String} (h : (k, v) ∈ fs) :
    field? fs k = some (some v) := by
  have hfilter : fs.filter (·.1 == k) = [(k, v)] := by
    induction fs with
    | nil => cases h
    | cons f fs ih =>
      rw [List.map_cons, List.nodup_cons] at hkeys
      rcases List.mem_cons.1 h with rfl | hmem
      · have hnone : fs.filter (·.1 == k) = [] := by
          rw [List.filter_eq_nil_iff]
          intro g hg hgk
          exact hkeys.1 (List.mem_map.2 ⟨g, hg, beq_iff_eq.1 hgk⟩)
        rw [List.filter_cons_of_pos (by simp), hnone]
      · have hne : f.1 ≠ k := by
          rintro rfl
          exact hkeys.1 (List.mem_map.2 ⟨_, hmem, rfl⟩)
        rw [List.filter_cons_of_neg (by simpa using hne), ih hkeys.2 hmem]
  rw [field?, hfilter]

/-- An object that repeats no key has all the fields that its own keys ask for. -/
theorem record?_keys (hkeys : (fs.map Prod.fst).Nodup) :
    record? (fs.map Prod.fst) (.obj fs) = some ((fs.map Prod.snd).map some) := by
  -- for a part of the keys, while the object stays whole
  have hpart : ∀ gs ⊆ fs,
      (gs.map Prod.fst).mapM (field? fs) = some ((gs.map Prod.snd).map some) := by
    intro gs hgs
    induction gs with
    | nil => rfl
    | cons g gs ih =>
      have hg : (g.1, g.2) ∈ fs := hgs List.mem_cons_self
      have hrest := ih fun g' hg' ↦ hgs (List.mem_cons_of_mem g hg')
      rw [List.map_cons, List.mapM_cons, field?_of_mem hkeys hg, hrest]
      rfl
  exact hpart fs (List.Subset.refl fs)

/-- **A record is decoded whatever the order of its fields.** -/
theorem Reorders.record?_eq (h : Reorders (.obj fs) w) (hkeys : (fs.map Prod.fst).Nodup) :
    ∃ ws, record? (fs.map Prod.fst) w = some (ws.map some) ∧
      List.Forall₂ Reorders (fs.map Prod.snd) ws := by
  cases h with
  | refl => exact ⟨_, record?_keys hkeys, List.forall₂_same.2 fun v _ ↦ .refl v⟩
  | @obj _ gs gs' hsame h hperm =>
    refine ⟨gs.map Prod.snd, ?_, ?_⟩
    · rw [← record?_eq_of_perm hperm, hsame]
      exact record?_keys (hsame ▸ hkeys)
    · rw [List.forall₂_map_left_iff, List.forall₂_map_right_iff]
      exact List.forall₂_iff_zip.2 ⟨length_eq_of_keys_eq hsame, fun hp ↦ h _ hp⟩

/-- A record of plain values is decoded as it was written. -/
theorem Reorders.record?_eq_of_plain (h : Reorders (.obj fs) w) (hkeys : (fs.map Prod.fst).Nodup)
    (hfs : ∀ v ∈ fs.map Prod.snd, Plain v) :
    record? (fs.map Prod.fst) w = some ((fs.map Prod.snd).map some) := by
  obtain ⟨ws, hrecord, hws⟩ := h.record?_eq hkeys
  rw [hrecord, eq_of_forall_plain hws hfs]

/-! ### Lists -/

/-- **A list is decoded if its members are**, in whatever order their fields stand. -/
theorem Reorders.listOf?_eq {α : Type} {encode : α → Json} {decode : Json → Option α}
    (hdecode : ∀ a w, Reorders (encode a) w → decode w = some a) {l : List α}
    (h : Reorders (.arr (l.map encode)) w) : listOf? decode w = some l := by
  obtain ⟨ws, rfl, hws⟩ := h.items
  clear h
  rw [List.forall₂_map_left_iff] at hws
  rw [listOf?]
  induction hws with
  | nil => rfl
  | @cons a w l ws hw _ ih =>
    rw [List.mapM_cons, hdecode a w hw, ih]
    rfl

end Json

end HazardTrace
