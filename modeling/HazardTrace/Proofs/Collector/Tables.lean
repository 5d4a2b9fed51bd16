import HazardTrace.Collector.Clerk
import HazardTrace.Proofs.Ordering

/-!
# Tables that are changed one entry at a time

A table lists its keys in ascending order, each with an entry. `Table.update` changes the entry of
one key and leaves all others alone (`get?_update`), and it keeps the order (`ordered_update`).
Since a table in order is determined by its entries (`eq_of_get?`), a table that has been built up
by updates can be compared with one that is written down at once.

The comparison is `foldr_update_eq`. Let items be entered one after the other, each under its key.
Then the keys of the table are those of the items in ascending order, and the entry of a key is what
the items of that key alone have made of it, in the order in which they came. It rests on
`get?_foldr_update`, which is by induction on the items, and on nothing about the order of arrival.

Two kinds of table are used throughout: one that counts how often a key was entered comes to a
`tally` (`foldr_count`), and one that is a set lists its members as `ascending` does (`foldr_add`).
-/

namespace HazardTrace

namespace Table

variable {α β ι : Type} {a b : α} {t t' : List (α × β)}

/-! ### Lookup -/

section Lookup

variable [DecidableEq α]

/-- A key that is not there has no entry. -/
theorem get?_eq_none (h : ∀ p ∈ t, p.1 ≠ a) : get? a t = none := by
  induction t with
  | nil => rfl
  | cons p t ih =>
    rw [get?, if_neg (h p List.mem_cons_self).symm]
    exact ih fun q hq ↦ h q (List.mem_cons_of_mem p hq)

/-- The entries of a table that is written down key by key. -/
theorem get?_map_keys {l : List α} (g : α → β) :
    get? a (l.map fun b ↦ (b, g b)) = if a ∈ l then some (g a) else none := by
  induction l with
  | nil => rfl
  | cons b l ih =>
    rw [List.map_cons, get?, ih]
    by_cases hab : a = b
    · subst hab
      simp
    · simp [hab]

end Lookup

/-! ### Order -/

section Order

variable [LT α]

/-- The keys of a table ascend. -/
def Ordered (t : List (α × β)) : Prop :=
  t.Pairwise fun p q ↦ p.1 < q.1

variable [LE α] [Std.IsLinearOrder α] [Std.LawfulOrderLT α] [DecidableEq α]

/-- What comes before the first key has no entry. -/
theorem get?_eq_none_of_lt {p : α × β} (h : Ordered (p :: t)) (ha : a < p.1) :
    get? a (p :: t) = none := by
  refine get?_eq_none fun q hq heq ↦ ?_
  rcases List.mem_cons.1 hq with rfl | hq
  · exact Std.lt_irrefl (heq ▸ ha)
  · exact Std.lt_irrefl (heq ▸ Std.lt_trans ha ((List.pairwise_cons.1 h).1 q hq))

/-- A table whose entries are in another one does not begin before it. -/
theorem not_lt_of_get?_eq {p q : α × β} (h : Ordered (q :: t'))
    (heq : ∀ a, get? a (p :: t) = get? a (q :: t')) : ¬ p.1 < q.1 := by
  intro hlt
  have hnone := heq p.1
  rw [get?_eq_none_of_lt h hlt, get?, if_pos rfl] at hnone
  cases hnone

omit [Std.IsLinearOrder α] in
/-- The first key has no entry further on. -/
theorem get?_tail_eq_none {p : α × β} (h : Ordered (p :: t)) : get? p.1 t = none :=
  get?_eq_none fun q hq ↦ (Std.ne_of_lt ((List.pairwise_cons.1 h).1 q hq)).symm

/-- **A table is determined by its entries.** -/
theorem eq_of_get? (h : Ordered t) (h' : Ordered t') (heq : ∀ a, get? a t = get? a t') : t = t' := by
  induction t generalizing t' with
  | nil =>
    cases t' with
    | nil => rfl
    | cons q t' =>
      have hnone := heq q.1
      rw [get?, get?, if_pos rfl] at hnone
      cases hnone
  | cons p t ih =>
    cases t' with
    | nil =>
      have hnone := heq p.1
      rw [get?, get?, if_pos rfl] at hnone
      cases hnone
    | cons q t' =>
      have hkey : p.1 = q.1 := Std.le_antisymm
        (Std.not_lt.1 (not_lt_of_get?_eq h fun a ↦ (heq a).symm))
        (Std.not_lt.1 (not_lt_of_get?_eq h' heq))
      have hvalue := heq p.1
      rw [get?, get?, if_pos rfl, if_pos hkey] at hvalue
      obtain rfl : p = q := Prod.ext hkey (Option.some.inj hvalue)
      refine congrArg (p :: ·) (ih h.of_cons h'.of_cons fun a ↦ ?_)
      by_cases ha : a = p.1
      · subst ha
        rw [get?_tail_eq_none h, get?_tail_eq_none h']
      · have hrest := heq a
        rwa [get?, get?, if_neg ha, if_neg ha] at hrest

end Order

/-! ### Updates -/

section Update

variable [LE α] [Std.IsLinearOrder α] [LT α] [Std.LawfulOrderLT α] [DecidableLT α] [DecidableEq α]

omit [LE α] [Std.IsLinearOrder α] [Std.LawfulOrderLT α] in
/-- The keys of a table after an update. -/
theorem fst_mem_update {f : Option β → β} {p : α × β} (h : p ∈ update a f t) :
    p.1 = a ∨ ∃ q ∈ t, q.1 = p.1 := by
  induction t with
  | nil =>
    rw [update, List.mem_singleton] at h
    exact .inl (by rw [h])
  | cons q t ih =>
    rw [update] at h
    split at h
    · rcases List.mem_cons.1 h with rfl | h
      · exact .inr ⟨q, List.mem_cons_self, rfl⟩
      · exact .inr ⟨p, List.mem_cons_of_mem q h, rfl⟩
    · split at h
      · rcases List.mem_cons.1 h with rfl | h
        · exact .inl rfl
        · exact .inr ⟨p, h, rfl⟩
      · rcases List.mem_cons.1 h with rfl | h
        · exact .inr ⟨q, List.mem_cons_self, rfl⟩
        · exact (ih h).imp_right fun ⟨x, hx, heq⟩ ↦ ⟨x, List.mem_cons_of_mem q hx, heq⟩

/-- An update keeps a table in order. -/
theorem ordered_update (h : Ordered t) (a : α) (f : Option β → β) : Ordered (update a f t) := by
  induction t with
  | nil => exact List.pairwise_singleton ..
  | cons p t ih =>
    obtain ⟨hp, ht⟩ := List.pairwise_cons.1 h
    rw [update]
    split
    · exact List.pairwise_cons.2 ⟨hp, ht⟩
    next hne =>
      split
      next hlt =>
        refine List.pairwise_cons.2 ⟨fun q hq ↦ ?_, h⟩
        rcases List.mem_cons.1 hq with rfl | hq
        · exact hlt
        · exact Std.lt_trans hlt (hp q hq)
      next hlt =>
        refine List.pairwise_cons.2 ⟨fun q hq ↦ ?_, ih ht⟩
        rcases fst_mem_update hq with heq | ⟨x, hx, heq⟩
        · rw [heq]
          exact Std.lt_of_le_of_ne (Std.not_lt.1 hlt) fun h ↦ hne h.symm
        · rw [← heq]
          exact hp x hx

/-- **An update changes the entry of its key and no other.** -/
theorem get?_update (h : Ordered t) (a b : α) (f : Option β → β) :
    get? b (update a f t) = if b = a then some (f (get? a t)) else get? b t := by
  induction t with
  | nil => rfl
  | cons p t ih =>
    rw [update]
    split
    next heq =>
      subst heq
      rw [get?, get?, get?, if_pos rfl]
      split <;> rfl
    next hne =>
      split
      next hlt =>
        rw [get?_eq_none_of_lt h hlt]
        rfl
      next hlt =>
        rw [get?, get?, get?, ih h.of_cons, if_neg hne]
        by_cases hb : b = p.1
        · rw [if_pos hb, if_pos hb, if_neg fun hba : b = a ↦ hne (hba.symm.trans hb)]
        · rw [if_neg hb, if_neg hb]

/-! ### Items entered one after the other -/

theorem ordered_foldr_update (key : ι → α) (step : ι → Option β → β) (items : List ι) :
    Ordered (items.foldr (fun i t ↦ update (key i) (step i) t) []) := by
  induction items with
  | nil => exact List.Pairwise.nil
  | cons i items ih => exact ordered_update ih (key i) (step i)

/-- The entry of a key is what the items of that key have made of it. -/
theorem get?_foldr_update (key : ι → α) (step : ι → Option β → β) (items : List ι) (a : α) :
    get? a (items.foldr (fun i t ↦ update (key i) (step i) t) []) =
      (items.filter (key · == a)).foldr (fun i entry ↦ some (step i entry)) none := by
  induction items with
  | nil => rfl
  | cons i items ih =>
    rw [List.foldr_cons, get?_update (ordered_foldr_update key step items), List.filter_cons]
    by_cases hi : key i = a
    · subst hi
      rw [if_pos rfl, ih, if_pos (beq_self_eq_true _), List.foldr_cons]
    · rw [if_neg fun h ↦ hi h.symm, ih, if_neg (by simpa using hi)]

variable [DecidableLE α]

/-- **A table that is built up by updates**, written down at once. -/
theorem foldr_update_eq (key : ι → α) (f : ι → β → β) (init : β) (items : List ι) :
    items.foldr (fun i t ↦ update (key i) (fun entry ↦ f i (entry.getD init)) t) [] =
      (ascending (items.map key)).map fun a ↦ (a, (items.filter (key · == a)).foldr f init) := by
  -- without an item there is no entry, and from the first one on there is
  have hentry : ∀ l : List ι, l.foldr (fun i entry ↦ some (f i (entry.getD init))) none =
      if l = [] then none else some (l.foldr f init) := by
    intro l
    induction l with
    | nil => rfl
    | cons i l ih =>
      rw [List.foldr_cons, ih, if_neg (List.cons_ne_nil i l), List.foldr_cons]
      split
      next hl =>
        subst hl
        rfl
      · rfl
  refine eq_of_get? (ordered_foldr_update ..) ?_ fun a ↦ ?_
  · exact List.pairwise_map.2 (pairwise_lt_ascending _)
  · rw [get?_foldr_update, get?_map_keys, hentry]
    by_cases hmem : a ∈ items.map key
    · obtain ⟨i, hi, heq⟩ := List.mem_map.1 hmem
      have hsome : i ∈ items.filter (key · == a) := List.mem_filter.2 ⟨hi, beq_iff_eq.2 heq⟩
      rw [if_pos (mem_ascending.2 hmem), if_neg (List.ne_nil_of_mem hsome)]
    · have hnone : items.filter (key · == a) = [] :=
        List.filter_eq_nil_iff.2 fun i hi heq ↦ hmem (List.mem_map.2 ⟨i, hi, beq_iff_eq.1 heq⟩)
      rw [if_neg fun h ↦ hmem (mem_ascending.1 h), if_pos hnone]

/-- Counting one at a time gives the numbers of occurrences. -/
theorem foldr_count (key : ι → α) (items : List ι) :
    items.foldr (fun i t ↦ count (key i) t) [] = tally (items.map key) := by
  have hlength : ∀ l : List ι, l.foldr (fun _ n ↦ n + 1) 0 = l.length := by
    intro l
    induction l with
    | nil => rfl
    | cons i l ih => rw [List.foldr_cons, ih, List.length_cons]
  refine (foldr_update_eq key (fun _ n ↦ n + 1) 0 items).trans (List.map_congr_left fun a _ ↦ ?_)
  rw [hlength, List.count, List.countP_map, List.countP_eq_length_filter]
  rfl

/-- Adding one at a time gives the members in order. -/
theorem foldr_add (key : ι → α) (items : List ι) :
    items.foldr (fun i t ↦ add (key i) t) [] =
      (ascending (items.map key)).map fun a ↦ (a, ()) :=
  foldr_update_eq key (fun _ _ ↦ ()) () items

end Update

end Table

end HazardTrace
