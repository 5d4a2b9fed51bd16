import HazardTrace.Collector
import HazardTrace.Report.Delivery
import Mathlib.Data.Finset.Card
import Mathlib.Data.List.Pairwise

/-!
# Order that does not depend on arrival

A report sorts what it prints, so that the order of arrival leaves no trace. Here that is said of
each sorted thing: lists of names and their tallies, the keys of chains, the outline of a grouped
report, and the summary of coverage.

* Sorting forgets the order in which its list came, if no two different members are on a par
  (`mergeSort_eq_of_perm`).
* A list that is sorted without repetitions even follows from its members alone
  (`ascending_eq_of_mem_iff`), and its members can be looked up by halving it (`bisect_iff_mem`).
  The halves of such a list are separated by its middle (`pairwise_halves`), which is what the
  lookup relies on.
* Keys of chains are in a linear order: `Key.le` compares the methods first, then the category, then
  the note, and two keys that are on a par in all three are the same (`Key.le_antisymm`).

The outline needs one more fact than the others: its chains have different keys
(`outline_eq_of_perm`), since chains with one key would stay in the order in which they came. The
proof is by induction on the levels of grouping, and at the bottom the chains of one group are
sorted by their keys.

Sorting by descending count is not among these. There it is said what the order is
(`pairwise_mergeSort_count`), and names decide between equal counts.
-/

namespace HazardTrace

variable {α : Type}

/-- Sorting forgets the order of arrival, if no two different members are on a par. -/
theorem mergeSort_eq_of_perm {le : α → α → Bool} {l₁ l₂ : List α}
    (htrans : ∀ a b c, le a b = true → le b c = true → le a c = true)
    (htotal : ∀ a b, (le a b || le b a) = true)
    (hantisymm : ∀ a ∈ l₁, ∀ b ∈ l₁, le a b = true → le b a = true → a = b)
    (h : l₁.Perm l₂) : l₁.mergeSort le = l₂.mergeSort le := by
  refine List.Perm.eq_of_pairwise ?_ (List.pairwise_mergeSort htrans htotal l₁)
    (List.pairwise_mergeSort htrans htotal l₂) ?_
  · intro a b ha hb
    exact hantisymm a (List.mem_mergeSort.1 ha) b (h.mem_iff.2 (List.mem_mergeSort.1 hb))
  · exact (List.mergeSort_perm l₁ le).trans (h.trans (List.mergeSort_perm l₂ le).symm)

/-- A list that is numbered and filtered is in order of its numbers. -/
theorem pairwise_filterMap_zipIdx {β : Type} {l : List α} {f : α × Nat → Option (Nat × β)}
    (hf : ∀ p q, f p = some q → q.1 = p.2) :
    (l.zipIdx.filterMap f).Pairwise fun p q ↦ p.1 < q.1 := by
  have hindex : l.zipIdx.Pairwise fun p q ↦ p.2 < q.2 := by
    rw [← List.pairwise_map, List.zipIdx_map_snd]
    exact List.pairwise_lt_range'
  refine hindex.filterMap f fun p q hpq x hx y hy ↦ ?_
  rw [hf p x hx, hf q y hy]
  exact hpq

/-- The middle of an ascending list separates what lies below it from what lies above. -/
theorem pairwise_halves [LT α] {l upper : List α} {b : α} (h : l.Pairwise (· < ·))
    (hdrop : l.drop (l.length / 2) = b :: upper) :
    (∀ c, c ∈ l ↔ c ∈ l.take (l.length / 2) ∨ c = b ∨ c ∈ upper) ∧
      (∀ c ∈ l.take (l.length / 2), c < b) ∧ ∀ c ∈ upper, b < c := by
  have hsplit : l.take (l.length / 2) ++ b :: upper = l := by
    rw [← hdrop, List.take_append_drop]
  have hhalves := List.pairwise_append.1 (hsplit.symm ▸ h)
  refine ⟨fun c ↦ ?_, fun c hc ↦ hhalves.2.2 c hc b List.mem_cons_self,
    (List.pairwise_cons.1 hhalves.2.1).1⟩
  rw [← List.mem_cons, ← List.mem_append, hsplit]

section Linear

variable [LE α] [DecidableLE α] [Std.IsLinearOrder α]

theorem decide_le_trans (a b c : α) (hab : decide (a ≤ b) = true) (hbc : decide (b ≤ c) = true) :
    decide (a ≤ c) = true :=
  decide_eq_true (Std.le_trans (of_decide_eq_true hab) (of_decide_eq_true hbc))

theorem decide_le_total (a b : α) : (decide (a ≤ b) || decide (b ≤ a)) = true := by
  simpa using Std.le_total (a := a) (b := b)

/-- Sorting by descending count and then by name puts larger counts first, and names in order where
the counts are equal. -/
theorem pairwise_mergeSort_count {β : Type} (name : β → α) (count : β → Nat) (l : List β) :
    (l.mergeSort fun a b ↦ decide (count b < count a) ||
      (count a == count b && decide (name a ≤ name b))).Pairwise
      fun a b ↦ count b < count a ∨ count a = count b ∧ name a ≤ name b := by
  have hiff : ∀ a b : β,
      (decide (count b < count a) || (count a == count b && decide (name a ≤ name b))) = true ↔
        count b < count a ∨ count a = count b ∧ name a ≤ name b := by
    simp
  refine (List.pairwise_mergeSort (fun a b c hab hbc ↦ ?_) (fun a b ↦ ?_) l).imp (hiff _ _).1
  · rw [hiff] at *
    rcases hab with hab | ⟨hab, hab'⟩
    · rcases hbc with hbc | ⟨hbc, -⟩
      · exact .inl (Nat.lt_trans hbc hab)
      · exact .inl (hbc ▸ hab)
    · rcases hbc with hbc | ⟨hbc, hbc'⟩
      · exact .inl (hab ▸ hbc)
      · exact .inr ⟨hab.trans hbc, Std.le_trans hab' hbc'⟩
  · rw [Bool.or_eq_true, hiff, hiff]
    rcases Nat.lt_trichotomy (count a) (count b) with hlt | heq | hgt
    · exact .inr (.inl hlt)
    · exact (Std.le_total (a := name a) (b := name b)).imp (fun h ↦ .inr ⟨heq, h⟩)
        fun h ↦ .inr ⟨heq.symm, h⟩
    · exact .inl (.inl hgt)

variable [DecidableEq α] {l₁ l₂ : List α}

/-- A list in order has each member once when its repetitions are dropped. -/
theorem nodup_dropRepeats {l : List α} (h : l.Pairwise fun a b ↦ decide (a ≤ b) = true) :
    (dropRepeats l).Nodup := by
  fun_induction dropRepeats l with
  | case1 b l ih => exact ih h.of_cons
  | case2 a b l hne ih =>
    refine List.nodup_cons.2 ⟨fun hmem ↦ ?_, ih h.of_cons⟩
    obtain ⟨ha, hb⟩ := List.pairwise_cons.1 h
    rcases List.mem_cons.1 (mem_dropRepeats.1 hmem) with hab | hal
    · exact hne hab
    · have hab := of_decide_eq_true (ha b List.mem_cons_self)
      have hba := of_decide_eq_true ((List.pairwise_cons.1 hb).1 a hal)
      exact hne (Std.le_antisymm hab hba)
  | case3 l hl =>
    cases l with
    | nil => exact List.nodup_nil
    | cons a l =>
      cases l with
      | nil => exact List.pairwise_singleton _ a
      | cons b l => exact absurd rfl (hl a b l)

/-- The list that `ascending` makes has no repetitions. -/
theorem nodup_ascending (l : List α) : (ascending l).Nodup :=
  nodup_dropRepeats (List.pairwise_mergeSort decide_le_trans decide_le_total l)

omit [LE α] [DecidableLE α] [Std.IsLinearOrder α] in
theorem dropRepeats_sublist (l : List α) : (dropRepeats l).Sublist l := by
  fun_induction dropRepeats l with
  | case1 b l ih => exact ih.trans (List.sublist_cons_self b (b :: l))
  | case2 a b l hne ih => exact ih.cons_cons a
  | case3 l hl => exact List.Sublist.refl l

/-- The list that `ascending` makes is in order. -/
theorem pairwise_ascending (l : List α) : (ascending l).Pairwise (· ≤ ·) :=
  ((List.pairwise_mergeSort decide_le_trans decide_le_total l).sublist
    (dropRepeats_sublist _)).imp of_decide_eq_true

/-- Sorting without repetitions forgets everything but the members. -/
theorem ascending_eq_of_mem_iff (h : ∀ a, a ∈ l₁ ↔ a ∈ l₂) : ascending l₁ = ascending l₂ := by
  refine List.Perm.eq_of_pairwise (fun a b _ _ hab hba ↦ Std.le_antisymm hab hba)
    (pairwise_ascending l₁) (pairwise_ascending l₂) ?_
  rw [List.perm_ext_iff_of_nodup (nodup_ascending l₁) (nodup_ascending l₂)]
  intro a
  rw [mem_ascending, mem_ascending, h]

/-- In particular the order of arrival is forgotten. -/
theorem ascending_eq_of_perm (h : l₁.Perm l₂) : ascending l₁ = ascending l₂ :=
  ascending_eq_of_mem_iff fun _ ↦ h.mem_iff

/-- A tally counts each name, in order of the names. -/
theorem tally_eq_of_perm (h : l₁.Perm l₂) : tally l₁ = tally l₂ := by
  unfold tally
  rw [ascending_eq_of_perm h]
  exact List.map_congr_left fun a _ ↦ by rw [h.count_eq]

variable [LT α] [Std.LawfulOrderLT α]

/-- In order and without repetitions is ascending. -/
theorem pairwise_lt_ascending (l : List α) : (ascending l).Pairwise (· < ·) :=
  ((pairwise_ascending l).and (nodup_ascending l)).imp fun h ↦ Std.lt_of_le_of_ne h.1 h.2

omit [DecidableLE α] in
/-- **A lookup by halving finds what is there**, if the list is ascending. -/
theorem bisect_iff_mem [DecidableLT α] {a : α} {l : List α} (h : l.Pairwise (· < ·)) :
    bisect a l = true ↔ a ∈ l := by
  fun_induction bisect a l with
  | case1 l hdrop =>
    -- only an empty list has no member in the middle
    have hlength := congrArg List.length hdrop
    rw [List.length_drop, List.length_nil] at hlength
    obtain rfl : l = [] := List.length_eq_zero_iff.1 (by omega)
    simp
  | case2 l upper hdrop => simp [(pairwise_halves h hdrop).1]
  | case3 l b upper hdrop hne hlt ih =>
    obtain ⟨hmem, -, hupper⟩ := pairwise_halves h hdrop
    rw [ih (h.sublist (List.take_sublist ..)), hmem]
    refine ⟨.inl, fun h' ↦ h'.resolve_right ?_⟩
    rintro (rfl | ha)
    · exact hne rfl
    · exact Std.lt_irrefl (Std.lt_trans hlt (hupper a ha))
  | case4 l b upper hdrop hne hlt ih =>
    obtain ⟨hmem, hlower, -⟩ := pairwise_halves h hdrop
    have hsuffix : upper.Sublist l :=
      (List.sublist_cons_self b upper).trans (hdrop ▸ List.drop_sublist ..)
    rw [ih (h.sublist hsuffix), hmem]
    refine ⟨fun ha ↦ .inr (.inr ha), ?_⟩
    rintro (ha | rfl | ha)
    · exact absurd (hlower a ha) hlt
    · exact absurd rfl hne
    · exact ha

end Linear

/-! ### Different members -/

section Dedup

variable {β : Type} [DecidableEq α] [DecidableEq β] (f : α → β) (l : List α)

/-- Different images are counted by their set. -/
theorem length_dedup_map : (l.map f).dedup.length = (l.toFinset.image f).card := by
  rw [← List.card_toFinset]
  congr 1
  ext b
  simp

theorem length_dedup_map_le : (l.map f).dedup.length ≤ l.dedup.length := by
  rw [length_dedup_map, ← List.card_toFinset]
  exact Finset.card_image_le

/-- A list has as many different images as different members exactly if no two of them have one
image. -/
theorem length_dedup_map_eq_iff :
    (l.map f).dedup.length = l.dedup.length ↔ ∀ a ∈ l, ∀ b ∈ l, f a = f b → a = b := by
  rw [length_dedup_map, ← List.card_toFinset, Finset.card_image_iff]
  simp [Set.InjOn]

end Dedup

/-! ### Keys -/

namespace Chain

/-- Two chains of different keys. -/
def Differs (a b : Chain) : Prop :=
  a.key ≠ b.key

instance : DecidableRel Differs := fun a b ↦
  inferInstanceAs (Decidable (a.key ≠ b.key))

instance : Std.Symm Differs :=
  ⟨fun _ _ h ↦ Ne.symm h⟩

/-- A chain has another key than one of two chains whose keys differ. -/
theorem Differs.or_differs {a c : Chain} (h : a.Differs c) (b : Chain) :
    a.Differs b ∨ b.Differs c := by
  by_cases hab : a.key = b.key
  · exact .inr fun hbc ↦ h (hab.trans hbc)
  · exact .inl hab

namespace Key

variable {a b c : Key}

/-- Keys are compared method by method, then by category, then by note. -/
theorem le_iff : a.le b = true ↔
    a.nodes < b.nodes ∨ a.nodes = b.nodes ∧
      (a.category < b.category ∨ a.category = b.category ∧ a.note ≤ b.note) := by
  unfold le
  by_cases hnodes : a.nodes = b.nodes
  · have hirrefl : ¬ b.nodes < b.nodes := List.lt_irrefl _
    by_cases hcategory : a.category = b.category
    · have hirrefl' : ¬ b.category < b.category := String.lt_irrefl _
      simp only [hnodes, hcategory, if_true, decide_eq_true_eq, hirrefl, hirrefl', true_and, false_or]
    · simp only [hnodes, hcategory, if_true, if_false, decide_eq_true_eq, hirrefl, true_and, false_and,
        false_or, or_false]
  · simp [hnodes]

theorem le_trans (hab : a.le b = true) (hbc : b.le c = true) : a.le c = true := by
  rw [le_iff] at *
  rcases hab with hab | ⟨hab, hab'⟩
  · rcases hbc with hbc | ⟨hbc, -⟩
    · exact .inl (List.lt_trans hab hbc)
    · exact .inl (hbc ▸ hab)
  · rcases hbc with hbc | ⟨hbc, hbc'⟩
    · exact .inl (hab ▸ hbc)
    · refine .inr ⟨hab.trans hbc, ?_⟩
      rcases hab' with hab' | ⟨hab', hab''⟩
      · rcases hbc' with hbc' | ⟨hbc', -⟩
        · exact .inl (String.lt_trans hab' hbc')
        · exact .inl (hbc' ▸ hab')
      · rcases hbc' with hbc' | ⟨hbc', hbc''⟩
        · exact .inl (hab' ▸ hbc')
        · exact .inr ⟨hab'.trans hbc', String.le_trans hab'' hbc''⟩

theorem le_total (a b : Key) : (a.le b || b.le a) = true := by
  rw [Bool.or_eq_true, le_iff, le_iff]
  by_cases hab : a.nodes < b.nodes
  · exact .inl (.inl hab)
  by_cases hba : b.nodes < a.nodes
  · exact .inr (.inl hba)
  have hnodes : a.nodes = b.nodes := List.le_antisymm hba hab
  by_cases hab' : a.category < b.category
  · exact .inl (.inr ⟨hnodes, .inl hab'⟩)
  by_cases hba' : b.category < a.category
  · exact .inr (.inr ⟨hnodes.symm, .inl hba'⟩)
  have hcategory : a.category = b.category := String.le_antisymm hba' hab'
  rcases String.le_total a.note b.note with hnote | hnote
  · exact .inl (.inr ⟨hnodes, .inr ⟨hcategory, hnote⟩⟩)
  · exact .inr (.inr ⟨hnodes.symm, .inr ⟨hcategory.symm, hnote⟩⟩)

/-- Keys that are on a par are the same. -/
theorem le_antisymm (hab : a.le b = true) (hba : b.le a = true) : a = b := by
  rw [le_iff] at hab hba
  rcases hab with hab | ⟨hnodes, hab⟩
  · rcases hba with hba | ⟨hnodes, -⟩
    · exact absurd hab (List.lt_asymm hba)
    · exact absurd (hnodes ▸ hab) (List.lt_irrefl _)
  · rcases hba with hba | ⟨-, hba⟩
    · exact absurd (hnodes ▸ hba) (List.lt_irrefl _)
    · rcases hab with hab | ⟨hcategory, hab⟩
      · rcases hba with hba | ⟨hcategory, -⟩
        · exact absurd hab (String.lt_asymm hba)
        · exact absurd (hcategory ▸ hab) (String.lt_irrefl _)
      · rcases hba with hba | ⟨-, hba⟩
        · exact absurd (hcategory ▸ hba) (String.lt_irrefl _)
        · obtain ⟨nodes, category, note⟩ := a
          obtain ⟨nodes', category', note'⟩ := b
          obtain rfl : nodes = nodes' := hnodes
          obtain rfl : category = category' := hcategory
          obtain rfl : note = note' := String.le_antisymm hab hba
          rfl

end Key

end Chain

/-! ### Outlines -/

/-- The groups of a level, with their counts, do not depend on the order of arrival. -/
theorem Grouping.Level.groups_eq_of_perm (level : Grouping.Level) {l₁ l₂ : List Chain}
    (h : l₁.Perm l₂) : level.groups l₁ = level.groups l₂ := by
  unfold groups
  rw [tally_eq_of_perm (h.map level.label)]

/-- The outline of chains with different keys does not depend on the order in which they came. -/
theorem outline_eq_of_perm (levels : List Grouping.Level) {l₁ l₂ : List Chain}
    (hkeys : l₁.Pairwise Chain.Differs) (h : l₁.Perm l₂) : outline levels l₁ = outline levels l₂ := by
  induction levels generalizing l₁ l₂ with
  | nil =>
    -- chains on a par have one key, and the chains at hand have different ones
    have hsort : l₁.mergeSort (fun a b ↦ a.key.le b.key) = l₂.mergeSort fun a b ↦ a.key.le b.key := by
      refine mergeSort_eq_of_perm (fun _ _ _ ↦ Chain.Key.le_trans)
        (fun _ _ ↦ Chain.Key.le_total _ _) (fun a ha b hb hab hba ↦ ?_) h
      by_contra hne
      exact hkeys.forall ha hb hne (Chain.Key.le_antisymm hab hba)
    rw [outline, outline, hsort]
  | cons level levels ih =>
    rw [outline, outline, level.groups_eq_of_perm h]
    congr 1
    funext ⟨label, count⟩
    dsimp only
    rw [ih (hkeys.filter _) (h.filter _)]

/-! ### Coverage -/

namespace Coverage

variable {l₁ l₂ : List Method}

theorem namespaces_eq_of_perm (h : l₁.Perm l₂) : namespaces l₁ = namespaces l₂ :=
  ascending_eq_of_perm ((h.map _).filter _)

theorem typesIn_eq_of_perm (h : l₁.Perm l₂) (ns : String) : typesIn l₁ ns = typesIn l₂ ns := by
  unfold typesIn
  rw [ascending_eq_of_perm ((h.filter _).map _)]

/-- Nor does the summary of coverage. -/
theorem summarize_eq_of_perm (s : Numbering Method) (h : l₁.Perm l₂) :
    summarize s l₁ = summarize s l₂ := by
  have hline : ∀ known, line l₁ known = line l₂ known := by
    intro known
    funext ns
    simp only [line, typesIn_eq_of_perm h]
  simp only [summarize, namespaces_eq_of_perm h, hline]

end Coverage

end HazardTrace
