import HazardTrace.Proofs.Collector.Records
import Mathlib.Algebra.GroupWithZero.Nat
import Mathlib.Data.List.Dedup

/-!
# Order of arrival

Of records with one key the first is kept, so the order of arrival decides which one that is. What
can be said in general and what only of findings that do not interfere are two different things.

* **In general** the keys are the same in every order (`Context.keys_chainsOf_perm`), and with them
  all of the summary that does not go back to the notes (`Holds.summary_eq_but_notes`). A summary
  says most of what it says of keys: `summary_eq_of_keys` lists what it needs, and the counts by
  category of the note and by group are what is left.
* **Apart.** Two findings are `Apart` when none of their records share a key. Then no chain of one
  finding is ever left out because of the other, so the chains of a report are those of its findings
  put together (`Context.chainsOf_eq_flatMap`). The order in which the findings arrived then shows
  neither in the summary (`Holds.summary_eq_of_perm`) nor in a report that is arranged
  (`Context.deliveries_eq_of_perm`).

Leaving out is `List.pwFilter`, and two facts about it carry all of this. Its keys are the keys
without repetition (`map_key_pwFilter`), which does not depend on the order. And lists whose members
are related across do not affect each other (`pwFilter_append`), which is what being apart gives.

That the deliveries of an arranged report are equal, and not only a permutation of each other, is
due to the outline: it sorts labels and chains, and chains of different keys have one order
(`outline_eq_of_perm`).
-/

namespace HazardTrace

section Greedy

variable {α β : Type} {R : α → α → Prop} [DecidableRel R]

/-- Lists whose members are related across do not affect each other. -/
theorem pwFilter_append {l₁ l₂ : List α} (h : ∀ a ∈ l₁, ∀ b ∈ l₂, R a b) :
    (l₁ ++ l₂).pwFilter R = l₁.pwFilter R ++ l₂.pwFilter R := by
  induction l₁ with
  | nil => rfl
  | cons a l₁ ih =>
    have ih := ih fun c hc ↦ h c (List.mem_cons_of_mem _ hc)
    have hacross : ∀ b ∈ l₂.pwFilter R, R a b := fun b hb ↦
      h a List.mem_cons_self b (List.pwFilter_subset _ hb)
    by_cases ha : ∀ b ∈ l₁.pwFilter R, R a b
    · have hboth : ∀ b ∈ (l₁ ++ l₂).pwFilter R, R a b := by
        intro b hb
        rw [ih] at hb
        exact (List.mem_append.1 hb).elim (ha b) (hacross b)
      rw [List.cons_append, List.pwFilter_cons_of_pos hboth, List.pwFilter_cons_of_pos ha, ih,
        List.cons_append]
    · have hboth : ¬ ∀ b ∈ (l₁ ++ l₂).pwFilter R, R a b := by
        rw [ih]
        exact fun hall ↦ ha fun b hb ↦ hall b (List.mem_append_left _ hb)
      rw [List.cons_append, List.pwFilter_cons_of_neg hboth, List.pwFilter_cons_of_neg ha, ih]

/-- The same for any number of lists. -/
theorem pwFilter_flatMap {l : List β} {f : β → List α}
    (h : l.Pairwise fun b c ↦ ∀ x ∈ f b, ∀ y ∈ f c, R x y) :
    (l.flatMap f).pwFilter R = l.flatMap fun b ↦ (f b).pwFilter R := by
  induction l with
  | nil => rfl
  | cons b l ih =>
    rw [List.pairwise_cons] at h
    rw [List.flatMap_cons, List.flatMap_cons, pwFilter_append ?_, ih h.2]
    intro x hx y hy
    obtain ⟨c, hc, hy⟩ := List.mem_flatMap.1 hy
    exact h.1 c hc x hx y hy

/-- Lists without common members have their members counted apart. -/
theorem length_dedup_flatMap [DecidableEq α] {l : List β} {f : β → List α}
    (h : l.Pairwise fun b c ↦ ∀ x ∈ f b, ∀ y ∈ f c, x ≠ y) :
    (l.flatMap f).dedup.length = (l.map fun b ↦ (f b).dedup.length).sum := by
  rw [List.dedup, pwFilter_flatMap h, List.length_flatMap]

end Greedy

/-- The chains that are left have each key once. -/
theorem map_key_pwFilter (l : List Chain) :
    (l.pwFilter Chain.Differs).map Chain.key = (l.map Chain.key).dedup := by
  rw [List.dedup, List.pwFilter_map]
  rfl

/-- There are as many chains of different keys as there are keys. -/
theorem length_pwFilter_differs (l : List Chain) :
    (l.pwFilter Chain.Differs).length = (l.map Chain.key).dedup.length := by
  rw [← map_key_pwFilter, List.length_map]

namespace Collector

variable {ctx : Context} {fs fs' : List Finding} {c : Chain}

/-! ### Findings that are apart -/

/-- No record of one finding has the key of a record of the other. -/
def Context.Apart (ctx : Context) (f f' : Finding) : Prop :=
  ∀ c ∈ ctx.records f, ∀ d ∈ ctx.records f', Chain.Differs c d

theorem Context.Apart.symm {f f' : Finding} (h : ctx.Apart f f') : ctx.Apart f' f :=
  fun c hc d hd ↦ Ne.symm (h d hd c hc)

/-- The records of some findings, latest first. -/
theorem Context.recordsOf_reverse_flatMap (ctx : Context) (fs : List Finding) :
    ctx.recordsOf (fs.flatMap ctx.sightings).reverse = (fs.flatMap ctx.records).reverse := by
  rw [recordsOf, List.filterMap_reverse, List.filterMap_flatMap]
  rfl

/-- A chain of a report is a record of one of its findings. -/
theorem Context.exists_mem_records (h : c ∈ ctx.chainsOf fs) : ∃ f ∈ fs, c ∈ ctx.records f := by
  have hmem := List.pwFilter_subset _ h
  rw [recordsOf_reverse_flatMap, List.mem_reverse] at hmem
  exact List.mem_flatMap.1 hmem

/-- A record that is left out has left its key. -/
theorem Context.exists_mem_chainsOf {f : Finding} (hf : f ∈ fs) (hc : c ∈ ctx.records f) :
    ∃ d ∈ ctx.chainsOf fs, d.key = c.key := by
  have hmem : c ∈ ctx.recordsOf (fs.flatMap ctx.sightings).reverse := by
    rw [recordsOf_reverse_flatMap, List.mem_reverse]
    exact List.mem_flatMap.2 ⟨f, hf, hc⟩
  by_contra hnone
  have hall : ∀ d ∈ ctx.chainsOf fs, Chain.Differs c d :=
    fun d hd hkey ↦ hnone ⟨d, hd, hkey.symm⟩
  exact (List.forall_mem_pwFilter (R := Chain.Differs) (fun h ↦ h.or_differs _) c _).1 hall c hmem rfl

/-- A report has no chain twice. -/
theorem Context.nodup_chainsOf (ctx : Context) (fs : List Finding) : (ctx.chainsOf fs).Nodup :=
  (List.pairwise_pwFilter _).imp fun hne heq ↦ hne (congrArg Chain.key heq)

/-- The chains of findings that are apart, finding by finding. -/
theorem Context.chainsOf_eq_flatMap (h : fs.Pairwise ctx.Apart) :
    ctx.chainsOf fs = fs.reverse.flatMap fun f ↦ (ctx.records f).reverse.pwFilter Chain.Differs := by
  rw [chainsOf, recordsOf_reverse_flatMap, List.reverse_flatMap, pwFilter_flatMap]
  · rfl
  · rw [List.pairwise_reverse]
    refine h.imp fun hapart x hx y hy ↦ ?_
    exact Ne.symm (hapart y (List.mem_reverse.1 hy) x (List.mem_reverse.1 hx))

/-- The chains of findings that are apart are the same in every order. -/
theorem Context.chainsOf_perm (h : fs.Pairwise ctx.Apart) (hperm : fs.Perm fs') :
    (ctx.chainsOf fs).Perm (ctx.chainsOf fs') := by
  have h' : fs'.Pairwise ctx.Apart := hperm.pairwise h fun hapart ↦ hapart.symm
  rw [chainsOf_eq_flatMap h, chainsOf_eq_flatMap h']
  exact ((List.reverse_perm fs).trans (hperm.trans (List.reverse_perm fs').symm)).flatMap_right _

/-- Which keys are reported does not depend on the order. -/
theorem Context.keys_chainsOf_perm (ctx : Context) (hperm : fs.Perm fs') :
    ((ctx.chainsOf fs).map Chain.key).Perm ((ctx.chainsOf fs').map Chain.key) := by
  rw [chainsOf, chainsOf, map_key_pwFilter, map_key_pwFilter, recordsOf_reverse_flatMap,
    recordsOf_reverse_flatMap]
  refine List.Perm.dedup (List.Perm.map _ ?_)
  exact (List.reverse_perm _).trans ((hperm.flatMap_right _).trans (List.reverse_perm _).symm)

/-! ### The order does not show -/

/-- An arranged report is delivered in one way, in whatever order its findings came. -/
theorem Context.deliveries_eq_of_perm (hgrouped : ctx.grouping.isGrouped = true)
    (h : fs.Pairwise ctx.Apart) (hperm : fs.Perm fs') : ctx.deliveries fs = ctx.deliveries fs' := by
  have houtline : outline (ctx.grouping.levels ctx.numbering) (ctx.chainsOf fs) =
      outline (ctx.grouping.levels ctx.numbering) (ctx.chainsOf fs') :=
    outline_eq_of_perm _ (List.pairwise_pwFilter _) (chainsOf_perm h hperm)
  simp only [deliveries, delivered, hgrouped, if_true, houtline]

section Summary

variable {σ τ : Type} [Receiver σ] [Receiver τ] {receiver : σ} {receiver' : τ}
  {col : Collector σ} {col' : Collector τ}

theorem outermost_eq_of_perm (ctx : Context) {l₁ l₂ : List Chain} (h : l₁.Perm l₂) :
    outermost ctx l₁ = outermost ctx l₂ := by
  unfold outermost
  split
  · rfl
  · exact Grouping.Level.groups_eq_of_perm _ h

omit [Receiver σ] [Receiver τ] in
/-- What a summary says, but for the notes, is said of the keys of its chains. -/
theorem summary_eq_of_keys (hkeys : (col.chains.map Chain.key).Perm (col'.chains.map Chain.key))
    (hduplicates : col'.duplicates = col.duplicates) (hsuppressed : col'.suppressed = col.suppressed)
    (hfindings : col'.findings = col.findings) (hexposed : col.exposed.Perm col'.exposed) :
    col'.summary ctx = { col.summary ctx with
      perAnnotationCategory := (col'.summary ctx).perAnnotationCategory
      groups := (col'.summary ctx).groups } := by
  have hlength : col'.chains.length = col.chains.length := by
    simpa using hkeys.length_eq.symm
  have hcategories : (col.chains.map (·.category)).Perm (col'.chains.map (·.category)) := by
    have := hkeys.map Chain.Key.category
    rwa [List.map_map, List.map_map] at this
  have hhits : (hits ctx col.chains).Perm (hits ctx col'.chains) := by
    have := hkeys.filterMap fun k ↦ k.nodes.getLast?.bind ctx.numbering.detail?
    rwa [List.filterMap_map, List.filterMap_map] at this
  unfold summary
  rw [hlength, hduplicates, hsuppressed, hfindings, ascending_eq_of_perm hexposed,
    tally_eq_of_perm hcategories, Coverage.summarize_eq_of_perm _ hhits]

/-- **The order of arrival shows only in the notes**, in whatever state the receiver is. -/
theorem Holds.summary_eq_but_notes (hperm : fs.Perm fs')
    (h : Holds ctx receiver fs.length (fs.flatMap ctx.sightings).reverse col)
    (h' : Holds ctx receiver' fs'.length (fs'.flatMap ctx.sightings).reverse col') :
    col'.summary ctx = { col.summary ctx with
      perAnnotationCategory := (col'.summary ctx).perAnnotationCategory
      groups := (col'.summary ctx).groups } := by
  have hseen : (fs.flatMap ctx.sightings).reverse.Perm (fs'.flatMap ctx.sightings).reverse :=
    (List.reverse_perm _).trans ((hperm.flatMap_right _).trans (List.reverse_perm _).symm)
  have hkeys : (col.chains.map Chain.key).Perm (col'.chains.map Chain.key) := by
    rw [h.chains, h'.chains]
    exact Context.keys_chainsOf_perm ctx hperm
  -- as many records and as many chains leave as many duplicates
  have hduplicates : col'.duplicates = col.duplicates := by
    have hlength := h.duplicates
    have hlength' := h'.duplicates
    have hkeys := hkeys.length_eq
    have hrecords := (hseen.filterMap fun p ↦ ctx.record? p.2).length_eq
    rw [List.length_map, List.length_map] at hkeys
    rw [Context.recordsOf] at hlength hlength'
    omega
  refine summary_eq_of_keys hkeys hduplicates ?_ ?_ ?_
  · rw [h.suppressed, h'.suppressed, hseen.countP_eq]
  · rw [h.findings, h'.findings, hperm.length_eq]
  · rw [h.exposed, h'.exposed]
    exact (hseen.filter _).map _

/-- **The summary does not depend on the order of arrival** of findings that are apart, nor on the
receiver. -/
theorem Holds.summary_eq_of_perm (happart : fs.Pairwise ctx.Apart) (hperm : fs.Perm fs')
    (h : Holds ctx receiver fs.length (fs.flatMap ctx.sightings).reverse col)
    (h' : Holds ctx receiver' fs'.length (fs'.flatMap ctx.sightings).reverse col') :
    col.summary ctx = col'.summary ctx := by
  have hchains : col.chains.Perm col'.chains := by
    rw [h.chains, h'.chains]
    exact Context.chainsOf_perm happart hperm
  have hnotes : (col'.summary ctx).perAnnotationCategory = (col.summary ctx).perAnnotationCategory :=
    (tally_eq_of_perm (hchains.map _)).symm
  have hgroups : (col'.summary ctx).groups = (col.summary ctx).groups :=
    (outermost_eq_of_perm ctx hchains).symm
  rw [h.summary_eq_but_notes hperm h', hnotes, hgroups]

end Summary

end Collector

end HazardTrace
