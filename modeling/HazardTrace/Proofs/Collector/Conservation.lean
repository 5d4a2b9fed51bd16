import HazardTrace.Proofs.Collector.Handed
import HazardTrace.Proofs.Collector.Order
import HazardTrace.Report.Delivery
import Mathlib.Algebra.BigOperators.Group.List.Lemmas

/-!
# Nothing is lost

Every path of every finding is accounted for in the summary. Here the account is drawn up from the
findings and the marking alone, path by path and without a collector:

* `Context.due` lists the records that are due for a finding. On each path through at least two
  methods (`Finding.longPaths`) there is one for a warning on the source, and one for each
  unresolved call there;
* `Context.isSuppressed` says that a finding counts its long paths and has no records;
* `Context.Exposes` says that a finding shows its source to be callable from outside.

`summary_conserves` compares the account with what a collector says at the end, and with what its
receiver was handed. Records are either chains or duplicates, there are as many chains as keys, and
no path of a suppressed source is counted elsewhere. The counts by category, by category of the note
and by group each sum up to all chains: a tally counts every member once (`sum_tally`), and a level
gives every chain one label (`Level.sum_groups`).

A collector takes observations and knows nothing of paths. So each part of the account is first
compared with the sightings of one finding (`records_eq_due`, `countP_suppressed_sightings`,
`exposed_mem_sightings`), by cases on the note of its source. The totals over all findings then
follow from what `Holds` says of a collector (`Holds.length_chains` and the lemmas behind it), and
the number of chains that were handed over from `Context.chains_deliveries`.

Paths of one method are the other half of the account. They give no record whatever the note, and
they are what exposes a source, so that every path is either long and accounted for by its note, or
short and accounted for by its source.
-/

namespace HazardTrace

/-- The members of a list are as many as their numbers of occurrences say. -/
theorem sum_tally {α : Type} [LE α] [DecidableLE α] [Std.IsLinearOrder α] [DecidableEq α]
    (l : List α) : ((tally l).map Prod.snd).sum = l.length := by
  have hperm : (ascending l).Perm l.dedup :=
    (List.perm_ext_iff_of_nodup (nodup_ascending l) (List.nodup_dedup l)).2 (by simp)
  calc ((tally l).map Prod.snd).sum
      = ((ascending l).map l.count).sum := by rw [tally, List.map_map]; rfl
    _ = (l.dedup.map l.count).sum := (hperm.map _).sum_eq
    _ = l.length := List.sum_map_count_dedup_eq_length l

/-- The groups of a level have all chains between them. -/
theorem Grouping.Level.sum_groups (level : Grouping.Level) (chains : List Chain) :
    ((level.groups chains).map Prod.snd).sum = chains.length := by
  have hperm : (level.groups chains).Perm (tally (chains.map level.label)) :=
    List.mergeSort_perm _ _
  rw [(hperm.map _).sum_eq, sum_tally, List.length_map]

/-- The paths of a finding through at least two methods. -/
def Finding.longPaths (f : Finding) : List (List Nat) :=
  f.paths.filter (2 ≤ ·.length)

namespace Collector

variable {ctx : Context} {f : Finding} {fs : List Finding} {a : Note} {n : Nat}

/-! ### The account -/

/-- The records that are due for a finding. On each path through at least two methods there is one
for a warning on the source, and one for each unresolved call in it, with the method that is called
in front. -/
def Context.due (ctx : Context) (f : Finding) : List Chain :=
  match ctx.marking.note? f.source with
  | none | some (.suppress _) => []
  | some (.warn r) => f.longPaths.map fun path ↦ ctx.chain path (.warn r)
  | some (.unanalyzed calls) => f.longPaths.flatMap fun path ↦
      calls.map fun call ↦ ctx.chain (call.target :: path) (.warn call.remark)

/-- The source of a finding is suppressed. -/
def Context.isSuppressed (ctx : Context) (f : Finding) : Bool :=
  (ctx.marking.note? f.source).any Note.isSuppress

/-- The finding shows that `n` is annotated and can be called from outside. -/
structure Context.Exposes (ctx : Context) (f : Finding) (n : Nat) : Prop where
  source : f.source = n
  annotated : (ctx.marking.note? n).isSome = true
  path : ∃ path ∈ f.paths, path.length < 2

/-! ### The account of one finding -/

/-- The long paths of a list, path by path. -/
theorem filter_long_cons (path : List Nat) (paths : List (List Nat)) :
    (path :: paths).filter (2 ≤ ·.length) =
      (if path.length < 2 then [] else [path]) ++ paths.filter (2 ≤ ·.length) := by
  by_cases hlen : path.length < 2
  · have hshort : ¬ 2 ≤ path.length := Nat.not_le.2 hlen
    simp only [List.filter_cons, decide_eq_true_eq, hshort, hlen, if_true, if_false,
      List.nil_append]
  · have hlong : 2 ≤ path.length := Nat.not_lt.1 hlen
    simp only [List.filter_cons, decide_eq_true_eq, hlong, hlen, if_true, if_false,
      List.singleton_append]

/-- What only long paths contribute is contributed by the long paths. -/
theorem flatMap_long {β : Type} (g : List Nat → List β) (paths : List (List Nat)) :
    (paths.flatMap fun path ↦ if path.length < 2 then [] else g path) =
      (paths.filter (2 ≤ ·.length)).flatMap g := by
  induction paths with
  | nil => rfl
  | cons path paths ih =>
    rw [List.flatMap_cons, ih, filter_long_cons, List.flatMap_append]
    split <;> simp

/-- **The records of a finding are those that are due.** -/
theorem Context.records_eq_due (ctx : Context) (f : Finding) : ctx.records f = ctx.due f := by
  rw [due]
  rcases hnote : ctx.marking.note? f.source with - | a
  · exact records_eq_nil hnote
  · have halong := fun path ↦ ctx.recordsAlong_eq a path
    rw [records_eq_flatMap hnote, List.flatMap_congr fun path _ ↦ halong path, flatMap_long]
    cases a with
    | suppress r => simp
    | warn r => exact List.flatMap_pure_eq_map (fun path ↦ ctx.chain path (.warn r)) f.longPaths
    | unanalyzed calls => rfl

/-- A suppressed source is observed once on each long path, and other sources never are. -/
theorem countP_suppressed_observations (a : Note) (f : Finding) :
    (observations a f).countP (· == .suppressed) =
      if a.isSuppress = true then f.longPaths.length else 0 := by
  rw [observations, Finding.longPaths]
  induction f.paths with
  | nil => simp
  | cons path paths ih =>
    rw [List.flatMap_cons, List.countP_append, ih, observePath.eq_def, filter_long_cons,
      List.length_append]
    by_cases hlen : path.length < 2
    · simp [hlen]
    · rw [if_neg hlen, if_neg hlen]
      cases a with
      | suppress r => simp [Note.isSuppress]
      | warn r => simp [Note.isSuppress]
      | unanalyzed calls => simp [Note.isSuppress, List.countP_eq_zero]

theorem Context.countP_suppressed_sightings (ctx : Context) (f : Finding) :
    (ctx.sightings f).countP (·.2 == .suppressed) =
      if ctx.isSuppressed f = true then f.longPaths.length else 0 := by
  rw [sightings, isSuppressed, List.countP_map]
  rcases ctx.marking.note? f.source with - | a
  · rfl
  · exact countP_suppressed_observations a f

/-- A path shows its source to be exposed if it has no other method. -/
theorem exposed_mem_observePath {path : List Nat} :
    .exposed ∈ observePath a path ↔ path.length < 2 := by
  rw [observePath.eq_def]
  by_cases hlen : path.length < 2
  · simp [hlen]
  · rw [if_neg hlen]
    cases a <;> simp [hlen]

/-- A source is seen to be exposed by the findings that expose it. -/
theorem Context.exposed_mem_sightings : (n, .exposed) ∈ ctx.sightings f ↔ ctx.Exposes f n := by
  have hsource : (n, .exposed) ∈ ctx.sightings f ↔
      f.source = n ∧ ∃ a, ctx.marking.note? f.source = some a ∧ .exposed ∈ observations a f := by
    rw [sightings, List.mem_map]
    rcases ctx.marking.note? f.source with - | a
    · simp
    · simp [and_comm]
  rw [hsource]
  constructor
  · rintro ⟨rfl, a, ha, hmem⟩
    obtain ⟨path, hpath, hmem⟩ := List.mem_flatMap.1 hmem
    exact ⟨rfl, Option.isSome_of_eq_some ha, path, hpath, exposed_mem_observePath.1 hmem⟩
  · rintro ⟨rfl, hannotated, path, hpath, hlen⟩
    obtain ⟨a, ha⟩ := Option.isSome_iff_exists.1 hannotated
    exact ⟨rfl, a, ha, List.mem_flatMap.2 ⟨path, hpath, exposed_mem_observePath.2 hlen⟩⟩

/-! ### The account of a report -/

namespace Holds

variable {σ : Type} [Receiver σ] {receiver : σ} {col : Collector σ}
  (h : Holds ctx receiver fs.length (fs.flatMap ctx.sightings).reverse col)
include h

/-- As many chains are held as the records that are due have keys. -/
theorem length_chains : col.chains.length = ((fs.flatMap ctx.due).map Chain.key).dedup.length := by
  have hperm := ((List.reverse_perm (fs.flatMap ctx.due)).map Chain.key).dedup
  rw [h.chains, Context.recordsOf_reverse_flatMap, List.flatMap_congr fun f _ ↦ ctx.records_eq_due f,
    length_pwFilter_differs, hperm.length_eq]

/-- What is due is held or counted as a duplicate. -/
theorem length_chains_add_duplicates :
    col.chains.length + col.duplicates = (fs.flatMap ctx.due).length := by
  rw [Nat.add_comm, h.duplicates, Context.recordsOf_reverse_flatMap, List.length_reverse,
    List.flatMap_congr fun f _ ↦ ctx.records_eq_due f]

/-- The suppressed paths are the long paths of suppressed sources. -/
theorem suppressed_eq :
    col.suppressed = ((fs.filter ctx.isSuppressed).flatMap Finding.longPaths).length := by
  rw [h.suppressed, List.countP_reverse]
  clear h
  induction fs with
  | nil => rfl
  | cons f fs ih =>
    rw [List.flatMap_cons, List.countP_append, ih, ctx.countP_suppressed_sightings, List.filter_cons]
    by_cases hf : ctx.isSuppressed f = true
    · rw [if_pos hf, if_pos hf, List.flatMap_cons, List.length_append]
    · rw [if_neg hf, if_neg hf, Nat.zero_add]

theorem mem_exposed_iff : n ∈ col.exposed ↔ ∃ f ∈ fs, ctx.Exposes f n := by
  have hmem : n ∈ col.exposed ↔ (n, .exposed) ∈ fs.flatMap ctx.sightings := by
    rw [h.exposed]
    simp
  rw [hmem, List.mem_flatMap]
  exact exists_congr fun f ↦ and_congr_right fun _ ↦ Context.exposed_mem_sightings

end Holds

/-- **The summary accounts for every path.** A receiver that never fails gets a finished report. It
counts the findings; its chains are as many as the records that are due have keys, and as many as
were handed over; the other records are its duplicates. The long paths of suppressed sources are
counted and nothing else is. The chains by category, by category of the note and by group sum up to
all chains, and the exposed sources are named in order, once each. -/
theorem summary_conserves {σ : Type} [Receiver σ] (hσ : Receiver.NeverFails σ) (ctx : Context)
    (receiver : σ) (fs : List Finding) :
    ∃ (col : Collector (Watched σ)) (s : Summary),
      collect ctx { receiver := { receiver } } fs = (col, .ok s) ∧
      s.findings = fs.length ∧
      s.chains = ((fs.flatMap ctx.due).map Chain.key).dedup.length ∧
      s.chains = col.receiver.chains.length ∧
      s.chains + s.duplicates = (fs.flatMap ctx.due).length ∧
      s.suppressed = ((fs.filter ctx.isSuppressed).flatMap Finding.longPaths).length ∧
      (s.perCategory.map Prod.snd).sum = s.chains ∧
      (s.perAnnotationCategory.map Prod.snd).sum = s.chains ∧
      (ctx.grouping.isGrouped = true → (s.groups.map Prod.snd).sum = s.chains) ∧
      ∃ nodes : List Nat, nodes.Pairwise (· < ·) ∧
        (∀ n, n ∈ nodes ↔ ∃ f ∈ fs, ctx.Exposes f n) ∧
        s.exposedSources = nodes.map fun n ↦ ctx.numbering.label (some n) := by
  obtain ⟨col, col', hholds, hcollect, hhanded⟩ := exists_collect_watched hσ ctx receiver fs
  have hchains : col.chains = ctx.chainsOf fs := hholds.chains
  have hdelivered : col'.receiver.chains.Perm col.chains := by
    rw [Watched.chains, hhanded, hchains]
    exact ctx.chains_deliveries fs
  refine ⟨col', col.summary ctx, hcollect, hholds.findings, hholds.length_chains,
    hdelivered.length_eq.symm, hholds.length_chains_add_duplicates, hholds.suppressed_eq, ?_, ?_, ?_,
    ascending col.exposed, ?_, ?_, rfl⟩
  · exact (sum_tally _).trans (List.length_map ..)
  · exact (sum_tally _).trans (List.length_map ..)
  · intro hgrouped
    -- the summary has the groups of the outermost level only
    show ((outermost ctx col.chains).map Prod.snd).sum = col.chains.length
    obtain ⟨level, levels, hlevels⟩ := Grouping.exists_levels hgrouped ctx.numbering
    rw [outermost, hlevels]
    exact level.sum_groups col.chains
  · exact ((pairwise_ascending _).and (nodup_ascending _)).imp fun h ↦ Nat.lt_of_le_of_ne h.1 h.2
  · intro n
    rw [mem_ascending, hholds.mem_exposed_iff]

/-- A method with a warning, one with the same unresolved call on record twice, and a suppressed
one. -/
def threeNotes : Context where
  numbering := .empty
  marking := ⟨#[{ note := some (.warn ⟨"Trim", "risky", .memberTrimming⟩) },
    { note := some (.unanalyzed [⟨4, ⟨"Reflection", "unknown", .memberTrimming⟩⟩,
      ⟨4, ⟨"Reflection", "unknown", .memberTrimming⟩⟩]) },
    { note := some (.suppress ⟨"Trim", "reviewed", .memberTrimming⟩) }, {}, {}]⟩
  grouping := .callee

/-- A path that is found twice, paths that lead nowhere, and a source without note: of four records
two are duplicates. -/
theorem summary_conserves_threeNotes :
    ∃ (col : Collector (Watched Transcript)) (s : Summary),
      collect threeNotes { receiver := { receiver := {} } }
        [⟨0, [[0, 5], [0, 5], [0]]⟩, ⟨1, [[1, 5]]⟩, ⟨2, [[2, 5], []]⟩, ⟨3, [[3, 5]]⟩] = (col, .ok s) ∧
      s.findings = 4 ∧ s.chains = 2 ∧ col.receiver.chains.length = 2 ∧ s.duplicates = 2 ∧
      s.suppressed = 1 ∧ (s.groups.map Prod.snd).sum = 2 := by
  obtain ⟨col, s, hcollect, hfindings, hkeys, hhanded, hrecords, hsuppressed, -, -, hgroups, -⟩ :=
    summary_conserves (σ := Transcript) (fun _ _ ↦ rfl) threeNotes {}
      [⟨0, [[0, 5], [0, 5], [0]]⟩, ⟨1, [[1, 5]]⟩, ⟨2, [[2, 5], []]⟩, ⟨3, [[3, 5]]⟩]
  have hchains : s.chains = 2 := hkeys.trans (by decide +kernel)
  have hlength : s.chains + s.duplicates = 4 := hrecords.trans (by decide +kernel)
  refine ⟨col, s, hcollect, hfindings, hchains, hhanded.symm.trans hchains, by omega,
    hsuppressed.trans (by decide +kernel), (hgroups rfl).trans hchains⟩

end Collector

end HazardTrace
