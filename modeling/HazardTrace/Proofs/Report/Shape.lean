import HazardTrace.Proofs.Report.Sections
import HazardTrace.Report.Delivery

/-!
# The shape of a grouped report

A grouped report is handed over at its end. What is handed over closes every group that it opens, so
it is a list of sections written out in sequence. `Section.Shaped` says of a section how it has to
stand in the report: a group announces the number of chains between its opening and its closing,
what stands inside it is in order (`Section.InOrder`), and a chain stands inside exactly the groups
of its path.

The sections of an outline are shaped (`Section.shaped_arrange`). The induction is on the levels
that are left: the chains at hand share the groups that stand around them, and the levels give the
rest of their paths. Three facts about one level go into it.

* Its groups come by descending count, those of one count by label, and no label twice
  (`Grouping.Level.pairwise_groups`).
* A group counts its chains, since the sections inside it hold them all
  (`flatMap_chains_arrange_perm`).
* The chains that are left at the bottom are sorted by their keys. They have different keys, so no
  key stands there twice (`inOrder_arrange`).

The main statement is `grouped_report_shaped`. That chains have different keys is an invariant of
the collector, and so is that it hands nothing over before the end. A receiver that fails is handed
the beginning of the report only (`Watched.exists_handed_receiveAll`), so the statement holds of
failing receivers too; a summary exists only if the report was finished.
-/

namespace HazardTrace

/-! ### Groups by size -/

section ByCount

variable {α : Type} [LE α] [DecidableLE α] [Std.IsLinearOrder α]

/-- Larger groups come first, and groups of one size by name. -/
theorem pairwise_byCount (l : List (α × Nat)) :
    (byCount l).Pairwise fun a b ↦ b.2 < a.2 ∨ a.2 = b.2 ∧ a.1 ≤ b.1 :=
  pairwise_mergeSort_count Prod.fst Prod.snd l

end ByCount

/-- The groups of a level come in order, and each label once. -/
theorem Grouping.Level.pairwise_groups (level : Grouping.Level) (l : List Chain) :
    (level.groups l).Pairwise fun g h ↦
      g.1 ≠ h.1 ∧ (h.2 < g.2 ∨ g.2 = h.2 ∧ g.1 ≤ h.1) :=
  (List.pairwise_map.1 (level.nodup_labels_groups l)).and (pairwise_byCount _)

namespace Section

variable {path : Chain → List (GroupKind × String)} {outer : List (GroupKind × String)}

/-! ### Shape -/

/-- The label and the announced count of a group. -/
def heading? : Section → Option (String × Nat)
  | .chain _ => none
  | .group _ label count _ => some (label, count)

/-- The groups among some sections, with what they announce. -/
def headings (ss : List Section) : List (String × Nat) :=
  ss.filterMap heading?

/-- Sections that stand side by side: chains by ascending key, and no key twice; groups by
descending count, those of one count by ascending label, and no label twice. -/
structure InOrder (ss : List Section) : Prop where
  chains : (ss.filterMap chain?).Pairwise fun a b ↦ a.key.le b.key = true ∧ a.key ≠ b.key
  groups : (headings ss).Pairwise fun g h ↦ g.1 ≠ h.1 ∧ (h.2 < g.2 ∨ g.2 = h.2 ∧ g.1 ≤ h.1)

/-- A section that stands inside the groups `outer`. Every group in it announces its chains and has
its parts in order, and every chain in it stands inside the groups of its path and no others. -/
inductive Shaped (path : Chain → List (GroupKind × String)) :
    List (GroupKind × String) → Section → Prop
  | chain {outer : List (GroupKind × String)} {c : Chain} :
      path c = outer → Shaped path outer (.chain c)
  | group {outer : List (GroupKind × String)} {kind : GroupKind} {label : String} {count : Nat}
      {parts : List Section} :
      count = (group kind label count parts).chains.length → InOrder parts →
      (∀ p ∈ parts, Shaped path (outer ++ [(kind, label)]) p) →
      Shaped path outer (.group kind label count parts)

/-! ### The sections of an outline -/

/-- The groups of an outline announce what the first level counts. -/
theorem headings_arrange_cons (level : Grouping.Level) (levels : List Grouping.Level)
    (l : List Chain) : headings (arrange (level :: levels) l) = level.groups l := by
  rw [headings, arrange, List.filterMap_map]
  exact List.filterMap_some

/-- An outline loses no chain and adds none. -/
theorem flatMap_chains_arrange_perm (levels : List Grouping.Level) (l : List Chain) :
    ((arrange levels l).flatMap chains).Perm l := by
  rw [← chainsIn_flatMap_deliveries, flatMap_deliveries_arrange]
  exact chainsIn_outline levels l

/-- The sections of an outline are in order, side by side. -/
theorem inOrder_arrange (levels : List Grouping.Level) {l : List Chain}
    (hkeys : l.Pairwise Chain.Differs) : InOrder (arrange levels l) := by
  cases levels with
  | nil =>
    have hsorted : (l.mergeSort fun a b ↦ a.key.le b.key).Pairwise
        fun a b ↦ a.key.le b.key = true := by
      refine List.pairwise_mergeSort ?_ ?_ l
      · exact fun _ _ _ ↦ Chain.Key.le_trans
      · exact fun a b ↦ a.key.le_total b.key
    have hdiffer : (l.mergeSort fun a b ↦ a.key.le b.key).Pairwise Chain.Differs :=
      (List.mergeSort_perm l _).symm.pairwise hkeys fun h ↦ Ne.symm h
    refine ⟨?_, ?_⟩
    · rw [arrange, filterMap_chain?_map_chain]
      exact hsorted.and hdiffer
    · rw [headings, arrange, List.filterMap_map]
      simp [Function.comp_def, heading?]
  | cons level levels =>
    refine ⟨?_, ?_⟩
    · rw [arrange, List.filterMap_map]
      simp [Function.comp_def, chain?]
    · rw [headings_arrange_cons]
      exact level.pairwise_groups l

/-- **An outline is shaped.** The chains at hand stand inside the groups `outer`, and the levels
give the rest of their paths. -/
theorem shaped_arrange (levels : List Grouping.Level) {l : List Chain}
    (hkeys : l.Pairwise Chain.Differs)
    (hpath : ∀ c ∈ l, path c = outer ++ levels.map fun level ↦ (level.kind, level.label c)) :
    ∀ s ∈ arrange levels l, Shaped path outer s := by
  induction levels generalizing l outer with
  | nil =>
    intro s hs
    obtain ⟨c, hc, rfl⟩ := List.mem_map.1 hs
    refine .chain ?_
    rw [hpath c (List.mem_mergeSort.1 hc), List.map_nil, List.append_nil]
  | cons level levels ih =>
    intro s hs
    obtain ⟨g, hg, rfl⟩ := List.mem_map.1 hs
    have hkeys' := hkeys.filter (level.label · == g.1)
    refine .group ?_ (inOrder_arrange levels hkeys') (ih hkeys' fun c hc ↦ ?_)
    · rw [chains_group, (flatMap_chains_arrange_perm levels _).length_eq]
      exact level.count_of_mem_groups l hg
    · obtain ⟨hc, hlabel⟩ := List.mem_filter.1 hc
      rw [hpath c hc, List.map_cons, beq_iff_eq.1 hlabel, List.append_assoc]
      rfl

end Section

/-! ### What is handed over at the end -/

namespace Watched

variable {σ : Type} [Receiver σ]

/-- A receiver is handed the deliveries in order, up to the first that fails. -/
theorem exists_handed_receiveAll (w : Watched σ) (ds : List Delivery) :
    ∃ ds', ds' <+: ds ∧ (Receiver.receiveAll w ds).1.handed = w.handed ++ ds' := by
  induction ds generalizing w with
  | nil => exact ⟨[], List.prefix_rfl, (List.append_nil _).symm⟩
  | cons d ds ih =>
    have hreceive : Receiver.receive w d =
        (⟨(Receiver.receive w.receiver d).1, w.handed ++ [d]⟩, (Receiver.receive w.receiver d).2) :=
      rfl
    rw [Receiver.receiveAll, hreceive]
    rcases Receiver.receive w.receiver d with ⟨receiver, e | ⟨⟩⟩
    · exact ⟨[d], List.prefix_append [d] ds, rfl⟩
    · obtain ⟨ds', hds', hhanded⟩ := ih ⟨receiver, w.handed ++ [d]⟩
      refine ⟨d :: ds', List.prefix_cons_inj d |>.2 hds', hhanded.trans ?_⟩
      rw [List.append_assoc]
      rfl

end Watched

namespace Collector

variable {σ : Type} [Receiver σ] {ctx : Context} {col : Collector σ}

theorem receiver_finish (ctx : Context) (col : Collector σ) :
    (col.finish ctx).value.1.receiver = (Receiver.receiveAll col.receiver (closing ctx col)).1 := by
  rw [finish]
  dsimp only
  split <;> rfl

theorem exists_finish_of_neverFails (hσ : Receiver.NeverFails σ) (ctx : Context)
    (col : Collector σ) : ∃ s, (col.finish ctx).value.2 = .ok s := by
  obtain ⟨receiver, hreceive⟩ := hσ.exists_receiveAll col.receiver (closing ctx col)
  rw [finish, hreceive]
  exact ⟨_, rfl⟩

/-- **The shape of a grouped report.** With grouping nothing is handed over before the end. What is
handed over then is a list of sections in sequence and the finish, or the beginning of that if the
receiver fails. The sections are groups, in order and shaped, and hold the chains that were found,
each of them once. The summary of a finished report lists the outermost groups as they were
announced. -/
theorem grouped_report_shaped (ctx : Context) (hgrouped : ctx.grouping.isGrouped = true)
    (receiver : σ) (fs : List Finding) :
    ∃ (held : Collector (Watched σ)) (sections : List Section),
      processAll ctx { receiver := { receiver } } fs = (held, .ok ()) ∧
      held.receiver.handed = [] ∧
      (sections.flatMap Section.chains).Perm held.chains ∧
      (∀ s ∈ sections, s.isGroup = true ∧ s.Shaped (ctx.grouping.path ctx.numbering) []) ∧
      Section.InOrder sections ∧
      (held.finish ctx).value.1.receiver.handed <+:
        sections.flatMap Section.deliveries ++ [.finish] ∧
      (∀ summary, (held.finish ctx).value.2 = .ok summary →
        (held.finish ctx).value.1.receiver.handed =
          sections.flatMap Section.deliveries ++ [.finish] ∧
        summary.groups = Section.headings sections) ∧
      (Receiver.NeverFails σ → ∃ summary, (held.finish ctx).value.2 = .ok summary) := by
  obtain ⟨held, hheld⟩ := exists_processAll (takesChains_of_isGrouped hgrouped)
    { receiver := ({ receiver } : Watched σ) } fs
  have hholds := holds_processAll hheld
  have hkeys : held.chains.Pairwise Chain.Differs := hholds.chains ▸ List.pairwise_pwFilter _
  have hnone : held.receiver.handed = [] := by
    have hreceiver := hholds.receiver
    rw [Context.delivered, if_pos hgrouped] at hreceiver
    exact congrArg (fun run ↦ run.1.handed) hreceiver.symm
  obtain ⟨level, levels, hlevels⟩ := Grouping.exists_levels hgrouped ctx.numbering
  have hclosing : closing ctx held =
      (Section.arrange (level :: levels) held.chains).flatMap Section.deliveries ++ [.finish] := by
    rw [closing, if_pos hgrouped, hlevels, Section.flatMap_deliveries_arrange]
  refine ⟨held, Section.arrange (level :: levels) held.chains, hheld, hnone,
    Section.flatMap_chains_arrange_perm _ _, fun s hs ↦ ⟨Section.isGroup_of_mem_arrange hs, ?_⟩,
    Section.inOrder_arrange _ hkeys, ?_, fun summary hok ↦ ?_, fun hσ ↦ ?_⟩
  · refine Section.shaped_arrange (level :: levels) hkeys (fun c _ ↦ ?_) s hs
    rw [Grouping.path, hlevels, List.nil_append]
  · obtain ⟨ds, hds, hhanded⟩ := held.receiver.exists_handed_receiveAll (closing ctx held)
    rw [receiver_finish, hhanded, hnone, List.nil_append, ← hclosing]
    exact hds
  · obtain ⟨rfl, hreceive⟩ := finish_cases (Prod.ext rfl hok)
    refine ⟨?_, ?_⟩
    · rw [Watched.handed_of_receiveAll hreceive, hnone, List.nil_append, hclosing]
    · show outermost ctx held.chains = _
      rw [outermost, hlevels, Section.headings_arrange_cons]
  · exact exists_finish_of_neverFails (Watched.neverFails hσ) ctx held

/-- Two methods with a warning, reported by assembly, by category and by dependency. -/
def nestedWarnings : Context where
  numbering := .empty
  marking := ⟨#[{ note := some (.warn ⟨"Trim", "first", .memberTrimming⟩) },
    { note := some (.warn ⟨"Load", "second", .memberTrimming⟩) }, {}]⟩
  grouping := .immediateCaller

/-- A path is found twice, and two chains are handed over in groups. -/
theorem grouped_report_shaped_nestedWarnings :
    nestedWarnings.grouping.isGrouped = true ∧
    ∃ (held : Collector (Watched Transcript)) (sections : List Section) (summary : Summary),
      processAll nestedWarnings { receiver := { receiver := {} } }
        [⟨1, [[1, 2]]⟩, ⟨0, [[0, 2], [0, 2]]⟩] = (held, .ok ()) ∧
      (sections.flatMap Section.chains).length = 2 ∧
      (∀ s ∈ sections, s.Shaped (nestedWarnings.grouping.path nestedWarnings.numbering) []) ∧
      (held.finish nestedWarnings).value.2 = .ok summary ∧
      (held.finish nestedWarnings).value.1.receiver.handed =
        sections.flatMap Section.deliveries ++ [.finish] ∧
      summary.groups = Section.headings sections := by
  obtain ⟨held, sections, hheld, -, hperm, hshaped, -, -, hdone, hfinishes⟩ :=
    grouped_report_shaped (σ := Transcript) nestedWarnings rfl {}
      [⟨1, [[1, 2]]⟩, ⟨0, [[0, 2], [0, 2]]⟩]
  obtain ⟨summary, hok⟩ := hfinishes fun _ _ ↦ rfl
  obtain ⟨hhanded, hgroups⟩ := hdone summary hok
  have hlength : (processAll nestedWarnings
      ({ receiver := { receiver := {} } } : Collector (Watched Transcript))
        [⟨1, [[1, 2]]⟩, ⟨0, [[0, 2], [0, 2]]⟩]).1.chains.length = 2 := by
    decide +kernel
  rw [hheld] at hlength
  exact ⟨rfl, held, sections, summary, hheld, hperm.length_eq.trans hlength,
    fun s hs ↦ (hshaped s hs).2, hok, hhanded, hgroups⟩

end Collector

end HazardTrace
