import HazardTrace.Proofs.Analysis.Openings
import HazardTrace.Proofs.Analysis.Seeds
import HazardTrace.Proofs.Collector.Conservation
import HazardTrace.Proofs.Search.Interior

/-!
# More safe methods, fewer findings

Rules that mark methods safe only take findings away (`safe_rules_only_remove`). Two effects of such
a rule work against each other. A method that becomes safe is no hazard any more, so a search that
excludes interior hazards would now walk through it; but no search walks through a safe method
either.

The argument is that the rules change no note (`safer_prepare`). For a single mark this is
`Mark.Safer`, which every step of seeding preserves: notes, calls, and the rules themselves, of
which some are only in the second list (`Rule.AddsSafe.judgeAll`, by induction on how the rules were
put in). Inheritance then works on equal notes and gives equal notes (`Inheritance.notes_inherit`).

For whole analyses it is `Safer`: the same methods with the same notes, and all safe methods are
still safe. So a method that is neither safe nor annotated under the new rules was not annotated
before (`Safer.isHazard_eq_false`), and what exposes a method under them did so before
(`Safer.exposes`): every way that is left was a way all along. The shortest ways may well be others,
which is why chains are compared by what they show (`Returns.exists_agrees`).

The hazards that are entries are named in the summary and have no chains. They are found from the
graph alone (`Mirrors.exposes_iff`), so a report names them in order whatever else it finds
(`Returns.exposedSources_eq`), and fewer hazards give a sublist (`Safer.exposed_sublist`).
-/

namespace HazardTrace

open Search (Options)

/-! ### Marks under more rules -/

namespace Mark

variable {mark mark' : Mark}

/-- The same note, and safe wherever the first mark is. -/
structure Safer (mark mark' : Mark) : Prop where
  note : mark'.note = mark.note
  safe : mark.safe = true → mark'.safe = true

namespace Safer

theorem isOpen (h : Safer mark mark') : mark'.isOpen = mark.isOpen := by
  rw [Mark.isOpen, h.note, Mark.isOpen]

/-- A note is put on both marks or on neither. -/
theorem annotate (h : Safer mark mark') (a : Note) :
    Safer (mark.annotate a) (mark'.annotate a) := by
  unfold Mark.annotate
  rw [h.isOpen]
  split
  · exact ⟨rfl, h.safe⟩
  · exact h

theorem addCall (h : Safer mark mark') (call : ReflectiveCall) :
    Safer (mark.addCall call) (mark'.addCall call) := by
  refine ⟨?_, fun hsafe ↦ ?_⟩
  · unfold Mark.addCall
    rw [h.note]
    split
    · rfl
    · rfl
    · exact h.note
  · rw [safe_addCall] at hsafe ⊢
    exact h.safe hsafe

/-- Unresolved calls are put on both marks or on neither. -/
theorem addCalls (h : Safer mark mark') (calls : List ReflectiveCall) :
    Safer (mark.addCalls calls) (mark'.addCalls calls) := by
  unfold Mark.addCalls
  induction calls generalizing mark mark' with
  | nil => exact h
  | cons call calls ih => exact ih (h.addCall call)

/-- A rule that both lists have keeps the marks in step. -/
theorem judge (h : Safer mark mark') (r : Rule) : Safer (r.judge mark) (r.judge mark') := by
  cases hr : r.note? with
  | none =>
    rw [Rule.judge_of_note?_eq_none hr, Rule.judge_of_note?_eq_none hr]
    exact ⟨h.note, fun _ ↦ rfl⟩
  | some a =>
    rw [Rule.judge_of_note? hr, Rule.judge_of_note? hr]
    exact h.annotate a

end Safer

end Mark

namespace Rule

variable {rules rules' : List Rule}

/-- The second list is the first one with rules put in, anywhere, that mark methods safe. -/
inductive AddsSafe : List Rule → List Rule → Prop
  | nil : AddsSafe [] []
  | keep (r : Rule) {rules rules' : List Rule} : AddsSafe rules rules' →
      AddsSafe (r :: rules) (r :: rules')
  | insert {r : Rule} {text : String} (h : r.action = .safe text) {rules rules' : List Rule} :
      AddsSafe rules rules' → AddsSafe rules (r :: rules')

/-- A rule that marks methods safe has no note for them. -/
theorem note?_eq_none_of_safe {r : Rule} {text : String} (h : r.action = .safe text) :
    r.note? = none := by
  rw [note?, h]

/-- The rules of both lists, one after the other. -/
theorem AddsSafe.judgeAll (h : AddsSafe rules rules') (s : Numbering Method) (u : Nat)
    {mark mark' : Mark} (hmark : mark.Safer mark') :
    (judgeAll rules s u mark).Safer (judgeAll rules' s u mark') := by
  unfold Rule.judgeAll
  induction h generalizing mark mark' with
  | nil => exact hmark
  | keep r _ ih =>
    rw [List.foldl_cons, List.foldl_cons]
    refine ih ?_
    split
    · exact hmark.judge r
    · exact hmark
  -- a rule of the second list only: all it can do is make the second mark safe
  | @insert r text hsafe _ _ _ ih =>
    rw [List.foldl_cons]
    refine ih ?_
    split
    · rw [judge_of_note?_eq_none (note?_eq_none_of_safe hsafe)]
      exact ⟨hmark.note, fun _ ↦ rfl⟩
    · exact hmark

end Rule

namespace Analysis

variable {p : Program} {rules rules' : List Rule} {pre pre' : Prepared} {o : Options}
  {grouping : Grouping} {source entry id : String} {ids : List String}

/-- Methods are seeded with the same notes under both lists. -/
theorem safer_seed (h : Rule.AddsSafe rules rules') (p : Program) (u : Nat) :
    (seed p rules u).Safer (seed p rules' u) :=
  (h.judgeAll p.numbering u ⟨rfl, fun hsafe ↦ hsafe⟩).addCalls _

/-- The same methods with the same notes, and all safe methods of the first analysis are safe. -/
structure Safer (pre pre' : Prepared) : Prop where
  numbering : pre'.numbering = pre.numbering
  noteOf : ∀ id, pre'.noteOf id = pre.noteOf id
  isSafe : ∀ id, pre.isSafe id = true → pre'.isSafe id = true

/-- **Rules that mark methods safe change nothing else.** -/
theorem safer_prepare (h : Rule.AddsSafe rules rules') (p : Program) :
    Safer (prepare p rules).value (prepare p rules').value where
  numbering := rfl
  noteOf id := by
    have hseeds : (seeded p rules').notes = (seeded p rules).notes := by
      refine Array.ext_getElem? fun u ↦ ?_
      rw [Marking.getElem?_notes, Marking.getElem?_notes, marks_seeded, marks_seeded]
      split
      · exact congrArg some (safer_seed h p u).note
      · rfl
    have hnote : ∀ u, (prepare p rules').value.marking.note? u =
        (prepare p rules).value.marking.note? u := by
      intro u
      rw [Marking.note?_eq_notes, Marking.note?_eq_notes, marking_prepare, marking_prepare,
        Inheritance.notes_inherit hseeds]
    exact congrArg (Option.bind (p.numbering.number? id)) (funext hnote)
  isSafe id hsafe := by
    obtain ⟨u, hu, hsafe⟩ := (Option.any_eq_true _ _).1 hsafe
    refine (Option.any_eq_true _ _).2 ⟨u, hu, ?_⟩
    have hlt := Numbering.lt_size_of_id? (Numbering.number?_eq_some_iff.1 hu)
    rw [isSafe_prepare_eq_seed p rules hlt] at hsafe
    rw [isSafe_prepare_eq_seed p rules' hlt]
    exact (safer_seed h p u).safe hsafe

namespace Safer

theorem isSafe_eq_false (h : Safer pre pre') (hid : pre'.isSafe id = false) :
    pre.isSafe id = false := by
  cases hsafe : pre.isSafe id with
  | false => rfl
  | true => exact (h.isSafe id hsafe).symm.trans hid

/-- No method becomes a hazard. -/
theorem isHazard (h : Safer pre pre') (hid : pre'.isHazard id = true) : pre.isHazard id = true := by
  rw [Prepared.isHazard, h.noteOf] at hid
  obtain ⟨hnote, hsafe⟩ := Bool.and_eq_true_iff.1 hid
  rw [Prepared.isHazard, hnote, h.isSafe_eq_false (by simpa using hsafe)]
  rfl

/-- A hazard that is none any more has become safe. -/
theorem isHazard_eq_false (h : Safer pre pre') (hsafe : pre'.isSafe id = false)
    (hid : pre'.isHazard id = false) : pre.isHazard id = false := by
  rw [Prepared.isHazard, h.noteOf, hsafe, Bool.not_false, Bool.and_true] at hid
  rw [Prepared.isHazard, hid, Bool.false_and]

/-- What still exposes a method did so before. -/
theorem exposes (h : Safer pre pre') (hexposes : Exposes p pre' o source entry ids) :
    Exposes p pre o source entry ids where
  head := hexposes.head
  last := hexposes.last
  two_le_length := hexposes.two_le_length
  nodup := hexposes.nodup
  leads := hexposes.leads
  source_note := h.noteOf source ▸ hexposes.source_note
  source_not_safe := h.isSafe_eq_false hexposes.source_not_safe
  source_not_entry := hexposes.source_not_entry
  entry_isEntry := hexposes.entry_isEntry
  entry_not_safe := h.isSafe_eq_false hexposes.entry_not_safe
  interior_not_entry := hexposes.interior_not_entry
  interior_not_safe id hid := h.isSafe_eq_false (hexposes.interior_not_safe id hid)
  interior_not_hazard hex id hid :=
    h.isHazard_eq_false (hexposes.interior_not_safe id hid)
      (hexposes.interior_not_hazard hex id hid)

end Safer

/-! ### Hazards that are entries -/

/-- The hazards that can be called from outside, by number. -/
def Prepared.exposed (pre : Prepared) : List Nat :=
  pre.graph.hazards.filter pre.graph.isEntry

/-- A finding shows that a hazard is an entry exactly if it is one. -/
theorem Mirrors.exposes_iff (hpre : Mirrors p pre) (o : Options) (grouping : Grouping) {n : Nat} :
    (∃ f ∈ pre.findings o, (pre.context grouping).Exposes f n) ↔ n ∈ pre.exposed := by
  rw [Prepared.exposed, List.mem_filter]
  constructor
  · rintro ⟨f, hf, hsource, -, path, hpath, hlen⟩
    obtain ⟨s, hs, -, rfl⟩ := Prepared.mem_findings.1 hf
    obtain rfl : s = n := hsource
    refine ⟨hs, ?_⟩
    cases hentry : pre.graph.isEntry s with
    | true => rfl
    | false =>
      have htwo := CallGraph.two_le_length_of_mem_paths hentry hpath
      omega
  · rintro ⟨hn, hentry⟩
    have hlt := Prepared.lt_size_of_mem_hazards hn
    have hdest : n ∈ (pre.graph.search o n).destinations := by
      rw [CallGraph.search_of_isEntry hlt hentry]
      exact List.mem_singleton_self n
    obtain ⟨path, hpath⟩ := CallGraph.exists_mem_paths_of_mem_destinations hdest
    have hone := CallGraph.length_of_mem_paths_of_isEntry hlt hentry hpath
    exact ⟨_, Prepared.mem_findings.2 ⟨n, hn, List.ne_nil_of_mem hdest, rfl⟩, rfl,
      (hpre.standing_of_mem_hazards hn).1, path, hpath, by omega⟩

/-- A report names the hazards that are entries, in order. -/
theorem Concurrent.Returns.exposedSources_eq {σ : Type} [Receiver σ] {receiver receiver' : σ}
    {report : Report} (h : Returns pre o grouping receiver report receiver')
    (hpre : Mirrors p pre) :
    report.collection.exposedSources =
      pre.exposed.map fun n ↦ pre.numbering.label (some n) := by
  obtain ⟨n, cancelled, st, hreach, hmain, rfl⟩ := h.exists_reaches
  obtain ⟨order, col', horder, hcollect, -⟩ := complete_of_returned hreach hmain
  obtain ⟨col, hholds, hsummary, -⟩ := Collector.collect_cases hcollect
  have hmem : ∀ n, n ∈ ascending col.exposed ↔ n ∈ pre.exposed := by
    intro n
    rw [mem_ascending, hholds.mem_exposed_iff, ← hpre.exposes_iff o grouping]
    exact exists_congr fun f ↦ and_congr_left fun _ ↦ horder.mem_iff
  have hsorted : pre.exposed.Pairwise (· ≤ ·) :=
    ((List.pairwise_lt_range.imp Nat.le_of_lt).filter _).filter _
  have hnodup : pre.exposed.Nodup := (List.nodup_range.filter _).filter _
  have hperm : (ascending col.exposed).Perm pre.exposed :=
    (List.perm_ext_iff_of_nodup (nodup_ascending _) hnodup).2 hmem
  rw [hsummary]
  exact congrArg (List.map _) (hperm.eq_of_pairwise
    (fun _ _ _ _ ↦ Nat.le_antisymm) (pairwise_ascending _) hsorted)

/-- Hazards that are entries can only become safe. -/
theorem Safer.exposed_sublist (h : Safer pre pre') (hpre : Mirrors p pre) (hpre' : Mirrors p pre')
    (hsize : pre'.graph.size = pre.graph.size) : pre'.exposed.Sublist pre.exposed := by
  unfold Prepared.exposed CallGraph.hazards
  rw [List.filter_filter, List.filter_filter, hsize]
  refine List.monotone_filter_right _ fun n hn ↦ ?_
  obtain ⟨hentry, hhazard⟩ := Bool.and_eq_true_iff.1 hn
  obtain ⟨id, hid⟩ := hpre'.exists_id? (CallGraph.lt_size_of_isHazard hhazard)
  have hid' : pre.numbering.id? n = some id := h.numbering ▸ hid
  refine Bool.and_eq_true_iff.2 ⟨?_, ?_⟩
  · rw [hpre.isEntry hid', ← hpre'.isEntry hid]
    exact hentry
  · rw [hpre.isHazard hid', ← Prepared.isHazard_eq hid']
    refine h.isHazard ?_
    rw [Prepared.isHazard_eq hid, ← hpre'.isHazard hid]
    exact hhazard

/-- **Marking methods safe only removes findings.** Let rules that mark methods safe be put in
anywhere. Every chain of the report then has its like in the report without them, with the same
note, the same dangerous method and the same entry. The exposed sources are some of those without
them, and no method is a hazard that was none. -/
theorem safe_rules_only_remove {σ : Type} [Receiver σ] (p : Program) {rules rules' : List Rule}
    (hsafe : Rule.AddsSafe rules rules') (grouping : Grouping) (receiver receiver' : σ)
    (report report' : Report) (w w' : Watched σ)
    (h : Concurrent.Returns (prepare p rules).value (.uncapped true) grouping { receiver } report w)
    (h' : Concurrent.Returns (prepare p rules').value (.uncapped true) grouping
      { receiver := receiver' } report' w') :
    (∀ c' ∈ w'.chains, ∃ c ∈ w.chains, c.Agrees c' ∧ ∃ source entry,
      Shows p (prepare p rules').value (.uncapped true) source entry c' ∧
        Shows p (prepare p rules).value (.uncapped true) source entry c) ∧
    report'.collection.exposedSources.Sublist report.collection.exposedSources ∧
    ∀ id, (prepare p rules').value.isHazard id = true →
      (prepare p rules).value.isHazard id = true := by
  have hpre := mirrors_prepare p rules
  have hpre' := mirrors_prepare p rules'
  have hsafer := safer_prepare hsafe p
  refine ⟨fun c' hc' ↦ ?_, ?_, fun id ↦ hsafer.isHazard⟩
  · obtain ⟨source, entry, ids, hexposes, htells⟩ := h'.exists_shows hpre' hc'
    have hshows' : Shows p (prepare p rules').value (.uncapped true) source entry c' :=
      ⟨ids, hexposes, htells⟩
    obtain ⟨c, hc, hagrees, hshows⟩ := h'.exists_agrees hpre' h hpre hsafer.numbering.symm
      (Search.Options.cap_eq_none rfl rfl) rfl hc' hshows' (hsafer.noteOf source).symm
      (hsafer.exposes hexposes)
    exact ⟨c, hc, hagrees, source, entry, hshows', hshows⟩
  · rw [h.exposedSources_eq hpre, h'.exposedSources_eq hpre', hsafer.numbering]
    refine (hsafer.exposed_sublist hpre hpre' ?_).map _
    rw [size_graph_prepare, size_graph_prepare]

/-- A rule that finds the method at the top harmless. -/
def onBase : Rule :=
  ⟨"Plugin", ["Run"], .memberTrimming, "Trim", .safe "reviewed", "rules.json"⟩

/-- A method becomes safe, and its warning still comes down to the method that overrides it. That
one is reported with and without the rule. -/
theorem safe_rules_only_remove_indirect :
    (prepare indirect (onBase :: onPlugins)).value.isSafe "base" = true ∧
    ∃ (report report' : Report) (w w' : Watched Transcript) (c c' : Chain),
      ((prepare indirect onPlugins).value.run (.uncapped true) .caller false
        { receiver := {} }).value = (w, .ok report) ∧
      ((prepare indirect (onBase :: onPlugins)).value.run (.uncapped true) .caller false
        { receiver := {} }).value = (w', .ok report') ∧
      c ∈ w.chains ∧ c' ∈ w'.chains ∧ c.Agrees c' ∧
      report'.collection.exposedSources.Sublist report.collection.exposedSources := by
  refine ⟨by decide +kernel, ?_⟩
  obtain ⟨w, report, hrun⟩ := Concurrent.exists_run_transcript
    (prepare indirect onPlugins).value (.uncapped true) .caller
  obtain ⟨w', report', hrun'⟩ := Concurrent.exists_run_transcript
    (prepare indirect (onBase :: onPlugins)).value (.uncapped true) .caller
  have hway : Exposes indirect (prepare indirect (onBase :: onPlugins)).value (.uncapped true)
      "impl" "main" ["impl", "help", "main"] := by decide +kernel
  obtain ⟨c', hc', -⟩ := (Concurrent.Returns.alone hrun').exists_chain (mirrors_prepare ..)
    (Search.Options.cap_eq_none rfl rfl) rfl hway
    (a := .warn ⟨"Trim", "risky", .memberTrimming⟩) (by decide +kernel) List.mem_cons_self
  have hsafe : Rule.AddsSafe onPlugins (onBase :: onPlugins) := .insert rfl (.keep _ .nil)
  obtain ⟨hchains, hexposed, -⟩ := safe_rules_only_remove indirect hsafe .caller {} {} report
    report' w w' (.alone hrun) (.alone hrun')
  obtain ⟨c, hc, hagrees, -⟩ := hchains c' hc'
  exact ⟨report, report', w, w', c, c', hrun, hrun', hc, hc', hagrees, hexposed⟩

end Analysis

end HazardTrace
