import HazardTrace.Proofs.Collector.Handed
import HazardTrace.Proofs.Collector.Order
import HazardTrace.Proofs.Collector.Stopping
import HazardTrace.Proofs.Report.Written
import HazardTrace.Report.Delivery

/-!
# The order of arrival is not written down

Findings may repeat each other in any way, and of records with one key only the first is kept. Which
one that is depends on the order of arrival, and the notes of the candidates may differ: a note is
compared as text, and a text does not tell where its category ends. So the order does show in the
chains that a receiver is handed, as the example at the end has it. It shows in nothing that goes
back to keys, though, and a written report is made of such things alone.

`Chain.print` is what a report writes of a chain, and `Delivery.print` what it writes of a delivery.
Three facts lead to the main result, `collect_independent_of_arrival`.

* The prints of a report's chains are the same in every order (`Context.prints_chainsOf_perm`): the
  frames of a chain follow from its methods (`Context.frames_of_mem_records`), and all else stands
  in the key.
* If chains are arranged by dangerous method or by entry, the labels are read off the print
  (`Grouping.readsPrints_levels`), and so whole deliveries print alike
  (`Context.map_print_deliveries`). The
  grouping by immediate caller has a level by category of the note, which does show the order, and
  without grouping the chains come in the order of the findings.
* A report in text or JSON reads prints only. It is therefore left in one state by the two lists of
  deliveries (`exists_collect_of_readsPrints`), and has written the same bytes.

The summaries are compared without any of this, by `Holds.summary_eq_but_notes`. A summary does not
depend on the receiver (`summary_eq_of_collect`), so those of the written reports are the ones of
the watched receivers.
-/

namespace HazardTrace

/-- The dangerous method and the entry of a chain stand in its key. -/
theorem Grouping.readsPrints_levels (s : Numbering Method) {g : Grouping}
    (h : g = .callee ∨ g = .caller) : ∀ level ∈ g.levels s, level.ReadsPrints := by
  intro level hlevel
  rcases h with rfl | rfl
  · obtain rfl := List.mem_singleton.1 hlevel
    exact ⟨fun p ↦ s.label p.key.nodes.head?, fun _ ↦ rfl⟩
  · obtain rfl := List.mem_singleton.1 hlevel
    exact ⟨fun p ↦ s.label p.key.nodes.getLast?, fun _ ↦ rfl⟩

theorem Grouping.isGrouped_of_callee_or_caller {g : Grouping} (h : g = .callee ∨ g = .caller) :
    g.isGrouped = true := by
  rcases h with rfl | rfl <;> rfl

namespace Collector

variable {ctx : Context} {fs fs' : List Finding} {c : Chain}

/-- The printed form of those of the methods that are known. -/
def Context.framesOf (ctx : Context) (nodes : List Nat) : List String :=
  nodes.filterMap fun node ↦ (ctx.numbering.detail? node).map Method.fullName

/-- The frames of a record are the printed forms of its methods. -/
theorem Context.frames_of_mem_records {f : Finding} (h : c ∈ ctx.records f) :
    c.frames = ctx.framesOf c.nodes := by
  obtain ⟨path, -, -, ⟨r, -, rfl⟩ | ⟨calls, -, call, -, rfl⟩⟩ := mem_records_iff.1 h
  · rfl
  · rfl

/-- Prints follow from keys, so they are the same in every order. -/
theorem Context.prints_chainsOf_perm (ctx : Context) (hperm : fs.Perm fs') :
    ((ctx.chainsOf fs).map Chain.print).Perm ((ctx.chainsOf fs').map Chain.print) := by
  have hprints : ∀ fs, (ctx.chainsOf fs).map Chain.print =
      ((ctx.chainsOf fs).map Chain.key).map fun k ↦ ⟨k, ctx.framesOf k.nodes⟩ := by
    intro fs
    rw [List.map_map]
    refine List.map_congr_left fun c hc ↦ ?_
    obtain ⟨f, -, hcf⟩ := exists_mem_records hc
    exact congrArg (Chain.Print.mk c.key) (frames_of_mem_records hcf)
  rw [hprints, hprints]
  exact (ctx.keys_chainsOf_perm hperm).map _

/-- **Deliveries print alike in every order**, if chains are arranged by dangerous method or by
entry. -/
theorem Context.map_print_deliveries (hgrouping : ctx.grouping = .callee ∨ ctx.grouping = .caller)
    (hperm : fs.Perm fs') :
    (ctx.deliveries fs).map Delivery.print = (ctx.deliveries fs').map Delivery.print := by
  have hgrouped := Grouping.isGrouped_of_callee_or_caller hgrouping
  -- some order of the chains of `fs'` prints like the chains of `fs`, one by one
  obtain ⟨l, hl, hlperm⟩ : ∃ l : List Chain,
      (ctx.chainsOf fs).map Chain.print = l.map Chain.print ∧ l.Perm (ctx.chainsOf fs') := by
    have h := ctx.prints_chainsOf_perm hperm
    rwa [← congrFun (congrFun (List.eq_map_comp_perm Chain.print) _) _] at h
  have hdiffer : l.Pairwise Chain.Differs :=
    hlperm.symm.pairwise (List.pairwise_pwFilter _) fun h ↦ Ne.symm h
  have houtline := map_print_outline (Grouping.readsPrints_levels ctx.numbering hgrouping) hl
  rw [outline_eq_of_perm _ hdiffer hlperm] at houtline
  simp only [deliveries, delivered, hgrouped, if_true, List.map_append, houtline]

/-- A receiver that reads prints is left in one state by the reports on findings in two orders. -/
theorem exists_collect_of_readsPrints {σ : Type} [Receiver σ] (hσ : Receiver.ReadsPrints σ)
    (hgrouping : ctx.grouping = .callee ∨ ctx.grouping = .caller) (hperm : fs.Perm fs')
    {receiver receiver' : σ}
    (hreceive : Receiver.receiveAll receiver (ctx.deliveries fs) = (receiver', .ok ())) :
    ∃ (col col' : Collector σ) (s s' : Summary), collect ctx { receiver } fs = (col, .ok s) ∧
      collect ctx { receiver } fs' = (col', .ok s') ∧ col.receiver = col'.receiver := by
  have hreceive' := hreceive
  rw [hσ.receiveAll_eq receiver (Context.map_print_deliveries hgrouping hperm)] at hreceive'
  obtain ⟨col, s, hcollect, hcol⟩ := exists_collect_of_deliveries hreceive
  obtain ⟨col', s', hcollect', hcol'⟩ := exists_collect_of_deliveries hreceive'
  exact ⟨col, col', s, s', hcollect, hcollect', hcol.trans hcol'.symm⟩

section Written

variable {ω : Type} [Writer ω] {w : ω}

/-- A text report takes all deliveries if its bytes are taken. -/
theorem Context.exists_receiveAll_text (ctx : Context) (hw : Writer.NeverFails w)
    (fs : List Finding) :
    ∃ r, Receiver.receiveAll ({ out := w } : TextReport ω) (ctx.deliveries fs) = (r, .ok ()) := by
  obtain ⟨r, hr, -⟩ := TextReport.takes_deliveries (ctx.deliveries fs) { out := w } hw
  exact ⟨r, hr⟩

/-- So does a JSON report, as an outline opens and closes its groups in pairs. -/
theorem Context.exists_receiveAll_json (hgrouped : ctx.grouping.isGrouped = true)
    (hw : Writer.NeverFails w) (fs : List Finding) :
    ∃ r, Receiver.receiveAll ({ out := w } : JsonReport ω) (ctx.deliveries fs) = (r, .ok ()) := by
  have htakes := (JsonReport.takes_bracketed (ω := ω)
    (bracketed_outline (ctx.grouping.levels ctx.numbering) (ctx.chainsOf fs)) 0).append
      JsonReport.takes_finish
  obtain ⟨r, hr, -⟩ := htakes { out := w } ⟨rfl, rfl, hw⟩
  refine ⟨r, ?_⟩
  rw [deliveries, delivered, if_pos hgrouped, if_pos hgrouped]
  exact hr

end Written

/-- The summary of a report does not depend on its receiver. -/
theorem summary_eq_of_collect {σ τ : Type} [Receiver σ] [Receiver τ] {receiver : σ} {receiver' : τ}
    {col : Collector σ} {col' : Collector τ} {s s' : Summary}
    (h : collect ctx { receiver } fs = (col, .ok s))
    (h' : collect ctx { receiver := receiver' } fs = (col', .ok s')) : s' = s := by
  obtain ⟨held, hheld, rfl, -⟩ := collect_cases h
  obtain ⟨held', hheld', rfl, -⟩ := collect_cases h'
  exact hheld.summary_eq hheld'

/-- **A report does not tell in which order its findings came.** Whatever they are, and in whatever
order, the same keys are handed over, each once, and the summaries differ at most in what they say
by category of the note and by group. If chains are arranged by dangerous method or by entry, the
groups are the same too, and so are all bytes of a report in text or JSON. -/
theorem collect_independent_of_arrival {σ τ : Type} [Receiver σ] [Receiver τ]
    (hσ : Receiver.NeverFails σ) (hτ : Receiver.NeverFails τ) (ctx : Context) (receiver : σ)
    (receiver' : τ) {fs fs' : List Finding} (hperm : fs.Perm fs') :
    ∃ (col : Collector (Watched σ)) (col' : Collector (Watched τ)) (s s' : Summary),
      collect ctx { receiver := { receiver } } fs = (col, .ok s) ∧
      collect ctx { receiver := { receiver := receiver' } } fs' = (col', .ok s') ∧
      (col.receiver.chains.map Chain.key).Perm (col'.receiver.chains.map Chain.key) ∧
      s' = { s with perAnnotationCategory := s'.perAnnotationCategory, groups := s'.groups } ∧
      (ctx.grouping = .callee ∨ ctx.grouping = .caller →
        s'.groups = s.groups ∧
        ∀ {ω : Type} [Writer ω] (w : ω), Writer.NeverFails w →
          (∃ text text' : Collector (TextReport ω),
            collect ctx { receiver := { out := w } } fs = (text, .ok s) ∧
            collect ctx { receiver := { out := w } } fs' = (text', .ok s') ∧
            Writer.accepted text.receiver.out = Writer.accepted text'.receiver.out) ∧
          ∃ json json' : Collector (JsonReport ω),
            collect ctx { receiver := { out := w } } fs = (json, .ok s) ∧
            collect ctx { receiver := { out := w } } fs' = (json', .ok s') ∧
            Writer.accepted json.receiver.out = Writer.accepted json'.receiver.out) := by
  obtain ⟨held, col, hheld, hcollect, hhanded⟩ := exists_collect_watched hσ ctx receiver fs
  obtain ⟨held', col', hheld', hcollect', hhanded'⟩ := exists_collect_watched hτ ctx receiver' fs'
  refine ⟨col, col', _, _, hcollect, hcollect', ?_, hheld.summary_eq_but_notes hperm hheld', ?_⟩
  · rw [Watched.chains, Watched.chains, hhanded, hhanded']
    exact ((ctx.chains_deliveries fs).map _).trans ((ctx.keys_chainsOf_perm hperm).trans
      ((ctx.chains_deliveries fs').map _).symm)
  intro hgrouping
  refine ⟨?_, fun w hw ↦ ⟨?_, ?_⟩⟩
  · have hprints : (held.chains.map Chain.print).Perm (held'.chains.map Chain.print) := by
      rw [hheld.chains, hheld'.chains]
      exact ctx.prints_chainsOf_perm hperm
    show outermost ctx held'.chains = outermost ctx held.chains
    rw [outermost, outermost]
    have hlevels := Grouping.readsPrints_levels ctx.numbering hgrouping
    match ctx.grouping.levels ctx.numbering, hlevels with
    | [], _ => rfl
    | level :: _, hlevels => exact ((hlevels level List.mem_cons_self).groups_eq hprints).symm
  · obtain ⟨r, hr⟩ := ctx.exists_receiveAll_text hw fs
    obtain ⟨text, text', s, s', htext, htext', hout⟩ :=
      exists_collect_of_readsPrints TextReport.readsPrints hgrouping hperm hr
    obtain rfl := summary_eq_of_collect hcollect htext
    obtain rfl := summary_eq_of_collect hcollect' htext'
    exact ⟨text, text', htext, htext', by rw [hout]⟩
  · obtain ⟨r, hr⟩ :=
      Context.exists_receiveAll_json (Grouping.isGrouped_of_callee_or_caller hgrouping) hw fs
    obtain ⟨json, json', s, s', hjson, hjson', hout⟩ :=
      exists_collect_of_readsPrints JsonReport.readsPrints hgrouping hperm hr
    obtain rfl := summary_eq_of_collect hcollect hjson
    obtain rfl := summary_eq_of_collect hcollect' hjson'
    exact ⟨json, json', hjson, hjson', by rw [hout]⟩

/-- A method with an unresolved call of the next one, and a warning there whose text is that of the
call with another part of it as category. -/
def sameText : Context where
  numbering := .empty
  marking := ⟨#[{ note := some (.unanalyzed [⟨1, ⟨"Trim", "Json: risky", .memberTrimming⟩⟩]) },
    { note := some (.warn ⟨"Trim: Json", "risky", .memberTrimming⟩) }, {}]⟩
  grouping := .callee

/-- Two findings give records with one key. The order decides which note is kept, and what is
written does not show it. -/
theorem collect_independent_of_arrival_sameText :
    (sameText.chainsOf [⟨0, [[0, 2]]⟩, ⟨1, [[1, 0, 2]]⟩]).map (·.note.category) = ["Trim"] ∧
    (sameText.chainsOf [⟨1, [[1, 0, 2]]⟩, ⟨0, [[0, 2]]⟩]).map (·.note.category) = ["Trim: Json"] ∧
    ∃ (text text' : Collector (TextReport Storage)) (s s' : Summary),
      collect sameText { receiver := { out := {} } } [⟨0, [[0, 2]]⟩, ⟨1, [[1, 0, 2]]⟩] =
        (text, .ok s) ∧
      collect sameText { receiver := { out := {} } } [⟨1, [[1, 0, 2]]⟩, ⟨0, [[0, 2]]⟩] =
        (text', .ok s') ∧
      text.receiver.out.bytes = text'.receiver.out.bytes ∧ s'.groups = s.groups := by
  refine ⟨by decide +kernel, by decide +kernel, ?_⟩
  obtain ⟨-, -, s, s', -, -, -, -, hwritten⟩ :=
    collect_independent_of_arrival (σ := Transcript) (τ := Transcript) (fun _ _ ↦ rfl)
      (fun _ _ ↦ rfl) sameText {} {} (.swap ⟨1, [[1, 0, 2]]⟩ ⟨0, [[0, 2]]⟩ [])
  obtain ⟨hgroups, hwriters⟩ := hwritten (.inl rfl)
  obtain ⟨⟨text, text', htext, htext', hbytes⟩, -⟩ :=
    hwriters ({} : Storage) (Storage.neverFails rfl rfl)
  exact ⟨text, text', s, s', htext, htext', hbytes, hgroups⟩

end Collector

end HazardTrace
