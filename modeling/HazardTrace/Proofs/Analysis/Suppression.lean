import HazardTrace.Proofs.Analysis.Openings
import HazardTrace.Proofs.Analysis.Seeds
import HazardTrace.Proofs.Search.Interior
import Mathlib.Logic.Relation

/-!
# What a suppression silences

A suppression drops the findings of the methods that it annotates. It reaches further than that,
because it puts a note on methods that had none, and a search that excludes interior hazards does
not walk through an annotated method. So the finding of another method is lost if every way to the
entry leads through a method that the rule annotates (`not_forall_finding_survives`). Otherwise it
stays (`finding_survives_suppression`), with one more proviso: a warning that a method has by
inheritance must not have come through a method that the rule annotates, since a configured note
ends the line of overrides.

Which line that is, is a matter of the run: `PassesOn p rules base overriding` says that
`overriding` took its warning from `base`, and each method took it from one base at most
(`passesOn_unique`). Other lines of overrides that lead down to the dangerous method may be cut
without harm.

The theorem rests on two comparisons of the analysis with the rule and the one without.

* `Suppressed` is what holds of all methods: the same ones are safe, and what has a note carries the
  suppression or had a note before. It is read off the marks before inheritance (`seed_concat`) and
  off `Inheritance.note?_inherit_of_adds`. With it a way that avoids the annotated methods stays
  open (`Suppressed.exposes`).
* `noteOf_concat_suppress` is what holds of the dangerous method: its note is the same. That comes
  from `Inheritance.note?_inherit_eq_of_adds`, once the lines of overrides are carried from numbers
  to ids.

What remains is that a report has a chain for every open way (`Concurrent.Returns.exists_agrees`).
-/

namespace HazardTrace

open Search (Options)

/-- A rule behind all others acts on what they have left. -/
theorem Rule.judgeAll_concat (rules : List Rule) (r : Rule) (s : Numbering Method) (u : Nat)
    (mark : Mark) :
    judgeAll (rules ++ [r]) s u mark =
      if r.names s u then r.judge (judgeAll rules s u mark) else judgeAll rules s u mark := by
  rw [judgeAll, List.foldl_append]
  rfl

theorem Program.mem_numberedOverrides {p : Program} {u v : Nat} :
    (u, v) ∈ p.numberedOverrides ↔ ∃ base overriding, (base, overriding) ∈ p.overrides ∧
      p.numbering.number? base = some u ∧ p.numbering.number? overriding = some v := by
  rw [numberedOverrides, List.mem_filterMap]
  constructor
  · rintro ⟨⟨base, overriding⟩, hmem, hpair⟩
    refine ⟨base, overriding, hmem, ?_⟩
    cases hu : p.numbering.number? base <;> cases hv : p.numbering.number? overriding <;> simp_all
  · rintro ⟨base, overriding, hmem, hu, hv⟩
    exact ⟨_, hmem, by simp [hu, hv]⟩

namespace Analysis

variable {p : Program} {rules : List Rule} {rule : Rule} {r : Remark} {a : Note}
  {pre pre' : Prepared} {o : Options} {source entry id : String} {ids : List String}

/-- One more rule for notes leaves a method as it was, or puts its note on an open one. -/
theorem seed_concat (ha : rule.note? = some a) (p : Program) (rules : List Rule) (u : Nat) :
    seed p (rules ++ [rule]) u = seed p rules u ∨ (seed p rules u).isOpen = true ∧
      seed p (rules ++ [rule]) u = { note := some a, safe := (seed p rules u).safe } := by
  have hclosed := Mark.isOpen_annotate (Rule.note?_isConfigured ha)
    (Rule.judgeAll rules p.numbering u {})
  unfold seed
  rw [Rule.judgeAll_concat, Mark.isOpen_addCalls, Mark.safe_addCalls]
  generalize Rule.judgeAll rules p.numbering u {} = mark at *
  split
  · rw [Rule.judge_of_note? ha, Mark.addCalls_of_closed hclosed]
    cases hopen : mark.isOpen with
    | false =>
      rw [Mark.annotate_of_closed a hopen, Mark.addCalls_of_closed hopen]
      exact .inl rfl
    | true =>
      rw [Mark.annotate, if_pos hopen]
      exact .inr ⟨rfl, rfl⟩
  · exact .inl rfl

/-- Before inheritance the new rule has put its suppression on some open methods, and has done
nothing else. -/
theorem adds_seeded (hr : rule.note? = some (.suppress r)) (p : Program) (rules : List Rule) :
    (seeded p rules).Adds r (seeded p (rules ++ [rule])) := by
  intro u
  rw [Marking.note?, Marking.isOpen, marks_seeded, marks_seeded]
  split
  · rcases seed_concat hr p rules u with hsame | ⟨hopen, hseed⟩
    · exact .inl (congrArg some hsame)
    · exact .inr ⟨hopen, congrArg Mark.note hseed⟩
  · exact .inl rfl

/-- The same methods, of which the same are safe. What has a note in the second analysis carries the
suppression, or has a note in the first one. -/
structure Suppressed (r : Remark) (pre pre' : Prepared) : Prop where
  numbering : pre'.numbering = pre.numbering
  isSafe : ∀ id, pre'.isSafe id = pre.isSafe id
  noteOf : ∀ id, (pre'.noteOf id).isSome = true →
    pre'.noteOf id = some (.suppress r) ∨ (pre.noteOf id).isSome = true

theorem suppressed_prepare (hr : rule.note? = some (.suppress r)) (p : Program)
    (rules : List Rule) :
    Suppressed r (prepare p rules).value (prepare p (rules ++ [rule])).value where
  numbering := rfl
  isSafe id := by
    change (p.numbering.number? id).any _ = (p.numbering.number? id).any _
    cases hu : p.numbering.number? id with
    | none => rfl
    | some u =>
      have hlt := Numbering.lt_size_of_id? (Numbering.number?_eq_some_iff.1 hu)
      rw [Option.any_some, Option.any_some, isSafe_prepare_eq_seed p _ hlt,
        isSafe_prepare_eq_seed p _ hlt]
      rcases seed_concat hr p rules u with hsame | ⟨-, hseed⟩
      · rw [hsame]
      · rw [hseed]
  noteOf id hid := by
    change ((p.numbering.number? id).bind _).isSome = true at hid
    change (p.numbering.number? id).bind _ = _ ∨ ((p.numbering.number? id).bind _).isSome = true
    cases hu : p.numbering.number? id with
    | none =>
      rw [hu] at hid
      cases hid
    | some u =>
      rw [hu] at hid
      exact Inheritance.note?_inherit_of_adds (adds_seeded hr p rules) _ _ hid

/-- A way that avoids the suppression stays open to a method that keeps its note. -/
theorem Suppressed.exposes (h : Suppressed r pre pre') (hexposes : Exposes p pre o source entry ids)
    (hkeep : pre'.noteOf source = pre.noteOf source)
    (hclear : ∀ id ∈ ids.tail.dropLast, pre'.noteOf id ≠ some (.suppress r)) :
    Exposes p pre' o source entry ids where
  head := hexposes.head
  last := hexposes.last
  two_le_length := hexposes.two_le_length
  nodup := hexposes.nodup
  leads := hexposes.leads
  source_note := hkeep ▸ hexposes.source_note
  source_not_safe := (h.isSafe source).trans hexposes.source_not_safe
  source_not_entry := hexposes.source_not_entry
  entry_isEntry := hexposes.entry_isEntry
  entry_not_safe := (h.isSafe entry).trans hexposes.entry_not_safe
  interior_not_entry := hexposes.interior_not_entry
  interior_not_safe id hid := (h.isSafe id).trans (hexposes.interior_not_safe id hid)
  interior_not_hazard hex id hid := by
    have hclear' := hexposes.interior_not_hazard hex id hid
    rw [Prepared.isHazard, hexposes.interior_not_safe id hid, Bool.not_false, Bool.and_true]
      at hclear'
    have hnone : (pre'.noteOf id).isSome = false := by
      refine Bool.eq_false_iff.2 fun hsome ↦ ?_
      rcases h.noteOf id hsome with hsuppress | hbefore
      · exact hclear id hid hsuppress
      · exact Bool.false_ne_true (hclear'.symm.trans hbefore)
    rw [Prepared.isHazard, hnone, Bool.false_and]

/-- In the analysis with the given rules, `overriding` takes its warning from `base`. -/
def PassesOn (p : Program) (rules : List Rule) (base overriding : String) : Prop :=
  ∃ u v, p.numbering.number? base = some u ∧ p.numbering.number? overriding = some v ∧
    (seeded p rules).Hands p.numberedOverrides (methodFlags p.numbering Method.isVirtual) u v

/-- A method takes its warning from one base at most. -/
theorem passesOn_unique {base base' overriding : String} (h : PassesOn p rules base overriding)
    (h' : PassesOn p rules base' overriding) : base = base' := by
  obtain ⟨u, v, hu, hv, hhands⟩ := h
  obtain ⟨u', v', hu', hv', hhands'⟩ := h'
  obtain rfl := Option.some.inj (hv.symm.trans hv')
  obtain rfl := Marking.hands_unique hhands hhands'
  exact Option.some.inj ((Numbering.number?_eq_some_iff.1 hu).symm.trans
    (Numbering.number?_eq_some_iff.1 hu'))

/-- Whatever a warning has come through has an id. -/
theorem exists_passesOn {b s : Nat} (hs : p.numbering.id? s = some source)
    (hline : Relation.ReflTransGen ((seeded p rules).Hands p.numberedOverrides
      (methodFlags p.numbering Method.isVirtual)) b s) :
    ∃ base, p.numbering.id? b = some base ∧
      Relation.ReflTransGen (PassesOn p rules) base source := by
  induction hline using Relation.ReflTransGen.head_induction_on with
  | refl => exact ⟨source, hs, .refl⟩
  | @head u v hhands _ ih =>
    obtain ⟨overriding, hv, hline⟩ := ih
    obtain ⟨base, _, -, hu, -⟩ := Program.mem_numberedOverrides.1 hhands.mem
    exact ⟨base, Numbering.number?_eq_some_iff.1 hu,
      .head ⟨u, v, hu, Numbering.number?_eq_some_iff.2 hv, hhands⟩ hline⟩

/-- **A suppression elsewhere leaves the note of a method alone**, unless it stands in the place of
a warning through which the method has got its own. -/
theorem noteOf_concat_suppress (hr : rule.note? = some (.suppress r))
    (hown : (prepare p (rules ++ [rule])).value.noteOf source ≠ some (.suppress r))
    (hbases : ∀ base, Relation.TransGen (PassesOn p rules) base source →
      (prepare p (rules ++ [rule])).value.noteOf base ≠ some (.suppress r)) :
    (prepare p (rules ++ [rule])).value.noteOf source = (prepare p rules).value.noteOf source := by
  have hadds := adds_seeded hr p rules
  have hsettled := Inheritance.settled_inherit (seeded p (rules ++ [rule])) p.numberedOverrides
    (methodFlags p.numbering Method.isVirtual)
  cases hs : p.numbering.number? source with
  | none =>
    change (p.numbering.number? source).bind _ = (p.numbering.number? source).bind _
    rw [hs]
    rfl
  | some s =>
    have hs' := Numbering.number?_eq_some_iff.1 hs
    rw [noteOf_prepare _ hs', noteOf_prepare _ hs']
    refine Inheritance.note?_inherit_eq_of_adds hadds fun b hline ↦ (hadds b).resolve_right ?_
    rintro ⟨-, hnote⟩
    obtain ⟨base, hb, hline⟩ := exists_passesOn hs' hline
    -- where the suppression was put, it is still there after inheritance
    have hput : (prepare p (rules ++ [rule])).value.noteOf base = some (.suppress r) := by
      rw [noteOf_prepare _ hb]
      exact hsettled.note?_eq_of_configured hnote rfl
    rcases Relation.reflTransGen_iff_eq_or_transGen.1 hline with rfl | hline
    · exact hown hput
    · exact hbases base hline hput

/-- **What a suppression leaves alone is still reported.** Let a rule that suppresses be put behind
all others. A chain of the report without it has its like in the report with it, with the same note,
the same dangerous method and the same entry, as long as this holds: the rule annotates neither the
dangerous method nor a method through which that has inherited its warning, and some way to the
entry avoids the methods that the rule annotates. -/
theorem finding_survives_suppression {σ : Type} [Receiver σ] (p : Program) (rules : List Rule)
    {rule : Rule} {text : String} (hrule : rule.action = .suppress text) (grouping : Grouping)
    (receiver receiver' : σ) (report report' : Report) (w w' : Watched σ)
    (h : Concurrent.Returns (prepare p rules).value (.uncapped true) grouping { receiver } report w)
    (h' : Concurrent.Returns (prepare p (rules ++ [rule])).value (.uncapped true) grouping
      { receiver := receiver' } report' w')
    {c : Chain} (hc : c ∈ w.chains) {source entry : String}
    (hshows : Shows p (prepare p rules).value (.uncapped true) source entry c)
    (hown : (prepare p (rules ++ [rule])).value.noteOf source ≠ rule.note?)
    (hbases : ∀ base, Relation.TransGen (PassesOn p rules) base source →
      (prepare p (rules ++ [rule])).value.noteOf base ≠ rule.note?)
    {ids : List String} (hway : Exposes p (prepare p rules).value (.uncapped true) source entry ids)
    (hclear : ∀ id ∈ ids.tail.dropLast,
      (prepare p (rules ++ [rule])).value.noteOf id ≠ rule.note?) :
    ∃ c' ∈ w'.chains, c'.Agrees c ∧
      Shows p (prepare p (rules ++ [rule])).value (.uncapped true) source entry c' := by
  obtain ⟨r, hr⟩ : ∃ r, rule.note? = some (.suppress r) := by
    rw [Rule.note?, hrule]
    exact ⟨_, rfl⟩
  rw [hr] at hown hbases hclear
  have hkeep := noteOf_concat_suppress hr hown hbases
  have hsuppressed := suppressed_prepare hr p rules
  exact h.exists_agrees (mirrors_prepare p rules) h' (mirrors_prepare p _) rfl
    (Search.Options.cap_eq_none rfl rfl) rfl hc hshows hkeep
    (hsuppressed.exposes hway hkeep hclear)

/-- A method calls a dangerous one and is called by an entry. -/
def oneWay : Program where
  methods := [
    { id := "risk", name := "Risk", signature := "Risk()", declaringType := "Lib" },
    { id := "help", name := "Help", signature := "Help()", declaringType := "Helper" },
    { id := "main", name := "Main", signature := "Main()", declaringType := "App",
      isPublic := true }]
  edges := [("help", "risk"), ("main", "help")]

/-- There is a second way, and the dangerous method overrides two others. One of these is where a
warning starts, the other one has a warning that comes from further up. -/
def twoWays : Program where
  methods := oneWay.methods ++ [
    { id := "other", name := "Other", signature := "Other()", declaringType := "Helper" },
    { id := "base", name := "Run", signature := "Run()", declaringType := "Plugin",
      isVirtual := true },
    { id := "far", name := "Run", signature := "Run()", declaringType := "Service",
      isVirtual := true },
    { id := "mid", name := "Help", signature := "Help(int)", declaringType := "Helper" }]
  edges := oneWay.edges ++ [("other", "risk"), ("main", "other")]
  overrides := [("base", "risk"), ("far", "mid"), ("mid", "risk")]

/-- Warnings on both methods where the lines of overrides begin. -/
def onBases : List Rule :=
  onPlugins ++ [⟨"Service", ["Run"], .memberTrimming, "Trim", .warn "remote", "rules.json"⟩]

/-- A suppression of the method in between. In `twoWays` it falls on a line of overrides as well. -/
def onHelper : Rule :=
  ⟨"Helper", ["Help"], .memberTrimming, "Trim", .suppress "reviewed", "rules.json"⟩

/-- Of the two methods that it overrides, the dangerous one takes its warning from the nearer. -/
theorem passesOn_twoWays {id : String}
    (h : Relation.TransGen (PassesOn twoWays onBases) id "risk") : id = "base" := by
  have hstart : (seeded twoWays onBases).virtualWarnings
      (methodFlags twoWays.numbering Method.isVirtual) =
        [(4, ⟨"Trim", "risky", .memberTrimming⟩), (5, ⟨"Trim", "remote", .memberTrimming⟩)] := by
    decide +kernel
  have hpop : (Inheritance.start (seeded twoWays onBases)
      (methodFlags twoWays.numbering Method.isVirtual)).waiting.pop? =
        some ((4, ⟨"Trim", "risky", .memberTrimming⟩),
          ⟨[(5, ⟨"Trim", "remote", .memberTrimming⟩)], []⟩) := by
    rw [Inheritance.start, hstart]
    rfl
  have hbase : PassesOn twoWays onBases "base" "risk" :=
    ⟨4, 0, by decide +kernel, by decide +kernel, _, _, _, .refl, hpop, by decide +kernel,
      by decide +kernel⟩
  obtain ⟨b, hline, hlast⟩ := Relation.TransGen.tail'_iff.1 h
  obtain rfl := passesOn_unique hlast hbase
  rcases Relation.ReflTransGen.cases_tail hline with heq | ⟨c, -, u, v, hu, hv, hhands⟩
  · exact heq.symm
  · -- the nearer one overrides nothing
    obtain rfl : 4 = v := Option.some.inj (.trans (by decide +kernel) hv)
    have hnone : ∀ q ∈ twoWays.numberedOverrides, q.2 ≠ 4 := by decide +kernel
    exact absurd rfl (hnone _ hhands.mem)

/-- A suppression falls on one of two ways and on one of two lines of overrides. The finding at the
end of both ways is still reported. -/
theorem finding_survives_suppression_twoWays :
    (∀ id ∈ ["help", "mid"], (prepare twoWays (onBases ++ [onHelper])).value.noteOf id =
      some (.suppress ⟨"Trim", "reviewed", .memberTrimming⟩)) ∧
    ∃ (report' : Report) (w' : Watched Transcript) (c' : Chain),
      ((prepare twoWays (onBases ++ [onHelper])).value.run (.uncapped true) .caller false
        { receiver := {} }).value = (w', .ok report') ∧ c' ∈ w'.chains ∧
      Shows twoWays (prepare twoWays (onBases ++ [onHelper])).value (.uncapped true) "risk" "main"
        c' := by
  refine ⟨by decide +kernel, ?_⟩
  obtain ⟨w, report, hrun⟩ := Concurrent.exists_run_transcript
    (prepare twoWays onBases).value (.uncapped true) .caller
  obtain ⟨w', report', hrun'⟩ := Concurrent.exists_run_transcript
    (prepare twoWays (onBases ++ [onHelper])).value (.uncapped true) .caller
  have hway : Exposes twoWays (prepare twoWays onBases).value (.uncapped true) "risk" "main"
      ["risk", "other", "main"] := by decide +kernel
  obtain ⟨c, hc, -, hshows⟩ := (Concurrent.Returns.alone hrun).exists_chain (mirrors_prepare ..)
    (Search.Options.cap_eq_none rfl rfl) rfl hway
    (a := .warn ⟨"Trim", "risky", .memberTrimming⟩) (by decide +kernel) List.mem_cons_self
  have hbases : ∀ base, Relation.TransGen (PassesOn twoWays onBases) base "risk" →
      (prepare twoWays (onBases ++ [onHelper])).value.noteOf base ≠ onHelper.note? := by
    intro base hline
    rw [passesOn_twoWays hline]
    decide +kernel
  obtain ⟨c', hc', -, hshows'⟩ := finding_survives_suppression twoWays onBases rfl .caller {} {}
    report report' w w' (.alone hrun) (.alone hrun') hc hshows (by decide +kernel) hbases hway
    (by decide +kernel)
  exact ⟨report', w', c', hrun', hc', hshows'⟩

/-- A warning on the dangerous method itself. -/
def onLibrary : List Rule :=
  [⟨"Lib", ["Risk"], .memberTrimming, "Trim", .warn "risky", "rules.json"⟩]

/-- Nothing leads past the method in between once it is suppressed. -/
theorem not_exposes_oneWay (ids : List String) :
    ¬ Exposes oneWay (prepare oneWay (onLibrary ++ [onHelper])).value (.uncapped true) "risk" "main"
      ids := by
  intro h
  have hhead := h.head
  have hlast := h.last
  have hleads := h.leads
  match ids, h.two_le_length with
  | a :: b :: rest, _ =>
    obtain rfl : a = "risk" := by simpa using hhead
    obtain rfl : b = "help" := by
      simpa [oneWay] using (List.isChain_cons_cons.1 hleads).1.1
    match rest with
    | [] => exact absurd hlast (by decide)
    | z :: rest =>
      have hclear := h.interior_not_hazard rfl "help" (by simp)
      have hhazard : (prepare oneWay (onLibrary ++ [onHelper])).value.isHazard "help" = true := by
        decide +kernel
      cases hhazard.symm.trans hclear

/-- A suppression can silence the finding of a method that it does not annotate. -/
theorem not_forall_finding_survives :
    ¬ ∀ (p : Program) (rules : List Rule) (rule : Rule) (text : String),
      rule.action = .suppress text → ∀ (report report' : Report) (w w' : Watched Transcript),
        Concurrent.Returns (prepare p rules).value (.uncapped true) .none
          { receiver := {} } report w →
        Concurrent.Returns (prepare p (rules ++ [rule])).value (.uncapped true) .none
          { receiver := {} } report' w' →
        ∀ c ∈ w.chains, ∀ source entry,
          Shows p (prepare p rules).value (.uncapped true) source entry c →
          (prepare p (rules ++ [rule])).value.noteOf source ≠ rule.note? →
            ∃ c' ∈ w'.chains, c'.note.text = c.note.text ∧
              Shows p (prepare p (rules ++ [rule])).value (.uncapped true) source entry c' := by
  intro hall
  obtain ⟨w, report, hrun⟩ := Concurrent.exists_run_transcript
    (prepare oneWay onLibrary).value (.uncapped true) .none
  obtain ⟨w', report', hrun'⟩ := Concurrent.exists_run_transcript
    (prepare oneWay (onLibrary ++ [onHelper])).value (.uncapped true) .none
  have hway : Exposes oneWay (prepare oneWay onLibrary).value (.uncapped true) "risk" "main"
      ["risk", "help", "main"] := by decide +kernel
  obtain ⟨c, hc, -, hshows⟩ := (Concurrent.Returns.alone hrun).exists_chain (mirrors_prepare ..)
    (Search.Options.cap_eq_none rfl rfl) rfl hway
    (a := .warn ⟨"Trim", "risky", .memberTrimming⟩) (by decide +kernel) List.mem_cons_self
  obtain ⟨c', -, -, ids, hexposes, -⟩ := hall oneWay onLibrary onHelper "reviewed" rfl report
    report' w w' (.alone hrun) (.alone hrun') c hc "risk" "main" hshows (by decide +kernel)
  exact not_exposes_oneWay ids hexposes

end Analysis

end HazardTrace
