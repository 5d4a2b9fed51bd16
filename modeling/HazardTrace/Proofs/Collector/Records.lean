import HazardTrace.Collector
import HazardTrace.Proofs.Ordering

/-!
# What a collector holds

A collector takes observations one at a time. What it holds afterwards depends only on the list of
observations, with their sources (`Context.sightings`). `Holds` says what that is:

* its chains are the records of the observations, with the later ones of each key left out
  (`Holds.chains`). Leaving out is `List.pwFilter`, with the latest record first;
* the records that were left out are its duplicates, and the suppressed paths and the exposed
  sources are counted and listed as they came;
* whatever it has handed over was taken without failure (`Holds.receiver`). Without arrangement
  these are its chains in the order in which they came, and with it nothing.

This is an invariant of the steps. `Holds.take` is the one with an argument in it: a chain is new to
the collector exactly if the filter keeps it (`any_sameKey_iff`). From there it goes outwards along
the definitions, `Holds.observe` and `Holds.observeAll` for the observations of a finding,
`Holds.process` for the finding, and `holds_processAll` for a whole collection. `collect_cases` adds
the end of the report: the summary is that of what is held, and the receiver has taken all
deliveries of the report (`Context.deliveries`), which are a function of the findings.

Which records there are is said path by path (`Context.mem_records_iff`).

All this is about collections that succeed. A receiver that never fails makes them succeed
(`exists_collect_of_neverFails`), and so does an arrangement as long as the report has not ended
(`takesChains_of_isGrouped`); both go through `TakesChains`, so that the run lemmas are stated once.
With a reliable receiver, draining a channel that announces its end is the same as collecting
(`value_drain`).
-/

namespace HazardTrace

namespace Receiver

variable {σ : Type} [Receiver σ] {s s' s'' : σ} {ds ds' : List Delivery}

/-- Deliveries that succeed leave the receiver to those behind them. -/
theorem receiveAll_append_of_ok (h : receiveAll s ds = (s', .ok ())) :
    receiveAll s (ds ++ ds') = receiveAll s' ds' := by
  induction ds generalizing s with
  | nil =>
    obtain rfl := (Prod.mk.inj h).1
    rfl
  | cons d ds ih =>
    rw [receiveAll] at h
    rw [List.cons_append, receiveAll]
    split at h
    · exact ih h
    · cases (Prod.mk.inj h).2

theorem receiveAll_singleton {d : Delivery} (h : receive s d = (s', .ok ())) :
    receiveAll s [d] = (s', .ok ()) := by
  rw [receiveAll, h]
  rfl

/-- A receiver that takes whatever it is given. -/
def NeverFails (σ : Type) [Receiver σ] : Prop :=
  ∀ (s : σ) d, (receive s d).2 = .ok ()

/-- A receiver that takes whatever it is given and never asks for cancellation. -/
structure Reliable (σ : Type) [Receiver σ] : Prop where
  receive_ok : ∀ (s : σ) d, (receive s d).2 = .ok ()
  not_cancels : ∀ s : σ, cancels s = false

theorem NeverFails.exists_receive (h : NeverFails σ) (s : σ) (d : Delivery) :
    ∃ s', receive s d = (s', .ok ()) :=
  ⟨(receive s d).1, Prod.ext rfl (h s d)⟩

/-- A receiver that never fails takes any list of deliveries. -/
theorem NeverFails.exists_receiveAll (h : NeverFails σ) (s : σ) (ds : List Delivery) :
    ∃ s', receiveAll s ds = (s', .ok ()) := by
  induction ds generalizing s with
  | nil => exact ⟨s, rfl⟩
  | cons d ds ih =>
    obtain ⟨s', hs'⟩ := h.exists_receive s d
    rw [receiveAll, hs']
    exact ih s'

end Receiver

namespace Collector

/-! ### Records -/

/-- The chain that an observation adds to the report, unless it is known already. -/
def Context.record? (ctx : Context) : Observation → Option Chain
  | .chain nodes note => some (ctx.chain nodes note)
  | .exposed | .suppressed => none

/-- What a finding shows, with its source. -/
def Context.sightings (ctx : Context) (f : Finding) : List (Nat × Observation) :=
  ((ctx.marking.note? f.source).elim [] (observations · f)).map (f.source, ·)

/-- The chains that sightings add to the report, repeated ones included. -/
def Context.recordsOf (ctx : Context) (l : List (Nat × Observation)) : List Chain :=
  l.filterMap fun p ↦ ctx.record? p.2

/-- The chains that a finding adds to the report, repeated ones included. -/
def Context.records (ctx : Context) (f : Finding) : List Chain :=
  ctx.recordsOf (ctx.sightings f)

/-! ### Records along a path -/

section Paths

variable {ctx : Context} {f : Finding} {c : Chain} {a : Note}

/-- The records of one path. -/
def Context.recordsAlong (ctx : Context) (a : Note) (path : List Nat) : List Chain :=
  (observePath a path).filterMap ctx.record?

/-- The records of a finding are those of its paths, in order. -/
theorem Context.records_eq_flatMap (h : ctx.marking.note? f.source = some a) :
    ctx.records f = f.paths.flatMap (ctx.recordsAlong a) := by
  rw [records, recordsOf, sightings, h, Option.elim_some, List.filterMap_map, observations]
  exact List.filterMap_flatMap ..

/-- A finding for a method without note has no records. -/
theorem Context.records_eq_nil (h : ctx.marking.note? f.source = none) : ctx.records f = [] := by
  rw [records, sightings, h]
  rfl

/-- The records of a path by the note on its source. A path of one method gives none, and neither
does a suppressed source. -/
theorem Context.recordsAlong_eq (ctx : Context) (a : Note) (path : List Nat) :
    ctx.recordsAlong a path =
      if path.length < 2 then [] else
        match a with
        | .suppress _ => []
        | .warn r => [ctx.chain path (.warn r)]
        | .unanalyzed calls =>
          calls.map fun call ↦ ctx.chain (call.target :: path) (.warn call.remark) := by
  unfold recordsAlong observePath
  split
  · rfl
  · cases a with
    | suppress r => rfl
    | warn r => rfl
    | unanalyzed calls => simp [List.filterMap_map, Function.comp_def, record?]

/-- **The records of a finding.** A path of two methods or more gives a record for a warning on its
source, or one for each unresolved call there; the method that is called reflectively stands in
front. -/
theorem Context.mem_records_iff : c ∈ ctx.records f ↔
    ∃ path ∈ f.paths, 2 ≤ path.length ∧
      ((∃ r, ctx.marking.note? f.source = some (.warn r) ∧ c = ctx.chain path (.warn r)) ∨
        ∃ calls, ctx.marking.note? f.source = some (.unanalyzed calls) ∧
          ∃ call ∈ calls, c = ctx.chain (call.target :: path) (.warn call.remark)) := by
  cases hnote : ctx.marking.note? f.source with
  | none => simp [records_eq_nil hnote]
  | some a =>
    rw [records_eq_flatMap hnote, List.mem_flatMap]
    refine exists_congr fun path ↦ and_congr_right fun _ ↦ ?_
    rw [recordsAlong_eq]
    by_cases hlen : path.length < 2
    · simp [hlen, Nat.not_le.2 hlen]
    · rw [if_neg hlen]
      cases a with
      | suppress r => simp
      | warn r => simp [Nat.not_lt.1 hlen]
      | unanalyzed calls => simp [Nat.not_lt.1 hlen, eq_comm]

end Paths

/-! ### What is held -/

/-- The chains as they reach the receiver before the report is closed. Only chains without
arrangement do. -/
def Context.delivered (ctx : Context) (chains : List Chain) : List Delivery :=
  if ctx.grouping.isGrouped then [] else chains.reverse.map .chain

variable {σ : Type} [Receiver σ]

/-- What a collector holds after `n` findings and the sightings `l`, latest first. -/
structure Holds (ctx : Context) (receiver : σ) (n : Nat) (l : List (Nat × Observation))
    (col : Collector σ) : Prop where
  chains : col.chains = (ctx.recordsOf l).pwFilter Chain.Differs
  duplicates : col.duplicates + col.chains.length = (ctx.recordsOf l).length
  suppressed : col.suppressed = l.countP (·.2 == .suppressed)
  exposed : col.exposed = (l.filter (·.2 == .exposed)).map (·.1)
  findings : col.findings = n
  receiver : Receiver.receiveAll receiver (ctx.delivered col.chains) = (col.receiver, .ok ())

/-- What collectors have seen decides what they hold. -/
theorem Holds.agrees {τ : Type} [Receiver τ] {ctx ctx' : Context} {receiver : σ} {receiver' : τ}
    {n : Nat} {l : List (Nat × Observation)} {col : Collector σ} {col' : Collector τ}
    (h : Holds ctx receiver n l col) (h' : Holds ctx' receiver' n l col')
    (hrecords : ctx'.recordsOf l = ctx.recordsOf l) :
    col'.chains = col.chains ∧ col'.duplicates = col.duplicates ∧
      col'.suppressed = col.suppressed ∧ col'.findings = col.findings ∧
      col'.exposed = col.exposed := by
  have hchains : col'.chains = col.chains := by
    rw [h.chains, h'.chains, hrecords]
  have hduplicates : col'.duplicates = col.duplicates := by
    have hlength := h.duplicates
    have hlength' := h'.duplicates
    rw [hchains, hrecords] at hlength'
    omega
  exact ⟨hchains, hduplicates, h'.suppressed.trans h.suppressed.symm,
    h'.findings.trans h.findings.symm, h'.exposed.trans h.exposed.symm⟩

/-- What collectors have seen decides what they say. -/
theorem Holds.summary_eq {τ : Type} [Receiver τ] {ctx : Context} {receiver : σ} {receiver' : τ}
    {n : Nat} {l : List (Nat × Observation)} {col : Collector σ} {col' : Collector τ}
    (h : Holds ctx receiver n l col) (h' : Holds ctx receiver' n l col') :
    col'.summary ctx = col.summary ctx := by
  obtain ⟨hchains, hduplicates, hsuppressed, hfindings, hexposed⟩ := h.agrees h' rfl
  rw [summary, summary, hchains, hduplicates, hsuppressed, hfindings, hexposed]

section Steps

variable {ctx : Context} {receiver : σ} {n : Nat} {l : List (Nat × Observation)}
  {col col' : Collector σ}

/-- At first a collector holds nothing. -/
theorem holds_start (ctx : Context) (receiver : σ) : Holds ctx receiver 0 [] { receiver } where
  chains := rfl
  duplicates := rfl
  suppressed := rfl
  exposed := rfl
  findings := rfl
  receiver := by simp [Context.delivered, Receiver.receiveAll]

/-- A chain is known exactly if it does not differ from all chains that are held. -/
theorem any_sameKey_iff {chains : List Chain} {c : Chain} :
    chains.any (·.sameKey c) = true ↔ ¬ ∀ b ∈ chains, Chain.Differs c b := by
  simp only [List.any_eq_true, Chain.sameKey_iff, Chain.Differs, ne_eq, not_forall, not_not,
    exists_prop]
  exact exists_congr fun b ↦ and_congr_right fun _ ↦ eq_comm

/-- A chain of a known key is counted. Any other is kept and, without arrangement, handed over. -/
theorem take_cases {c : Chain} (h : col.take ctx c = (col', .ok ())) :
    ((¬ ∀ b ∈ col.chains, Chain.Differs c b) ∧
      col' = { col with duplicates := col.duplicates + 1 }) ∨
    ((∀ b ∈ col.chains, Chain.Differs c b) ∧ ∃ receiver,
      col' = { col with receiver, chains := c :: col.chains } ∧
      Receiver.receiveAll col.receiver (ctx.delivered [c]) = (receiver, .ok ())) := by
  unfold Collector.take at h
  split at h
  next hknown => exact .inl ⟨any_sameKey_iff.1 hknown, (Prod.mk.inj h).1.symm⟩
  next hnew =>
    refine .inr ⟨not_not.1 (mt any_sameKey_iff.2 hnew), ?_⟩
    split at h
    next hgrouped =>
      refine ⟨col.receiver, (Prod.mk.inj h).1.symm, ?_⟩
      rw [Context.delivered, if_pos hgrouped]
      rfl
    next hgrouped =>
      obtain ⟨hcol, hok⟩ := Prod.mk.inj h
      refine ⟨_, hcol.symm, ?_⟩
      rw [Context.delivered, if_neg hgrouped]
      exact Receiver.receiveAll_singleton (Prod.ext rfl hok)

/-- A later chain is handed over behind the earlier ones. -/
theorem Context.delivered_cons (ctx : Context) (c : Chain) (chains : List Chain) :
    ctx.delivered (c :: chains) = ctx.delivered chains ++ ctx.delivered [c] := by
  unfold delivered
  split <;> simp

/-- The step of one chain. The collector keeps it exactly if the filter does. -/
theorem Holds.take {source : Nat} {nodes : List Nat} {note : Note}
    (h : Holds ctx receiver n l col)
    (htake : col.take ctx (ctx.chain nodes note) = (col', .ok ())) :
    Holds ctx receiver n ((source, .chain nodes note) :: l) col' := by
  have hrecords : ctx.recordsOf ((source, .chain nodes note) :: l) =
      ctx.chain nodes note :: ctx.recordsOf l := rfl
  have hsuppressed : col.suppressed =
      ((source, Observation.chain nodes note) :: l).countP (·.2 == .suppressed) := by
    simpa using h.suppressed
  have hexposed : col.exposed =
      (((source, Observation.chain nodes note) :: l).filter (·.2 == .exposed)).map (·.1) := by
    simpa using h.exposed
  have hlength := h.duplicates
  -- the filter leaves out what the collector counts as a duplicate
  rcases take_cases htake with ⟨hknown, rfl⟩ | ⟨hnew, receiver', rfl, hreceive⟩
  · refine ⟨?_, ?_, hsuppressed, hexposed, h.findings, h.receiver⟩
    · rw [h.chains] at hknown
      rw [hrecords, List.pwFilter_cons_of_neg hknown]
      exact h.chains
    · rw [hrecords, List.length_cons]
      dsimp only
      omega
  · refine ⟨?_, ?_, hsuppressed, hexposed, h.findings, ?_⟩
    · rw [h.chains] at hnew
      rw [hrecords, List.pwFilter_cons_of_pos hnew, h.chains]
    · rw [hrecords, List.length_cons]
      dsimp only
      rw [List.length_cons]
      omega
    · dsimp only
      rw [ctx.delivered_cons, Receiver.receiveAll_append_of_ok h.receiver]
      exact hreceive

/-- The step of one observation. -/
theorem Holds.observe {source : Nat} {o : Observation} (h : Holds ctx receiver n l col)
    (hobserve : col.observe ctx source o = (col', .ok ())) :
    Holds ctx receiver n ((source, o) :: l) col' := by
  cases o with
  | exposed =>
    obtain rfl := (Prod.mk.inj hobserve).1
    refine ⟨h.chains, h.duplicates, ?_, ?_, h.findings, h.receiver⟩
    · simpa using h.suppressed
    · simpa using h.exposed
  | suppressed =>
    obtain rfl := (Prod.mk.inj hobserve).1
    refine ⟨h.chains, h.duplicates, ?_, ?_, h.findings, h.receiver⟩
    · simpa using h.suppressed
    · simpa using h.exposed
  | chain nodes note => exact h.take hobserve

/-- The step of one observation, repeated. -/
theorem Holds.observeAll {source : Nat} {os : List Observation} (h : Holds ctx receiver n l col)
    (hobserve : col.observeAll ctx source os = (col', .ok ())) :
    Holds ctx receiver n ((os.map (source, ·)).reverse ++ l) col' := by
  induction os generalizing col l with
  | nil =>
    obtain rfl := (Prod.mk.inj hobserve).1
    exact h
  | cons o os ih =>
    rw [Collector.observeAll] at hobserve
    split at hobserve
    next col₁ hcol₁ =>
      have := ih (h.observe hcol₁) hobserve
      simpa using this
    · cases (Prod.mk.inj hobserve).2

/-- The step of one finding. One for a method without note is counted and shows nothing. -/
theorem Holds.process {f : Finding} (h : Holds ctx receiver n l col)
    (hprocess : (col.process ctx f).value = (col', .ok ())) :
    Holds ctx receiver (n + 1) ((ctx.sightings f).reverse ++ l) col' := by
  have hcount : Holds ctx receiver (n + 1) l { col with findings := col.findings + 1 } :=
    { h with findings := congrArg (· + 1) h.findings }
  unfold Collector.process at hprocess
  unfold Context.sightings
  cases hnote : ctx.marking.note? f.source with
  | none =>
    rw [hnote] at hprocess
    obtain rfl := (Prod.mk.inj hprocess).1
    exact hcount
  | some a =>
    rw [hnote] at hprocess
    exact hcount.observeAll hprocess

end Steps

/-! ### Whole collections -/

/-- Takes findings in order, up to the first whose chains cannot be handed over. -/
def processAll (ctx : Context) (col : Collector σ) :
    List Finding → Collector σ × Except Error Unit
  | [] => (col, .ok ())
  | f :: fs =>
    match (col.process ctx f).value with
    | (col, .ok ()) => col.processAll ctx fs
    | (col, .error e) => (col, .error e)

/-- Takes findings in order and ends the report. -/
def collect (ctx : Context) (col : Collector σ) (fs : List Finding) :
    Collector σ × Except Error Summary :=
  match col.processAll ctx fs with
  | (col, .ok ()) => (col.finish ctx).value
  | (col, .error e) => (col, .error e)

/-- The chains of a report on the given findings, latest first. -/
def Context.chainsOf (ctx : Context) (fs : List Finding) : List Chain :=
  (ctx.recordsOf (fs.flatMap ctx.sightings).reverse).pwFilter Chain.Differs

/-- What the receiver of a report on the given findings gets. -/
def Context.deliveries (ctx : Context) (fs : List Finding) : List Delivery :=
  ctx.delivered (ctx.chainsOf fs) ++
    ((if ctx.grouping.isGrouped then outline (ctx.grouping.levels ctx.numbering) (ctx.chainsOf fs)
      else []) ++ [.finish])

section Runs

variable {ctx : Context} {receiver : σ} {fs : List Finding} {col col' : Collector σ} {s : Summary}

/-- A further finding is processed by the collector that the others have left. -/
theorem processAll_concat {f : Finding} (h : col.processAll ctx fs = (col', .ok ())) :
    col.processAll ctx (fs ++ [f]) = (col'.process ctx f).value := by
  induction fs generalizing col with
  | nil =>
    obtain rfl := (Prod.mk.inj h).1
    rw [List.nil_append, processAll]
    split
    next heq => rw [heq]; rfl
    next heq => rw [heq]
  | cons f' fs ih =>
    rw [processAll] at h
    rw [List.cons_append, processAll]
    split at h
    · exact ih h
    · cases (Prod.mk.inj h).2

/-- The step of one finding, repeated. -/
theorem Holds.processAll {n : Nat} {l : List (Nat × Observation)} (h : Holds ctx receiver n l col)
    (hprocess : col.processAll ctx fs = (col', .ok ())) :
    Holds ctx receiver (n + fs.length) ((fs.flatMap ctx.sightings).reverse ++ l) col' := by
  induction fs generalizing col n l with
  | nil =>
    obtain rfl := (Prod.mk.inj hprocess).1
    exact h
  | cons f fs ih =>
    rw [Collector.processAll] at hprocess
    split at hprocess
    next col₁ hcol₁ =>
      have hrest := ih (h.process hcol₁) hprocess
      rw [Nat.add_assoc, Nat.add_comm 1] at hrest
      simpa using hrest
    · cases (Prod.mk.inj hprocess).2

/-- **What a collector holds after some findings.** -/
theorem holds_processAll (h : processAll ctx { receiver } fs = (col, .ok ())) :
    Holds ctx receiver fs.length (fs.flatMap ctx.sightings).reverse col := by
  simpa using (holds_start ctx receiver).processAll h

/-- A report that could be ended has the summary of what is held, and the receiver has taken what
closes it. -/
theorem finish_cases (h : (col.finish ctx).value = (col', .ok s)) :
    s = col.summary ctx ∧
      Receiver.receiveAll col.receiver (closing ctx col) = (col'.receiver, .ok ()) := by
  unfold finish at h
  dsimp only at h
  split at h
  · cases (Prod.mk.inj h).2
  next hok =>
    obtain ⟨rfl, hs⟩ := Prod.mk.inj h
    exact ⟨(Except.ok.inj hs).symm, Prod.ext rfl hok⟩

/-- **A report that is finished says what its findings show**, and its receiver has taken all of
it. -/
theorem collect_cases (h : collect ctx { receiver } fs = (col', .ok s)) :
    ∃ col, Holds ctx receiver fs.length (fs.flatMap ctx.sightings).reverse col ∧
      s = col.summary ctx ∧
      Receiver.receiveAll receiver (ctx.deliveries fs) = (col'.receiver, .ok ()) := by
  unfold collect at h
  split at h
  next col hcol =>
    have hholds := holds_processAll hcol
    obtain ⟨rfl, hclosing⟩ := finish_cases h
    refine ⟨col, hholds, rfl, ?_⟩
    have hchains : col.chains = ctx.chainsOf fs := hholds.chains
    have hreceiver := hholds.receiver
    rw [closing, hchains] at hclosing
    rw [hchains] at hreceiver
    rw [Context.deliveries, Receiver.receiveAll_append_of_ok hreceiver, hclosing]
  · cases (Prod.mk.inj h).2

/-! ### Receivers that never fail -/

/-- No chain is refused, whatever the collector holds. -/
def TakesChains (σ : Type) [Receiver σ] (ctx : Context) : Prop :=
  ∀ (col : Collector σ) (c : Chain), (col.take ctx c).2 = .ok ()

/-- A receiver that never fails refuses no chain. -/
theorem takesChains_of_neverFails (hσ : Receiver.NeverFails σ) (ctx : Context) :
    TakesChains σ ctx := by
  intro col c
  rw [take]
  split
  · rfl
  · dsimp only
    split
    · rfl
    · exact hσ _ _

/-- With arrangement no chain is handed over before the end. -/
theorem takesChains_of_isGrouped (h : ctx.grouping.isGrouped = true) : TakesChains σ ctx := by
  intro col c
  rw [take, h]
  split
  · rfl
  · rfl

section TakesChains

variable (htakes : TakesChains σ ctx)
include htakes

/-- If no chain is refused, no observation fails. -/
theorem exists_observe (source : Nat) (col : Collector σ) (o : Observation) :
    ∃ col', col.observe ctx source o = (col', .ok ()) := by
  cases o with
  | exposed => exact ⟨_, rfl⟩
  | suppressed => exact ⟨_, rfl⟩
  | chain nodes note => exact ⟨_, Prod.ext rfl (htakes col (ctx.chain nodes note))⟩

theorem exists_observeAll (source : Nat) (col : Collector σ) (os : List Observation) :
    ∃ col', col.observeAll ctx source os = (col', .ok ()) := by
  induction os generalizing col with
  | nil => exact ⟨col, rfl⟩
  | cons o os ih =>
    obtain ⟨col₁, hcol₁⟩ := exists_observe htakes source col o
    rw [observeAll, hcol₁]
    exact ih col₁

theorem exists_process (col : Collector σ) (f : Finding) :
    ∃ col', (col.process ctx f).value = (col', .ok ()) := by
  unfold process
  dsimp only
  split
  · exact ⟨_, rfl⟩
  · exact exists_observeAll htakes ..

/-- If no chain is refused, no collection fails before its end. -/
theorem exists_processAll (col : Collector σ) (fs : List Finding) :
    ∃ col', col.processAll ctx fs = (col', .ok ()) := by
  induction fs generalizing col with
  | nil => exact ⟨col, rfl⟩
  | cons f fs ih =>
    obtain ⟨col₁, hcol₁⟩ := exists_process htakes col f
    rw [processAll, hcol₁]
    exact ih col₁

end TakesChains

/-- A receiver that never fails gets a finished report. -/
theorem exists_collect_of_neverFails (hσ : Receiver.NeverFails σ) (ctx : Context)
    (col : Collector σ) (fs : List Finding) : ∃ col' s, col.collect ctx fs = (col', .ok s) := by
  obtain ⟨col₁, hcol₁⟩ := exists_processAll (takesChains_of_neverFails hσ ctx) col fs
  obtain ⟨r, hr⟩ := hσ.exists_receiveAll col₁.receiver (closing ctx col₁)
  unfold collect
  rw [hcol₁]
  dsimp only
  unfold finish
  rw [hr]
  exact ⟨_, _, rfl⟩

section Reliable

variable (hσ : Receiver.Reliable σ)
include hσ

/-- A reliable receiver gets a finished report. -/
theorem exists_collect (ctx : Context) (col : Collector σ) (fs : List Finding) :
    ∃ col' s, col.collect ctx fs = (col', .ok s) :=
  exists_collect_of_neverFails hσ.receive_ok ctx col fs

/-- A channel that is never cancelled hands over its findings one by one. -/
theorem value_drain (ctx : Context) (k : Nat) (col : Collector σ) (fs : List Finding) :
    (col.drain ctx (fun _ ↦ false) k (fs.map .found ++ [.done])).value = col.collect ctx fs := by
  have hquiet : ∀ col : Collector σ, isCancelled false col = false := fun col ↦ by
    simp [isCancelled, hσ.not_cancels]
  induction fs generalizing col k with
  | nil => simp [drain, hquiet, collect, processAll]
  | cons f fs ih =>
    obtain ⟨col₁, hcol₁⟩ :=
      exists_process (takesChains_of_neverFails hσ.receive_ok ctx) col f
    rw [List.map_cons, List.cons_append, drain, if_neg (by simp [hquiet]), Logged.value_bind,
      hcol₁]
    dsimp only
    rw [ih, collect, collect, processAll, hcol₁]

end Reliable

end Runs

end Collector

end HazardTrace
