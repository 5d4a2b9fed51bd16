import HazardTrace.Proofs.Collector.Records

/-!
# Collections that stop

A collector hands over nothing after a delivery that has failed. What `Holds` says of a collector
that goes on, `Stops` says of one that does not: the chains found so far, handed over in order, lead
to this failure.

`Stops` is established in the step that fails and carried to the end of the run. Only a new chain
that is handed over at once can fail (`Holds.stops_take`), since a duplicate is not handed over, and
with an arrangement nothing is. From there `Holds.stops_observeAll`, `Holds.stops_process` and
`Holds.stops_processAll` go outwards as for `Holds`: what came before the failing step holds, and
what would have come after it does not matter. The latter is `Stops.append`. Later chains are handed
over behind the earlier ones (`suffix_pwFilter_append`, `Context.delivered_append`), and deliveries
behind a failure are not made (`Receiver.receiveAll_append_of_error`).

Both together say that a collection is one run of deliveries, whatever becomes of it
(`receiveAll_of_collect`). So what a receiver makes of a report can be read off the deliveries of
the report, and nothing has to be known of the collector. `exists_collect_of_deliveries` is the case
that succeeds.
-/

namespace HazardTrace

/-- Nothing is delivered behind a failure. -/
theorem Receiver.receiveAll_append_of_error {σ : Type} [Receiver σ] {s s' : σ} {e : Error}
    {ds : List Delivery} (h : receiveAll s ds = (s', .error e)) (ds' : List Delivery) :
    receiveAll s (ds ++ ds') = (s', .error e) := by
  induction ds generalizing s with
  | nil => cases (Prod.mk.inj h).2
  | cons d ds ih =>
    rw [receiveAll] at h
    rw [List.cons_append, receiveAll]
    split at h
    · exact ih h
    · exact h

namespace Collector

variable {σ : Type} [Receiver σ] {ctx : Context} {receiver : σ} {n : Nat}
  {l : List (Nat × Observation)} {col col' : Collector σ} {e : Error}

/-- Later chains are put in front of what is kept of the earlier ones. -/
theorem suffix_pwFilter_append (l l' : List Chain) :
    l'.pwFilter Chain.Differs <:+ (l ++ l').pwFilter Chain.Differs := by
  induction l with
  | nil => exact List.suffix_rfl
  | cons c l ih =>
    rw [List.cons_append]
    by_cases hnew : ∀ b ∈ (l ++ l').pwFilter Chain.Differs, Chain.Differs c b
    · rw [List.pwFilter_cons_of_pos hnew]
      exact ih.trans (List.suffix_cons c _)
    · rw [List.pwFilter_cons_of_neg hnew]
      exact ih

/-- Later chains are handed over behind the earlier ones. The lists have the latest chain first. -/
theorem Context.delivered_append (ctx : Context) (l l' : List Chain) :
    ctx.delivered (l ++ l') = ctx.delivered l' ++ ctx.delivered l := by
  unfold delivered
  split <;> simp

/-- The chains of the sightings `l`, latest first, have led to the failure `e`. -/
def Stops (ctx : Context) (receiver : σ) (l : List (Nat × Observation)) (col : Collector σ)
    (e : Error) : Prop :=
  Receiver.receiveAll receiver (ctx.delivered ((ctx.recordsOf l).pwFilter Chain.Differs)) =
    (col.receiver, .error e)

/-- Later sightings do not change that a collection has stopped. -/
theorem Stops.append (h : Stops ctx receiver l col e) (l' : List (Nat × Observation)) :
    Stops ctx receiver (l' ++ l) col e := by
  obtain ⟨later, hlater⟩ := suffix_pwFilter_append (ctx.recordsOf l') (ctx.recordsOf l)
  have hrecords : ctx.recordsOf (l' ++ l) = ctx.recordsOf l' ++ ctx.recordsOf l :=
    List.filterMap_append
  rw [Stops, hrecords, ← hlater, ctx.delivered_append]
  exact Receiver.receiveAll_append_of_error h _

/-! ### The step that fails -/

/-- Only a new chain that is handed over at once can fail. -/
theorem Holds.stops_take {source : Nat} {nodes : List Nat} {note : Note}
    (h : Holds ctx receiver n l col)
    (htake : col.take ctx (ctx.chain nodes note) = (col', .error e)) :
    Stops ctx receiver ((source, .chain nodes note) :: l) col' e := by
  unfold Collector.take at htake
  split at htake
  · cases (Prod.mk.inj htake).2
  next hnew =>
    have hdiffers : ∀ b ∈ col.chains, Chain.Differs (ctx.chain nodes note) b :=
      not_not.1 (mt any_sameKey_iff.2 hnew)
    split at htake
    · cases (Prod.mk.inj htake).2
    next hgrouped =>
      obtain ⟨rfl, hfail⟩ := Prod.mk.inj htake
      have hrecords : ctx.recordsOf ((source, .chain nodes note) :: l) =
          ctx.chain nodes note :: ctx.recordsOf l := rfl
      have hlast : ctx.delivered [ctx.chain nodes note] = [.chain (ctx.chain nodes note)] := by
        rw [Context.delivered, if_neg hgrouped]
        rfl
      have hreceive : Receiver.receive col.receiver (.chain (ctx.chain nodes note)) =
          ((Receiver.receive col.receiver (.chain (ctx.chain nodes note))).1, .error e) :=
        Prod.ext rfl hfail
      rw [Stops, hrecords, List.pwFilter_cons_of_pos (h.chains ▸ hdiffers), ← h.chains,
        ctx.delivered_cons, Receiver.receiveAll_append_of_ok h.receiver, hlast,
        Receiver.receiveAll, hreceive]
      rfl

/-- Of the observations only a chain can fail. -/
theorem Holds.stops_observe {source : Nat} {o : Observation} (h : Holds ctx receiver n l col)
    (hobserve : col.observe ctx source o = (col', .error e)) :
    Stops ctx receiver ((source, o) :: l) col' e := by
  match o, hobserve with
  | .exposed, hobserve => cases (Prod.mk.inj hobserve).2
  | .suppressed, hobserve => cases (Prod.mk.inj hobserve).2
  | .chain nodes note, hobserve => exact h.stops_take hobserve

/-! ### The run up to it -/

theorem Holds.stops_observeAll {source : Nat} {os : List Observation}
    (h : Holds ctx receiver n l col)
    (hobserve : col.observeAll ctx source os = (col', .error e)) :
    Stops ctx receiver ((os.map (source, ·)).reverse ++ l) col' e := by
  induction os generalizing col l with
  | nil => cases (Prod.mk.inj hobserve).2
  | cons o os ih =>
    rw [List.map_cons, List.reverse_cons, List.append_assoc]
    rw [Collector.observeAll] at hobserve
    split at hobserve
    next col₁ hcol₁ => exact ih (h.observe hcol₁) hobserve
    next col₁ e' hcol₁ =>
      obtain ⟨rfl, he⟩ := Prod.mk.inj hobserve
      obtain rfl := Except.error.inj he
      exact (h.stops_observe hcol₁).append _

theorem Holds.stops_process {f : Finding} (h : Holds ctx receiver n l col)
    (hprocess : (col.process ctx f).value = (col', .error e)) :
    Stops ctx receiver ((ctx.sightings f).reverse ++ l) col' e := by
  have hcount : Holds ctx receiver (n + 1) l { col with findings := col.findings + 1 } :=
    { h with findings := congrArg (· + 1) h.findings }
  rw [Collector.process] at hprocess
  rw [Context.sightings]
  cases hnote : ctx.marking.note? f.source with
  | none =>
    rw [hnote] at hprocess
    cases (Prod.mk.inj hprocess).2
  | some a =>
    rw [hnote] at hprocess
    exact hcount.stops_observeAll hprocess

/-- A run that stops has failed in the delivery of a chain. -/
theorem Holds.stops_processAll {fs : List Finding} (h : Holds ctx receiver n l col)
    (hprocess : col.processAll ctx fs = (col', .error e)) :
    Stops ctx receiver ((fs.flatMap ctx.sightings).reverse ++ l) col' e := by
  induction fs generalizing col n l with
  | nil => cases (Prod.mk.inj hprocess).2
  | cons f fs ih =>
    rw [List.flatMap_cons, List.reverse_append, List.append_assoc]
    rw [Collector.processAll] at hprocess
    split at hprocess
    next col₁ hcol₁ => exact ih (h.process hcol₁) hprocess
    next col₁ e' hcol₁ =>
      obtain ⟨rfl, he⟩ := Prod.mk.inj hprocess
      obtain rfl := Except.error.inj he
      exact (h.stops_process hcol₁).append _

/-- **A collection is one run of deliveries.** Its receiver ends up where the deliveries of the
report lead, and the collection fails if and as they do. -/
theorem receiveAll_of_collect (ctx : Context) (receiver : σ) (fs : List Finding) :
    Receiver.receiveAll receiver (ctx.deliveries fs) =
      ((collect ctx { receiver } fs).1.receiver, (collect ctx { receiver } fs).2.map fun _ ↦ ()) := by
  rw [collect]
  rcases hcol : processAll ctx { receiver } fs with ⟨col, e | ⟨⟩⟩
  · have hstops := (holds_start ctx receiver).stops_processAll hcol
    rw [List.append_nil] at hstops
    exact Receiver.receiveAll_append_of_error hstops _
  · have hholds := holds_processAll hcol
    have hchains : col.chains = ctx.chainsOf fs := hholds.chains
    have hreceiver := hholds.receiver
    rw [hchains] at hreceiver
    rw [Context.deliveries, Receiver.receiveAll_append_of_ok hreceiver, ← hchains]
    -- what is left of the deliveries is what closes the report
    show Receiver.receiveAll col.receiver (closing ctx col) = _
    dsimp only
    rw [finish]
    generalize Receiver.receiveAll col.receiver (closing ctx col) = run
    rcases run with ⟨receiver', e | ⟨⟩⟩
    · rfl
    · rfl

/-- A collection succeeds if its deliveries do. -/
theorem exists_collect_of_deliveries {fs : List Finding} {receiver' : σ}
    (h : Receiver.receiveAll receiver (ctx.deliveries fs) = (receiver', .ok ())) :
    ∃ (col : Collector σ) (s : Summary), collect ctx { receiver } fs = (col, .ok s) ∧
      col.receiver = receiver' := by
  rw [receiveAll_of_collect] at h
  rcases hcollect : collect ctx { receiver } fs with ⟨col, e | s⟩
  · rw [hcollect] at h
    cases (Prod.mk.inj h).2
  · rw [hcollect] at h
    exact ⟨col, s, rfl, (Prod.mk.inj h).1⟩

end Collector

end HazardTrace
