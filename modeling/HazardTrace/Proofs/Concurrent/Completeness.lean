import HazardTrace.Proofs.Concurrent.Sequential

/-!
# A report is never partial

As long as the token has not fired, a run is on track (`OnTrack`). That puts together three things,
each of which is preserved by the steps of the party that it is about.

* **Workers.** What a worker holds leads to the result of its search (`Worker.Valid`): running its
  search to the end gives what a single search gives. One step of a worker preserves this unless it
  reads a token that has fired (`Worker.Step.valid`).
* **Hazards.** Every hazard is waiting, in the hands of a worker, or sent (`Shares`), and each one
  is so once: the three lists together are a permutation of the hazards. Searches that are sent and
  not counted are those of workers that are about to count.
* **The channel.** What the collector has taken, followed by what is in the channel, is what has
  been sent, in that order (`Consumer.Follows`). A collector that has failed is held to nothing.

A report is returned only if the token has not fired by then (`Step.returned_ok`), so at that moment
the run is on track and nothing is waiting or on the way: the report is that of all findings, each
taken once (`OnTrack.complete`). The findings are those of the run in one thread in some order,
since the workers finish in any order.

`Kept` is the invariant of whole runs: on track while the token has not fired, and complete once a
report has been returned. `Kept.moves` is its step and `Kept.reaches` the run. A token that has
fired stays so (`Moves.fired`), and then no report is returned (`ne_ok_of_fired`).

The main result, `report_never_partial`, adds to this that every run ends and is not stuck before
(`wellFounded_moves`, `exists_step`), and that the run in one thread is among these runs
(`reaches_run`).
-/

namespace HazardTrace

namespace Analysis

namespace Concurrent

open Search (Options Result)
open Collector (Message Summary)

/-! ### Workers on the way to a result -/

namespace Worker

/-- The hazard whose search a worker has not reported yet. -/
def source? : Worker → Option Nat
  | .taken s | .searching s _ => some s
  | .reporting r => some r.start
  | .idle | .counting => none

/-- Is a search still to be counted? -/
def isCounting : Worker → Bool
  | .counting => true
  | _ => false

/-- What the worker holds leads to the result of its search. -/
def Valid (g : CallGraph) (o : Options) : Worker → Prop
  | .searching s st =>
    g.settled? s = none ∧ st.run g o s = (Search.State.initial g s).run g o s
  | .reporting r => r = g.search o r.start
  | .idle | .taken _ | .counting => True

variable {g : CallGraph} {o : Options}

/-- A search that has been run to its end is reported as a single search reports it. -/
theorem valid_reporting_ofState {s : Nat} {st : Search.State} (hsettled : g.settled? s = none)
    (hst : (Search.State.initial g s).run g o s = st) :
    (Worker.reporting (.ofState s st)).Valid g o := by
  have hsearch : g.search o s = .ofState s st := by
    rw [CallGraph.search, hsettled, Option.getD_none, hst]
  exact hsearch.symm

/-- Without cancellation a worker searches as a single search does. -/
theorem Step.valid {w w' : Worker} (h : Worker.Step g o false w w') (hw : w.Valid g o) :
    w'.Valid g o ∧ w'.source? = w.source? ∧ w'.isCounting = w.isCounting := by
  cases h with
  | skip hfired => cases hfired
  | giveUp hfired => cases hfired
  | @settle s r hfired hsettled =>
    have hsearch : g.search o s = r := by rw [CallGraph.search, hsettled, Option.getD_some]
    have hstart : r.start = s := by rw [← hsearch, CallGraph.start_search]
    refine ⟨?_, congrArg some hstart, rfl⟩
    rw [Valid, hstart, hsearch]
  | start hfired hsettled => exact ⟨⟨hsettled, rfl⟩, rfl, rfl⟩
  | exhaust hpop =>
    refine ⟨valid_reporting_ofState hw.1 ?_, rfl, rfl⟩
    rw [← hw.2, Search.State.run_of_pop?_eq_none hpop]
  | expand hfired hpop hnext hfull =>
    refine ⟨⟨hw.1, ?_⟩, rfl, rfl⟩
    rw [← hw.2, Search.State.run_of_pop?_eq_some hpop, hnext, if_neg (by simp [hfull])]
  | fill hfired hpop hnext hfull =>
    refine ⟨valid_reporting_ofState hw.1 ?_, rfl, rfl⟩
    rw [← hw.2, Search.State.run_of_pop?_eq_some hpop, hnext, if_pos hfull]

end Worker

/-! ### The channel -/

variable {σ : Type} [Receiver σ]

/-- The collector has taken findings in the order in which they were sent, and `ms` is what is left
in the channel. A collector that has failed is held to nothing. -/
def Consumer.Follows (ctx : Collector.Context) (receiver : σ) (sent ms : List Message) :
    Consumer σ → Prop
  | .polling col | .receiving col => ∃ fs : List Finding,
    Collector.processAll ctx { receiver } fs = (col, .ok ()) ∧ sent = fs.map .found ++ ms
  | .processing col f => ∃ fs : List Finding,
    Collector.processAll ctx { receiver } fs = (col, .ok ()) ∧ sent = fs.map .found ++ .found f :: ms
  | .confirming col | .finishing col => ∃ fs : List Finding,
    Collector.processAll ctx { receiver } fs = (col, .ok ()) ∧ sent = fs.map .found ++ .done :: ms
  | .stopped col (.ok s) => ∃ fs : List Finding,
    Collector.collect ctx { receiver } fs = (col, .ok s) ∧ sent = fs.map .found ++ .done :: ms
  | .stopped _ (.error _) => True

section Channel

variable {ctx : Collector.Context} {receiver : σ} {sent ms ms' : List Message} {c c' : Consumer σ}

/-- The step of the collector: it takes what was sent first, and processes it as a run over the list
would. -/
theorem Consumer.Follows.step {fired : Bool} (h : c.Follows ctx receiver sent ms)
    (hstep : c.Step ctx fired ms c' ms') : c'.Follows ctx receiver sent ms' := by
  cases hstep with
  | poll => exact h
  | receive => exact h
  | receiveDone => exact h
  | confirm => exact h
  | cancel => exact trivial
  | fail => exact trivial
  | withdraw => exact trivial
  | process hprocess =>
    obtain ⟨fs, hfs, hsent⟩ := h
    refine ⟨_, (Collector.processAll_concat hfs).trans hprocess, ?_⟩
    simpa using hsent
  | @finish _ _ result _ hfinish =>
    obtain ⟨fs, hfs, hsent⟩ := h
    cases result with
    | error e => exact trivial
    | ok s =>
      refine ⟨fs, ?_, hsent⟩
      rw [Collector.collect, hfs]
      exact hfinish

/-- What is sent goes to the end of the channel. -/
theorem Consumer.Follows.append (h : c.Follows ctx receiver sent ms) (hc : c.isStopped = false)
    (new : List Message) : c.Follows ctx receiver (sent ++ new) (ms ++ new) := by
  cases c with
  | stopped col result => cases hc
  | polling col | receiving col | processing col f | confirming col | finishing col =>
    obtain ⟨fs, hfs, rfl⟩ := h
    exact ⟨fs, hfs, by simp⟩

theorem done_notMem_found (fs : List Finding) : Message.done ∉ fs.map Message.found := by
  simp

/-- Where the end is announced tells the findings before it from what follows. -/
theorem found_append_done_inj {fs fs' : List Finding}
    (h : fs.map Message.found ++ [.done] = fs'.map Message.found ++ .done :: ms) : fs = fs' := by
  induction fs generalizing fs' with
  | nil =>
    cases fs' with
    | nil => rfl
    | cons f fs' => cases (List.cons.inj h).1
  | cons f fs ih =>
    cases fs' with
    | nil => cases (List.cons.inj h).1
    | cons f' fs' =>
      obtain ⟨hf, h⟩ := List.cons.inj h
      rw [Message.found.inj hf, ih h]

end Channel

/-! ### The hazards are shared out -/

/-- Each of the starts `jobs` is waiting, in the hands of a worker, or reported; `sent` are those
that have been reported, in that order. -/
structure Shares (g : CallGraph) (o : Options) (jobs sent pending : List Nat)
    (workers : List Worker) (completed : Nat) : Prop where
  perm : (pending ++ workers.filterMap Worker.source? ++ sent).Perm jobs
  counted : completed + workers.countP Worker.isCounting = sent.length
  valid : ∀ w ∈ workers, w.Valid g o

namespace Shares

variable {g : CallGraph} {o : Options} {jobs sent pending l₁ l₂ : List Nat} {w w' : Worker}
  {ws₁ ws₂ : List Worker} {completed : Nat}

/-- At first all hazards are waiting. -/
theorem initial (g : CallGraph) (o : Options) (jobs : List Nat) (n : Nat) :
    Shares g o jobs [] jobs (List.replicate n .idle) 0 where
  perm := by
    have hidle : (List.replicate n Worker.idle).filterMap Worker.source? = [] := by
      simp [List.filterMap_eq_nil_iff, Worker.source?]
    simp [hidle]
  counted := by simp [List.countP_replicate, Worker.isCounting]
  valid w hw := by
    obtain rfl := List.eq_of_mem_replicate hw
    exact trivial

/-- A worker can be replaced by another one that is on the way to its result. -/
theorem valid_replace (h : Shares g o jobs sent pending (ws₁ ++ w :: ws₂) completed)
    (hw' : w'.Valid g o) : ∀ x ∈ ws₁ ++ w' :: ws₂, x.Valid g o := by
  intro x hx
  have hvalid := h.valid x
  simp only [List.mem_append, List.mem_cons] at hx hvalid
  rcases hx with hx | rfl | hx
  · exact hvalid (.inl hx)
  · exact hw'
  · exact hvalid (.inr (.inr hx))

/-- A worker takes a hazard: it is in hands and no longer waiting. -/
theorem take {s : Nat} (h : Shares g o jobs sent (l₁ ++ s :: l₂) (ws₁ ++ .idle :: ws₂) completed) :
    Shares g o jobs sent (l₁ ++ l₂) (ws₁ ++ .taken s :: ws₂) completed where
  perm := by
    -- a start changes hands, so every number occurs as often as before
    refine (List.perm_iff_count.2 fun a ↦ ?_).trans h.perm
    simp only [List.filterMap_append, List.filterMap_cons, Worker.source?, List.count_append,
      List.count_cons]
    omega
  counted := by simpa [Worker.isCounting] using h.counted
  valid := h.valid_replace trivial

/-- A worker searches: whose search it is and whether it is counted do not change. -/
theorem work (h : Shares g o jobs sent pending (ws₁ ++ w :: ws₂) completed)
    (hstep : Worker.Step g o false w w') :
    Shares g o jobs sent pending (ws₁ ++ w' :: ws₂) completed := by
  obtain ⟨hvalid, hsource, hcounting⟩ := hstep.valid (h.valid w (by simp))
  refine ⟨?_, ?_, h.valid_replace hvalid⟩
  · simpa [List.filterMap_cons, hsource] using h.perm
  · simpa [List.countP_cons, hcounting] using h.counted

/-- A worker hands its result over: the hazard is sent and still to be counted. -/
theorem report {r : Result}
    (h : Shares g o jobs sent pending (ws₁ ++ .reporting r :: ws₂) completed) :
    Shares g o jobs (sent ++ [r.start]) pending (ws₁ ++ .counting :: ws₂) completed where
  perm := by
    -- the start moves from the workers to what has been sent
    refine (List.perm_iff_count.2 fun a ↦ ?_).trans h.perm
    simp only [List.filterMap_append, List.filterMap_cons, Worker.source?, List.count_append,
      List.count_cons, List.count_nil]
    omega
  counted := by
    have hcounted := h.counted
    simp only [List.countP_append, List.countP_cons, Worker.isCounting, List.length_append,
      List.length_singleton] at hcounted ⊢
    simp only [Bool.false_eq_true, if_false, if_true] at hcounted ⊢
    omega
  valid := h.valid_replace trivial

/-- A worker counts its search. -/
theorem count (h : Shares g o jobs sent pending (ws₁ ++ .counting :: ws₂) completed) :
    Shares g o jobs sent pending (ws₁ ++ .idle :: ws₂) (completed + 1) where
  perm := by simpa [List.filterMap_cons, Worker.source?] using h.perm
  counted := by
    have hcounted := h.counted
    simp only [List.countP_append, List.countP_cons, Worker.isCounting] at hcounted ⊢
    simp only [Bool.false_eq_true, if_false, if_true] at hcounted ⊢
    omega
  valid := h.valid_replace trivial

/-- When nothing is waiting and every worker rests, all starts have been reported and counted. -/
theorem of_idle {workers : List Worker} (h : Shares g o jobs sent [] workers completed)
    (hidle : ∀ w ∈ workers, w = .idle) :
    sent.Perm jobs ∧ completed = jobs.length := by
  have hsource : workers.filterMap Worker.source? = [] :=
    List.filterMap_eq_nil_iff.2 fun w hw ↦ by rw [hidle w hw]; rfl
  have hcounting : workers.countP Worker.isCounting = 0 :=
    List.countP_eq_zero.2 fun w hw ↦ by rw [hidle w hw]; decide
  have hperm : sent.Perm jobs := by simpa [hsource] using h.perm
  refine ⟨hperm, ?_⟩
  rw [← hperm.length_eq, ← h.counted, hcounting, Nat.add_zero]

end Shares

/-! ### Runs on track -/

/-- The message that the caller has sent. -/
def Main.announced : Main → List Message
  | .joining | .checking _ => [.done]
  | .opening | .searching | .returned _ => []

/-- What holds of a run as long as the token has not fired. -/
structure OnTrack (pre : Prepared) (o : Options) (grouping : Grouping) (receiver : σ)
    (sent : List Nat) (st : State σ) : Prop where
  shares : Shares pre.graph o pre.graph.hazards sent st.pending st.workers st.completed
  follows : st.consumer.Follows (pre.context grouping) receiver
    ((pre.findingsFrom o sent).map .found ++ st.main.announced) st.channel
  /-- When the end is announced, the searches are over. -/
  resting : st.main.announced ≠ [] → st.pending = [] ∧ ∀ w ∈ st.workers, w = .idle
  summary : ∀ s, st.main = .checking s → ∃ col, st.consumer = .stopped col (.ok s)

namespace OnTrack

variable {pre : Prepared} {o : Options} {grouping : Grouping} {receiver : σ} {sent : List Nat}
  {st st' : State σ}

/-- A run starts on track. -/
theorem initial (pre : Prepared) (o : Options) (grouping : Grouping) (n : Nat) (cancelled : Bool)
    (receiver : σ) :
    OnTrack pre o grouping receiver [] (State.initial pre n cancelled receiver) where
  shares := Shares.initial pre.graph o pre.graph.hazards n
  follows := ⟨[], rfl, rfl⟩
  resting h := absurd rfl h
  summary s h := by cases h

/-- A worker that is busy has not been told to rest. -/
theorem announced_eq_nil (h : OnTrack pre o grouping receiver sent st) {w : Worker}
    {ws₁ ws₂ : List Worker} (hworkers : st.workers = ws₁ ++ w :: ws₂) (hbusy : w ≠ .idle) :
    st.main.announced = [] := by
  by_contra hne
  exact hbusy ((h.resting hne).2 w (by simp [hworkers]))

/-- The collector of a run that is on track has not stopped with a summary before the end was
announced. -/
theorem not_stopped_ok (h : OnTrack pre o grouping receiver sent st)
    (hannounced : st.main.announced = []) {col : Collector σ} {s : Summary} :
    st.consumer ≠ .stopped col (.ok s) := by
  intro hstopped
  have hfollows := h.follows
  rw [hstopped, hannounced, List.append_nil] at hfollows
  obtain ⟨fs, -, hsent⟩ := hfollows
  exact done_notMem_found (pre.findingsFrom o sent) (by rw [hsent]; simp)

/-- A finding is sent, and the findings of what has been sent are one more. If the collector has
stopped there must not be a finding, or else the token would have fired. -/
theorem report {r : Result} {ws₁ ws₂ : List Worker} (h : OnTrack pre o grouping receiver sent st)
    (hworkers : st.workers = ws₁ ++ .reporting r :: ws₂)
    (hsent : (st.consumer.isStopped && (finding? r).isSome) = false) :
    OnTrack pre o grouping receiver (sent ++ [r.start])
      { st with
        fired := st.fired || (st.consumer.isStopped && (finding? r).isSome)
        workers := ws₁ ++ .counting :: ws₂
        channel := st.send ((finding? r).toList.map .found) } := by
  have hannounced := h.announced_eq_nil hworkers (by simp)
  have hshares := h.shares
  have hvalid : r = pre.graph.search o r.start := h.shares.valid (.reporting r) (by simp [hworkers])
  have hfindings : (pre.findingsFrom o (sent ++ [r.start])).map Message.found =
      (pre.findingsFrom o sent).map Message.found ++ (finding? r).toList.map Message.found := by
    rw [Prepared.findingsFrom, List.filterMap_append, List.map_append, List.filterMap_cons,
      ← hvalid]
    cases finding? r <;> rfl
  rw [hworkers] at hshares
  refine ⟨hshares.report, ?_, fun hne ↦ absurd hannounced hne, h.summary⟩
  have hfollows := h.follows
  dsimp only
  rw [hannounced, List.append_nil] at hfollows ⊢
  rw [hfindings, State.send]
  cases hstopped : st.consumer.isStopped with
  | false => exact hfollows.append hstopped _
  | true =>
    -- nothing is sent to a collector that has stopped, so there was no finding
    have hnone : finding? r = none := by simpa [hstopped] using hsent
    simpa [hnone] using hfollows

/-- The end is announced when everything has been sent. -/
theorem announce (h : OnTrack pre o grouping receiver sent st) (hmain : st.main = .searching)
    (hpending : st.pending = []) (hidle : ∀ w ∈ st.workers, w = .idle) :
    OnTrack pre o grouping receiver sent
      { st with main := .joining, channel := st.send [.done] } := by
  have hannounced : st.main.announced = [] := by rw [hmain]; rfl
  refine ⟨h.shares, ?_, fun _ ↦ ⟨hpending, hidle⟩, fun s hs ↦ by cases hs⟩
  have hfollows := h.follows
  rw [hannounced, List.append_nil] at hfollows
  dsimp only
  rw [State.send]
  cases hstopped : st.consumer.isStopped with
  | false => exact hfollows.append hstopped _
  | true =>
    -- it has stopped before the end was announced, so it has failed
    cases hconsumer : st.consumer with
    | stopped col result =>
      cases result with
      | error e => exact trivial
      | ok s => exact absurd hconsumer (h.not_stopped_ok hannounced)
    | _ => rw [hconsumer] at hstopped; cases hstopped

/-- A run stays on track until the token fires or the caller returns. -/
theorem step (h : OnTrack pre o grouping receiver sent st) (hstep : Step pre o grouping st st')
    (hfired : st'.fired = false) (hreturned : st'.main.isReturned = false) :
    ∃ sent', OnTrack pre o grouping receiver sent' st' := by
  have hshares := h.shares
  cases hstep with
  | take hmain hpending hworkers =>
    rw [hpending, hworkers] at hshares
    refine ⟨sent, hshares.take, h.follows, fun hne ↦ ?_, h.summary⟩
    dsimp only at hne
    rw [hmain] at hne
    exact absurd rfl hne
  | @work w w' ws₁ ws₂ hworkers hstep =>
    -- a worker that rests does not step, so the end has not been announced
    have hbusy : w ≠ .idle := by
      rintro rfl
      cases hstep
    dsimp only at hfired
    rw [hworkers] at hshares
    rw [hfired] at hstep
    exact ⟨sent, hshares.work hstep, h.follows,
      fun hne ↦ absurd (h.announced_eq_nil hworkers hbusy) hne, h.summary⟩
  | report hworkers =>
    exact ⟨_, h.report hworkers (Bool.or_eq_false_iff.1 hfired).2⟩
  | count hworkers =>
    rw [hworkers] at hshares
    exact ⟨sent, hshares.count, h.follows,
      fun hne ↦ absurd (h.announced_eq_nil hworkers (by simp)) hne, h.summary⟩
  | consume hmain hstep =>
    refine ⟨sent, hshares, h.follows.step hstep, h.resting, fun s hs ↦ ?_⟩
    dsimp only at hs
    rw [hs] at hmain
    cases hmain
  | start hopening =>
    have hfollows := h.follows
    rw [hopening] at hfollows
    exact ⟨sent, hshares, hfollows, fun hne ↦ absurd rfl hne, fun s hs ↦ by cases hs⟩
  | announce hsearching hpending hidle => exact ⟨sent, h.announce hsearching hpending hidle⟩
  | join hjoining hstopped =>
    have hfollows := h.follows
    rw [hjoining] at hfollows
    refine ⟨sent, hshares, hfollows, fun _ ↦ h.resting (by rw [hjoining]; simp [Main.announced]), ?_⟩
    intro s hs
    cases hs
    exact ⟨_, hstopped⟩
  | refuse | fail | cancel | conclude => cases hreturned

end OnTrack

/-! ### Reports -/

/-- A report on all findings, each of them taken once, and the collector that has made it. -/
def Complete (pre : Prepared) (o : Options) (grouping : Grouping) (receiver : σ) (report : Report)
    (consumer : Consumer σ) : Prop :=
  ∃ order col, order.Perm (pre.findings o) ∧
    Collector.collect (pre.context grouping) { receiver } order = (col, .ok report.collection) ∧
    consumer = .stopped col (.ok report.collection) ∧
    report = pre.report grouping pre.graph.hazards.length report.collection

section Reports

variable {pre : Prepared} {o : Options} {grouping : Grouping} {receiver : σ} {st st' : State σ}

/-- The token is never reset. -/
theorem Moves.fired (h : Moves pre o grouping st st') (hfired : st.fired = true) :
    st'.fired = true := by
  cases h with
  | fire => rfl
  | step h =>
    cases h with
    | report | consume => exact Bool.or_eq_true_iff.2 (.inl hfired)
    | take | work | count | refuse | start | announce | fail | join | cancel | conclude =>
      exact hfired

/-- A run that has returned stays so. -/
theorem Step.isReturned (h : Step pre o grouping st st') (hreturned : st.main.isReturned = true) :
    st'.main.isReturned = true := by
  cases h with
  | work | report | count | consume => exact hreturned
  | take hmain | refuse hmain | start hmain | announce hmain | fail hmain | join hmain | cancel hmain
  | conclude hmain =>
    rw [hmain] at hreturned
    cases hreturned

/-- A report is returned once, after the last reading of the token. -/
theorem Step.returned_ok {report : Report} (h : Step pre o grouping st st')
    (hmain : st'.main = .returned (.ok report)) :
    st'.consumer = st.consumer ∧ (st.main = .returned (.ok report) ∨
      ∃ s, st.main = .checking s ∧ st.fired = false ∧
        report = pre.report grouping st.completed s) := by
  cases h with
  | conclude hchecking hfired =>
    obtain rfl := Except.ok.inj (Main.returned.inj hmain)
    exact ⟨rfl, .inr ⟨_, hchecking, hfired, rfl⟩⟩
  | consume hrunning =>
    dsimp only at hmain
    rw [hmain] at hrunning
    cases hrunning
  | take | work | report | count => exact ⟨rfl, .inl hmain⟩
  | refuse | start | announce | fail | join | cancel => cases hmain

/-- At the last reading of the token, a run that is on track has everything. -/
theorem OnTrack.complete {sent : List Nat} {s : Summary}
    (h : OnTrack pre o grouping receiver sent st) (hmain : st.main = .checking s) :
    Complete pre o grouping receiver (pre.report grouping st.completed s) st.consumer := by
  obtain ⟨hpending, hidle⟩ := h.resting (by rw [hmain]; simp [Main.announced])
  have hshares := h.shares
  rw [hpending] at hshares
  obtain ⟨hsent, hcompleted⟩ := hshares.of_idle hidle
  obtain ⟨col, hcol⟩ := h.summary s hmain
  have hfollows := h.follows
  rw [hcol, hmain] at hfollows
  obtain ⟨fs, hfs, heq⟩ := hfollows
  obtain rfl := found_append_done_inj heq
  exact ⟨_, col, hsent.filterMap _, hfs, hcol, by rw [hcompleted]; rfl⟩

/-- What holds of every state of a run. -/
structure Kept (pre : Prepared) (o : Options) (grouping : Grouping) (receiver : σ) (st : State σ) :
    Prop where
  onTrack : st.fired = false → st.main.isReturned = false →
    ∃ sent, OnTrack pre o grouping receiver sent st
  complete : ∀ report, st.main = .returned (.ok report) →
    Complete pre o grouping receiver report st.consumer

theorem kept_initial (pre : Prepared) (o : Options) (grouping : Grouping) (n : Nat)
    (cancelled : Bool) (receiver : σ) :
    Kept pre o grouping receiver (State.initial pre n cancelled receiver) where
  onTrack _ _ := ⟨[], OnTrack.initial pre o grouping n cancelled receiver⟩
  complete report hmain := by cases hmain

/-- The step of the invariant. Before it the token had not fired either, and the run had not
returned. -/
theorem Kept.moves (h : Kept pre o grouping receiver st) (hmove : Moves pre o grouping st st') :
    Kept pre o grouping receiver st' := by
  cases hmove with
  | fire => exact ⟨nofun, h.complete⟩
  | step hstep =>
    refine ⟨fun hfired hreturned ↦ ?_, fun report hmain ↦ ?_⟩
    · have hfired' : st.fired = false := by
        cases hst : st.fired with
        | false => rfl
        | true => rw [Moves.fired (.step hstep) hst] at hfired; cases hfired
      have hreturned' : st.main.isReturned = false := by
        cases hst : st.main.isReturned with
        | false => rfl
        | true => rw [hstep.isReturned hst] at hreturned; cases hreturned
      obtain ⟨sent, hsent⟩ := h.onTrack hfired' hreturned'
      exact hsent.step hstep hfired hreturned
    · obtain ⟨hconsumer, hst | ⟨s, hst, hfired, rfl⟩⟩ := hstep.returned_ok hmain
      · rw [hconsumer]
        exact h.complete report hst
      · obtain ⟨sent, hsent⟩ := h.onTrack hfired (by rw [hst]; rfl)
        rw [hconsumer]
        exact hsent.complete hst

/-- So it holds of every state that a run reaches. -/
theorem Kept.reaches (h : Kept pre o grouping receiver st) (hreach : Reaches pre o grouping st st') :
    Kept pre o grouping receiver st' := by
  induction hreach with
  | refl => exact h
  | tail _ hmove ih => exact ih.moves hmove

/-- **A report that is returned is complete**, in whatever order the parties took their steps. -/
theorem complete_of_returned {n : Nat} {cancelled : Bool} {report : Report}
    (h : Reaches pre o grouping (State.initial pre n cancelled receiver) st)
    (hmain : st.main = .returned (.ok report)) :
    Complete pre o grouping receiver report st.consumer :=
  ((kept_initial pre o grouping n cancelled receiver).reaches h).complete report hmain

/-- Once the token has fired, no report is returned. -/
theorem ne_ok_of_fired (hfired : st.fired = true) (hreturned : st.main.isReturned = false)
    (h : Reaches pre o grouping st st') (report : Report) :
    st'.main ≠ .returned (.ok report) := by
  -- both facts together go through the induction
  suffices hkept : st'.fired = true ∧ ∀ report, st'.main ≠ .returned (.ok report) from
    hkept.2 report
  induction h with
  | refl =>
    refine ⟨hfired, fun report hmain ↦ ?_⟩
    rw [hmain] at hreturned
    cases hreturned
  | @tail st₁ st₂ _ hmove ih =>
    refine ⟨hmove.fired ih.1, fun report hmain ↦ ?_⟩
    cases hmove with
    | fire => exact ih.2 report hmain
    | step hstep =>
      obtain ⟨-, hst | ⟨s, -, hnot, -⟩⟩ := hstep.returned_ok hmain
      · exact ih.2 report hst
      · rw [ih.1] at hnot
        cases hnot

/-- **A report is never partial.** Whatever the number of workers and the order of the steps, and
whenever the token fires: a report that is returned counts every search and is that of all findings,
each of them taken once, and the token had not fired when it was read for the last time. Once the
token has fired, a run that has not returned can only return an error. And every run does return: it
ends, and it is not stuck before. The run in one thread is one of these runs. -/
theorem report_never_partial (pre : Prepared) (o : Options) (grouping : Grouping) (n : Nat)
    (cancelled : Bool) (receiver : σ) (st : State σ)
    (h : Reaches pre o grouping (.initial pre n cancelled receiver) st) :
    (∀ report, st.main = .returned (.ok report) →
      report.searches = pre.graph.hazards.length ∧
      report.collection.findings =
        (pre.graph.hazards.countP fun s ↦ (pre.graph.search o s).destinations ≠ []) ∧
      ∃ order col, order.Perm (pre.findings o) ∧
        Collector.collect (pre.context grouping) { receiver } order =
          (col, .ok report.collection)) ∧
    (∀ st' report, Moves pre o grouping st st' → st.main.isReturned = false →
      st'.main = .returned (.ok report) → st.fired = false) ∧
    (st.fired = true → st.main.isReturned = false → ∀ st' outcome,
      Reaches pre o grouping st st' → st'.main = .returned outcome → ∃ e, outcome = .error e) ∧
    (0 < n → st.main.isReturned = false → ∃ st', Step pre o grouping st st') ∧
    Acc (fun st' st ↦ Moves pre o grouping st st') st ∧
    (0 < n → ∃ st', Reaches pre o grouping (.initial pre n cancelled receiver) st' ∧
      st'.main = .returned (pre.run o grouping cancelled receiver).value.2) := by
  refine ⟨fun report hmain ↦ ?_, fun st' report hmove hreturned hmain ↦ ?_,
    fun hfired hreturned st' outcome hreach hmain ↦ ?_, fun hn hreturned ↦ ?_, ?_, fun hn ↦ ?_⟩
  · obtain ⟨order, col, horder, hcollect, -, hreport⟩ := complete_of_returned h hmain
    refine ⟨by rw [hreport]; rfl, ?_, order, col, horder, hcollect⟩
    obtain ⟨col', hcol', hsummary, -⟩ := Collector.collect_cases hcollect
    rw [hsummary, ← pre.length_findings o, ← horder.length_eq]
    exact hcol'.findings
  · cases hfired : st.fired with
    | false => rfl
    | true => exact absurd hmain (ne_ok_of_fired hfired hreturned (.single hmove) report)
  · cases outcome with
    | error e => exact ⟨e, rfl⟩
    | ok report => exact absurd hmain (ne_ok_of_fired hfired hreturned hreach report)
  · exact exists_step pre o grouping ((live_initial pre n cancelled receiver).reaches h) hn hreturned
  · exact (wellFounded_moves pre o grouping).apply st
  · obtain ⟨m, rfl⟩ := Nat.exists_eq_succ_of_ne_zero (Nat.ne_of_gt hn)
    obtain ⟨st', hreach, hmain, -⟩ := reaches_run pre o grouping m cancelled receiver
    exact ⟨st', hreach, hmain⟩

open Prepared in
/-- Three workers come to a report on both methods. -/
theorem report_never_partial_recordedTwice :
    ∃ (st : State Transcript) (report : Report),
      Reaches recordedTwice {} .callee (.initial recordedTwice 3 false {}) st ∧
      st.main = .returned (.ok report) ∧ report.searches = 2 ∧ report.collection.findings = 2 := by
  obtain ⟨receiver', report, hrun⟩ := exists_run (σ := Transcript) ⟨fun _ _ ↦ rfl, fun _ ↦ rfl⟩
    recordedTwice {} .callee {}
  obtain ⟨st, hreach, hmain, -⟩ := reaches_run recordedTwice {} .callee 2 false ({} : Transcript)
  rw [hrun] at hmain
  obtain ⟨hreport, -⟩ := report_never_partial recordedTwice {} .callee 3 false {} st hreach
  obtain ⟨hsearches, hfindings, -⟩ := hreport report hmain
  exact ⟨st, report, hreach, hmain, hsearches.trans (by decide), hfindings.trans (by decide +kernel)⟩

end Reports

end Concurrent

end Analysis

end HazardTrace
