import HazardTrace.Proofs.Analysis.Findings
import HazardTrace.Proofs.Concurrent.Machine
import HazardTrace.Proofs.Search.Cancellation

/-!
# Runs in one thread

`Prepared.run` searches from one hazard after the other and collects when all searches have ended.
That is one of the concurrent runs, with a single worker or with several of which one does
everything (`reaches_run`). So whatever holds of all concurrent runs holds of it.

The run is put together from three stretches, each of which is a chain of steps that ends where the
next one begins.

* **Searching.** The first worker sees all hazards through while the others rest (`reaches_all`).
  For one hazard it takes the start, runs the search, hands the result over and counts
  (`reaches_next`); the search itself is an induction along `Search.State.run`, one step of the
  worker for each node (`reaches_reporting`). Nothing cancels in this stretch, so the states are
  those of `State.quiet`.
* **Draining.** The end is announced, and the collector empties the channel (`reaches_stopped`). It
  stops as it does in `Collector.drain`, by induction on the findings that are left. Here the
  receiver may ask for cancellation, and then the token has fired: `State.draining` says that it has
  fired for no other reason.
* **Returning.** What the caller makes of the collector's answer is `outcome`, and `value_run` says
  that a run in one thread returns the same.

A receiver that has asked for cancellation keeps asking as long as it is handed nothing more, which
is what `reaches_of_consumer` needs of the step that it takes.

`exists_run` says that a reliable receiver gets a report, and `Returns` collects the two ways in
which a report can come about, alone or shared. By `Returns.exists_reaches` the first is a case of
the second, and later modules use it to treat both at once.
-/

namespace HazardTrace

namespace Analysis

namespace Concurrent

open Search (Options Result)
open Collector (Message Summary)

variable {σ : Type} [Receiver σ] {pre : Prepared} {o : Options} {grouping : Grouping}
  {st : State σ} {ws₁ ws₂ : List Worker}

theorem Reaches.trans {st₁ st₂ st₃ : State σ} (h₁ : Reaches pre o grouping st₁ st₂)
    (h₂ : Reaches pre o grouping st₂ st₃) : Reaches pre o grouping st₁ st₃ :=
  Relation.ReflTransGen.trans h₁ h₂

theorem Step.reaches {st st' : State σ} (h : Step pre o grouping st st') :
    Reaches pre o grouping st st' :=
  .single (.step h)

/-! ### One worker does everything -/

/-- A run that is searching and has not been cancelled. -/
def State.quiet (pending : List Nat) (workers : List Worker) (completed : Nat)
    (channel : List Message) (consumer : Consumer σ) : State σ where
  fired := false
  pending
  workers
  completed
  channel
  consumer
  main := .searching

variable {l : List Nat} {ws : List Worker} {k : Nat} {ms : List Message} {c : Consumer σ}

/-- A step of the first worker is a step of the run. -/
theorem reaches_of_worker {w w' : Worker} (h : Worker.Step pre.graph o false w w') :
    Reaches pre o grouping (.quiet l (w :: ws) k ms c) (.quiet l (w' :: ws) k ms c) := by
  have hstep : Step pre o grouping (.quiet l (w :: ws) k ms c) _ :=
    .work (List.nil_append _).symm h
  exact hstep.reaches

/-- The first worker runs its search to the end, one node in each step. -/
theorem reaches_reporting {s : Nat} (x : Search.State) :
    Reaches pre o grouping (.quiet l (.searching s x :: ws) k ms c)
      (.quiet l (.reporting (.ofState s (x.run pre.graph o s)) :: ws) k ms c) := by
  induction x using Search.State.run.induct pre.graph o s with
  | case1 x hpop =>
    rw [Search.State.run_of_pop?_eq_none hpop]
    exact reaches_of_worker (.exhaust hpop)
  | case2 x u rest hpop next hfull =>
    rw [Search.State.run_of_pop?_eq_some hpop, if_pos hfull]
    exact reaches_of_worker (.fill rfl hpop rfl hfull)
  | case3 x u rest hpop next hfull ih =>
    -- the search goes on, and so does the worker
    rw [Search.State.run_of_pop?_eq_some hpop, if_neg hfull]
    exact (reaches_of_worker (.expand rfl hpop rfl (by simpa using hfull))).trans ih

/-- It comes from a start to the result of the search. -/
theorem reaches_search (s : Nat) :
    Reaches pre o grouping (.quiet l (.taken s :: ws) k ms c)
      (.quiet l (.reporting (pre.graph.search o s) :: ws) k ms c) := by
  rw [CallGraph.search]
  cases hsettled : pre.graph.settled? s with
  | some r => exact reaches_of_worker (.settle rfl hsettled)
  | none => exact (reaches_of_worker (.start rfl hsettled)).trans (reaches_reporting _)

/-- It sends its finding, if there is one, to a collector that has not stopped. -/
theorem reaches_report (hc : c.isStopped = false) (r : Result) :
    Reaches pre o grouping (.quiet l (.reporting r :: ws) k ms c)
      (.quiet l (.counting :: ws) k (ms ++ (finding? r).toList.map .found) c) := by
  have hstep : Step pre o grouping (.quiet l (.reporting r :: ws) k ms c) _ :=
    .report (List.nil_append _).symm
  simpa [State.quiet, State.send, hc] using hstep.reaches

/-- The first worker sees the first hazard through. -/
theorem reaches_next (hc : c.isStopped = false) (s : Nat) :
    Reaches pre o grouping (.quiet (s :: l) (.idle :: ws) k ms c)
      (.quiet l (.idle :: ws) (k + 1) (ms ++ (pre.findingsFrom o [s]).map .found) c) := by
  have hfindings : (finding? (pre.graph.search o s)).toList = pre.findingsFrom o [s] := by
    rw [Prepared.findingsFrom, List.filterMap_cons]
    cases finding? (pre.graph.search o s) <;> rfl
  rw [← hfindings]
  refine (Step.reaches (.take rfl (List.nil_append _).symm (List.nil_append _).symm)).trans ?_
  refine (reaches_search s).trans ((reaches_report hc (pre.graph.search o s)).trans ?_)
  have hcount : Step pre o grouping (.quiet l (.counting :: ws) k
      (ms ++ (finding? (pre.graph.search o s)).toList.map .found) c) _ :=
    .count (List.nil_append _).symm
  exact hcount.reaches

/-- It sees all hazards through, one after the other. -/
theorem reaches_all (hc : c.isStopped = false) (l : List Nat) :
    Reaches pre o grouping (.quiet l (.idle :: ws) k ms c)
      (.quiet [] (.idle :: ws) (k + l.length) (ms ++ (pre.findingsFrom o l).map .found) c) := by
  induction l generalizing k ms with
  | nil =>
    rw [Prepared.findingsFrom, List.filterMap_nil, List.map_nil, List.append_nil]
    exact .refl
  | cons s l ih =>
    have hfindings : pre.findingsFrom o (s :: l) = pre.findingsFrom o [s] ++ pre.findingsFrom o l :=
      List.filterMap_append (l := [s])
    have hlength : k + (s :: l).length = k + 1 + l.length := by
      rw [List.length_cons]
      omega
    rw [hfindings, hlength, List.map_append, ← List.append_assoc]
    exact (reaches_next hc s).trans ih

/-! ### The collector empties the channel -/

/-- A run whose searches are over, and whose token has fired exactly if the receiver asks for it. -/
def State.draining (workers : List Worker) (completed : Nat) (channel : List Message)
    (consumer : Consumer σ) : State σ where
  fired := Receiver.cancels consumer.collector.receiver
  pending := []
  workers
  completed
  channel
  consumer
  main := .joining

/-- A step of the collector is a step of the run. If the token has fired, the receiver has to ask
for cancellation afterwards as well. -/
theorem reaches_of_consumer {fired : Bool} {c' : Consumer σ} {ms' : List Message}
    (hfired : Receiver.cancels c.collector.receiver = fired)
    (hstep : c.Step (pre.context grouping) fired ms c' ms')
    (hkept : fired = true → Receiver.cancels c'.collector.receiver = true) :
    Reaches pre o grouping (.draining ws k ms c) (.draining ws k ms' c') := by
  subst hfired
  have hconsume : Reaches pre o grouping (.draining ws k ms c) _ :=
    Step.reaches (.consume rfl hstep)
  -- a receiver that has asked for cancellation keeps asking
  have hor : (Receiver.cancels c.collector.receiver || Receiver.cancels c'.collector.receiver) =
      Receiver.cancels c'.collector.receiver := by
    cases hc : Receiver.cancels c.collector.receiver with
    | false => rfl
    | true => rw [hkept hc, Bool.or_self]
  simpa only [State.draining, hor] using hconsume

theorem reaches_of_consumer_quiet {c' : Consumer σ} {ms' : List Message}
    (hquiet : Receiver.cancels c.collector.receiver = false)
    (hstep : c.Step (pre.context grouping) false ms c' ms') :
    Reaches pre o grouping (.draining ws k ms c) (.draining ws k ms' c') :=
  reaches_of_consumer hquiet hstep fun hfired ↦ absurd hfired Bool.false_ne_true

variable (pre o grouping ws k) in
/-- The collector stops as it does when it reads the channel alone. -/
theorem reaches_stopped (col : Collector σ) (fs : List Finding) (n : Nat) :
    ∃ ms col' result,
      Reaches pre o grouping (.draining ws k (fs.map .found ++ [.done]) (.polling col))
        (.draining ws k ms (.stopped col' result)) ∧
      (col.drain (pre.context grouping) (fun _ ↦ false) n (fs.map .found ++ [.done])).value =
        (col', result) := by
  induction fs generalizing col n with
  | nil =>
    cases hcancels : Receiver.cancels col.receiver with
    | true =>
      refine ⟨_, _, _, reaches_of_consumer hcancels (.cancel rfl) fun _ ↦ hcancels, ?_⟩
      simp [Collector.drain, Collector.isCancelled, hcancels]
    | false =>
      refine ⟨_, _, _, (reaches_of_consumer_quiet hcancels (.poll rfl)).trans
        ((reaches_of_consumer_quiet hcancels .receiveDone).trans
          ((reaches_of_consumer_quiet hcancels (.confirm rfl)).trans
            (reaches_of_consumer_quiet hcancels (.finish rfl)))), ?_⟩
      simp [Collector.drain, Collector.isCancelled, hcancels]
  | cons f fs ih =>
    cases hcancels : Receiver.cancels col.receiver with
    | true =>
      refine ⟨_, _, _, reaches_of_consumer hcancels (.cancel rfl) fun _ ↦ hcancels, ?_⟩
      simp [Collector.drain, Collector.isCancelled, hcancels]
    | false =>
      have hreceive : Reaches pre o grouping
          (.draining ws k ((f :: fs).map .found ++ [.done]) (.polling col))
          (.draining ws k (fs.map .found ++ [.done]) (.processing col f)) :=
        (reaches_of_consumer_quiet hcancels (.poll rfl)).trans
          (reaches_of_consumer_quiet hcancels .receive)
      rw [List.map_cons, List.cons_append, Collector.drain,
        if_neg (by simp [Collector.isCancelled, hcancels]), Logged.value_bind]
      cases hprocess : (col.process (pre.context grouping) f).value with
      | mk col₁ result =>
        cases result with
        | error e =>
          exact ⟨_, _, _, hreceive.trans (reaches_of_consumer_quiet hcancels (.fail hprocess)), rfl⟩
        | ok =>
          obtain ⟨ms, col', result, hreach, hdrain⟩ := ih col₁ (n + 1)
          refine ⟨ms, col', result, hreceive.trans
            ((reaches_of_consumer_quiet hcancels (.process hprocess)).trans hreach), hdrain⟩

/-! ### The whole run -/

/-- What the caller returns when the collector has stopped and nothing but its receiver can have
asked for cancellation. -/
def outcome (pre : Prepared) (grouping : Grouping) (col : Collector σ) :
    Except Error Summary → Except Error Report
  | .error e => .error e
  | .ok s =>
    if Receiver.cancels col.receiver then .error .cancelled
    else .ok (pre.report grouping pre.graph.hazards.length s)

/-- What a run in one thread returns when it is not cancelled before it starts. -/
theorem value_run (pre : Prepared) (o : Options) (grouping : Grouping) (receiver : σ)
    {col : Collector σ} {result : Except Error Summary}
    (h : (Collector.drain (pre.context grouping) (fun _ ↦ false) 0 { receiver }
      ((pre.findings o).map .found ++ [.done])).value = (col, result)) :
    (pre.run o grouping false receiver).value = (col.receiver, outcome pre grouping col result) := by
  have hmessages : messages (pre.graph.searchAll o false).value =
      (pre.findings o).map .found ++ [.done] := by
    rw [CallGraph.value_searchAll_quiet, messages, List.filterMap_map]
    rfl
  rw [Prepared.run, if_neg (by simp), Logged.value_bind, Logged.value_bind, hmessages, h]
  cases result with
  | error e => rfl
  | ok s =>
    dsimp only
    cases hcancels : Receiver.cancels col.receiver with
    | true => simp [Collector.isCancelled, outcome, hcancels]
    | false => simp [Collector.isCancelled, outcome, hcancels, CallGraph.value_searchAll_quiet]

/-- One worker does all the searches, and then the end is announced. -/
theorem reaches_draining (pre : Prepared) (o : Options) (grouping : Grouping) (n : Nat) {receiver : σ}
    (hcancels : Receiver.cancels receiver = false) :
    Reaches pre o grouping (.initial pre (n + 1) false receiver)
      (.draining (.idle :: List.replicate n .idle) pre.graph.hazards.length
        ((pre.findings o).map .found ++ [.done]) (.polling { receiver })) := by
  have hfired : (State.initial pre (n + 1) false receiver).fired = false := by
    simp [State.initial, hcancels]
  have hstart : Reaches pre o grouping (.initial pre (n + 1) false receiver)
      (.quiet pre.graph.hazards (.idle :: List.replicate n .idle) 0 [] (.polling { receiver })) := by
    have hstep : Step pre o grouping (.initial pre (n + 1) false receiver) _ := .start rfl hfired
    simpa [State.initial, State.quiet, hcancels, List.replicate_succ] using hstep.reaches
  have hannounce : Reaches pre o grouping
      (.quiet [] (.idle :: List.replicate n .idle) (0 + pre.graph.hazards.length)
        ([] ++ (pre.findings o).map .found) (.polling { receiver }))
      (.draining (.idle :: List.replicate n .idle) pre.graph.hazards.length
        ((pre.findings o).map .found ++ [.done]) (.polling { receiver })) := by
    have hstep : Step pre o grouping
        (.quiet [] (.idle :: List.replicate n .idle) (0 + pre.graph.hazards.length)
          ([] ++ (pre.findings o).map .found) (.polling { receiver })) _ :=
      .announce rfl rfl (by simp [State.quiet])
    simpa [State.quiet, State.draining, State.send, Consumer.isStopped, Consumer.collector,
      hcancels] using hstep.reaches
  exact hstart.trans ((reaches_all rfl _).trans hannounce)

/-- **A run in one thread is one of the concurrent runs**, with any number of workers. -/
theorem reaches_run (pre : Prepared) (o : Options) (grouping : Grouping) (n : Nat)
    (cancelled : Bool) (receiver : σ) :
    ∃ st, Reaches pre o grouping (.initial pre (n + 1) cancelled receiver) st ∧
      st.main = .returned (pre.run o grouping cancelled receiver).value.2 ∧
      st.consumer.collector.receiver = (pre.run o grouping cancelled receiver).value.1 := by
  cases hfired : cancelled || Receiver.cancels receiver with
  | true =>
    refine ⟨_, Step.reaches (.refuse rfl hfired), ?_⟩
    cases cancelled with
    | true => exact ⟨rfl, rfl⟩
    | false =>
      -- the receiver asks before anything is sent: one thread notices it in the collector
      have hdrain : ∀ l : List Message, (Collector.drain (pre.context grouping) (fun _ ↦ false) 0
          { receiver } l).value = ({ receiver }, .error .cancelled) := by
        intro l
        have hcancels : Receiver.cancels receiver = true := by simpa using hfired
        cases l <;> simp [Collector.drain, Collector.isCancelled, hcancels]
      rw [value_run pre o grouping receiver (hdrain _)]
      exact ⟨rfl, rfl⟩
  | false =>
    obtain ⟨rfl, hcancels⟩ := Bool.or_eq_false_iff.1 hfired
    obtain ⟨ms, col, result, hreach, hdrain⟩ := reaches_stopped pre o grouping
      (.idle :: List.replicate n .idle) pre.graph.hazards.length { receiver } (pre.findings o) 0
    have hstopped := (reaches_draining pre o grouping n hcancels).trans hreach
    rw [value_run pre o grouping receiver hdrain]
    cases result with
    | error e => exact ⟨_, hstopped.trans (Step.reaches (.fail rfl rfl)), rfl, rfl⟩
    | ok s =>
      have hjoin := hstopped.trans (Step.reaches (.join rfl rfl))
      cases hlast : Receiver.cancels col.receiver with
      | true =>
        exact ⟨_, hjoin.trans (Step.reaches (.cancel rfl hlast)), by simp [outcome, hlast], rfl⟩
      | false =>
        refine ⟨_, hjoin.trans (Step.reaches (.conclude rfl hlast)), ?_, rfl⟩
        simp [outcome, hlast, State.draining]

/-- A reliable receiver gets a report. -/
theorem exists_run (hσ : Receiver.Reliable σ) (pre : Prepared) (o : Options) (grouping : Grouping)
    (receiver : σ) :
    ∃ receiver' report, (pre.run o grouping false receiver).value = (receiver', .ok report) := by
  obtain ⟨col, s, hcollect⟩ :=
    Collector.exists_collect hσ (pre.context grouping) { receiver } (pre.findings o)
  have hrun := value_run pre o grouping receiver ((Collector.value_drain hσ ..).trans hcollect)
  rw [outcome, if_neg (by simp [hσ.not_cancels])] at hrun
  exact ⟨_, _, hrun⟩

/-- A run ends with a report and leaves its receiver as `receiver'`. It may run in one thread, or
with any number of workers whose steps come in any order. -/
inductive Returns (pre : Prepared) (o : Options) (grouping : Grouping) (receiver : σ)
    (report : Report) (receiver' : σ) : Prop where
  | alone {cancelled : Bool}
      (hrun : (pre.run o grouping cancelled receiver).value = (receiver', .ok report))
  | shared {n : Nat} {cancelled : Bool} {st : State σ}
      (hreach : Reaches pre o grouping (.initial pre n cancelled receiver) st)
      (hmain : st.main = .returned (.ok report))
      (hreceiver : st.consumer.collector.receiver = receiver')

/-- However a report came about, there is a concurrent run that returns it. -/
theorem Returns.exists_reaches {receiver receiver' : σ} {report : Report}
    (h : Returns pre o grouping receiver report receiver') :
    ∃ n cancelled st, Reaches pre o grouping (.initial pre n cancelled receiver) st ∧
      st.main = .returned (.ok report) ∧ st.consumer.collector.receiver = receiver' := by
  cases h with
  | shared hreach hmain hreceiver => exact ⟨_, _, _, hreach, hmain, hreceiver⟩
  | @alone cancelled hrun =>
    obtain ⟨st, hreach, hmain, hreceiver⟩ := reaches_run pre o grouping 0 cancelled receiver
    rw [hrun] at hmain hreceiver
    exact ⟨_, _, st, hreach, hmain, hreceiver⟩

end Concurrent

end Analysis

end HazardTrace
