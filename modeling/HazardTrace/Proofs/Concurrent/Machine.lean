import HazardTrace.Analysis
import HazardTrace.Proofs.Search.Discovery
import Mathlib.Algebra.GroupWithZero.Nat
import Mathlib.Logic.Relation

/-!
# Concurrent runs

A run of an analysis has any number of search workers, which share the hazards, one collector at the
far end of a channel, and the caller, who announces the end of the searches, waits for the collector
and reads the cancellation token a last time. Nothing orders their steps but the channel, and the
token may fire between any two of them; it is never reset.

Each party is a small automaton that knows where it stands, and there is one relation for what it
may do next: `Worker.Step`, `Consumer.Step`, and `Step` for the whole run, where the caller and the
messages come in. The searching itself, the collecting and the report are the functions that a run
in one thread uses. A token is read where a step asks whether it has `fired`, and nowhere else.
`Moves` adds that the token may fire by itself, and `Reaches` is a run of any length.

Two results hold of all runs.

* `wellFounded_moves`: every run ends. Each party has a `rank` that bounds the steps it still
  causes, those of its messages included, and `State.rank` adds them up. Every move makes it smaller
  (`Moves.rank_lt`). For a search that is `Search.State.weight_expand_pop_lt`: a node that is
  expanded does not come back. A message is worth three steps of the collector, so sending one has
  to cost its sender four.
* `exists_step`: a run that has not returned can go on, if there is any worker. The one way to be
  stuck would be a collector that waits for a message which never comes. That is excluded by an
  invariant, `Live`: while the caller waits, the end is in the channel for a collector that has not
  heard of it. Each step preserves it (`Live.step`), hence each run (`Live.reaches`).

What a run returns is the subject of the modules that follow. In the one on completeness the
invariants speak of the data, and here of progress only.
-/

namespace HazardTrace

namespace Analysis

namespace Concurrent

open Search (Options Result)
open Collector (Message Summary)

/-! ### Search workers -/

/-- Where a search worker stands. -/
inductive Worker where
  | idle
  /-- It has taken a hazard and has not read the token yet. -/
  | taken (start : Nat)
  /-- It is about to expand the next node, unless none waits. -/
  | searching (start : Nat) (st : Search.State)
  /-- The search has ended, and its finding is to be sent if it has one. -/
  | reporting (r : Result)
  /-- The search is still to be counted. -/
  | counting

/-- A worker searches. The token is read at the start and before each node is expanded. -/
inductive Worker.Step (g : CallGraph) (o : Options) (fired : Bool) : Worker → Worker → Prop where
  | skip {s : Nat} (hfired : fired = true) : Step g o fired (.taken s) .idle
  | settle {s : Nat} {r : Result} (hfired : fired = false) (hsettled : g.settled? s = some r) :
      Step g o fired (.taken s) (.reporting r)
  | start {s : Nat} (hfired : fired = false) (hsettled : g.settled? s = none) :
      Step g o fired (.taken s) (.searching s (.initial g s))
  | exhaust {s : Nat} {st : Search.State} (hpop : st.waiting.pop? = none) :
      Step g o fired (.searching s st) (.reporting (.ofState s st))
  | giveUp {s u : Nat} {st : Search.State} {rest : Worklist Nat} (hfired : fired = true)
      (hpop : st.waiting.pop? = some (u, rest)) : Step g o fired (.searching s st) .idle
  | expand {s u : Nat} {st next : Search.State} {rest : Worklist Nat} (hfired : fired = false)
      (hpop : st.waiting.pop? = some (u, rest))
      (hnext : ({ st with waiting := rest } : Search.State).expand g o s u = next)
      (hfull : next.isFull o = false) : Step g o fired (.searching s st) (.searching s next)
  | fill {s u : Nat} {st next : Search.State} {rest : Worklist Nat} (hfired : fired = false)
      (hpop : st.waiting.pop? = some (u, rest))
      (hnext : ({ st with waiting := rest } : Search.State).expand g o s u = next)
      (hfull : next.isFull o = true) :
      Step g o fired (.searching s st) (.reporting (.ofState s next))

/-! ### The collector -/

/-- Where the collector stands. -/
inductive Consumer (σ : Type) where
  /-- It is about to read the token. -/
  | polling (col : Collector σ)
  /-- It waits for a message. -/
  | receiving (col : Collector σ)
  | processing (col : Collector σ) (f : Finding)
  /-- The end was announced, and the token is to be read again. -/
  | confirming (col : Collector σ)
  | finishing (col : Collector σ)
  | stopped (col : Collector σ) (result : Except Error Summary)

namespace Consumer

variable {σ : Type}

/-- What has been collected. -/
def collector : Consumer σ → Collector σ
  | .polling col | .receiving col | .processing col _ | .confirming col | .finishing col
  | .stopped col _ => col

/-- Has it stopped, so that no message reaches it any more? -/
def isStopped : Consumer σ → Bool
  | .stopped _ _ => true
  | _ => false

/-- Is it still to hear of the end of the searches? -/
def isAwaiting : Consumer σ → Bool
  | .polling _ | .receiving _ | .processing _ _ => true
  | _ => false

/-- The collector goes on; the lists are what is in the channel before and after. -/
inductive Step [Receiver σ] (ctx : Collector.Context) (fired : Bool) :
    Consumer σ → List Message → Consumer σ → List Message → Prop where
  | cancel {col : Collector σ} {ms : List Message} (hfired : fired = true) :
      Step ctx fired (.polling col) ms (.stopped col (.error .cancelled)) ms
  | poll {col : Collector σ} {ms : List Message} (hfired : fired = false) :
      Step ctx fired (.polling col) ms (.receiving col) ms
  | receive {col : Collector σ} {f : Finding} {ms : List Message} :
      Step ctx fired (.receiving col) (.found f :: ms) (.processing col f) ms
  | receiveDone {col : Collector σ} {ms : List Message} :
      Step ctx fired (.receiving col) (.done :: ms) (.confirming col) ms
  | process {col col' : Collector σ} {f : Finding} {ms : List Message}
      (hprocess : (col.process ctx f).value = (col', .ok ())) :
      Step ctx fired (.processing col f) ms (.polling col') ms
  | fail {col col' : Collector σ} {f : Finding} {e : Error} {ms : List Message}
      (hprocess : (col.process ctx f).value = (col', .error e)) :
      Step ctx fired (.processing col f) ms (.stopped col' (.error e)) ms
  | withdraw {col : Collector σ} {ms : List Message} (hfired : fired = true) :
      Step ctx fired (.confirming col) ms (.stopped col (.error .cancelled)) ms
  | confirm {col : Collector σ} {ms : List Message} (hfired : fired = false) :
      Step ctx fired (.confirming col) ms (.finishing col) ms
  | finish {col col' : Collector σ} {result : Except Error Summary} {ms : List Message}
      (hfinish : (col.finish ctx).value = (col', result)) :
      Step ctx fired (.finishing col) ms (.stopped col' result) ms

end Consumer

/-! ### Runs -/

/-- Where the caller stands. -/
inductive Main where
  /-- The token is to be read before anything starts. -/
  | opening
  /-- The searches are running. -/
  | searching
  /-- The end of the searches is announced. -/
  | joining
  /-- The collector has finished, and the token is to be read for the last time. -/
  | checking (summary : Summary)
  | returned (outcome : Except Error Report)

/-- Is the collector at work? -/
def Main.isRunning : Main → Bool
  | .searching | .joining => true
  | _ => false

/-- Has the run returned? -/
def Main.isReturned : Main → Bool
  | .returned _ => true
  | _ => false

/-- A run in progress. -/
structure State (σ : Type) where
  fired : Bool
  /-- The hazards that no worker has taken yet. -/
  pending : List Nat
  workers : List Worker
  /-- The number of searches that ran to completion. -/
  completed : Nat := 0
  /-- What has been sent and not received, oldest first. -/
  channel : List Message := []
  consumer : Consumer σ
  main : Main := .opening

variable {σ : Type}

/-- What is in the channel when messages have been sent. Nothing can be sent to a collector that has
stopped. -/
def State.send (st : State σ) (ms : List Message) : List Message :=
  if st.consumer.isStopped then st.channel else st.channel ++ ms

/-- Sending puts at most these messages in the channel. -/
theorem State.length_send_le (st : State σ) (ms : List Message) :
    (st.send ms).length ≤ st.channel.length + ms.length := by
  unfold send
  split <;> simp

theorem State.mem_send_of_mem {st : State σ} {m : Message} {ms : List Message} (h : m ∈ st.channel) :
    m ∈ st.send ms := by
  unfold send
  split
  · exact h
  · exact List.mem_append_left _ h

variable [Receiver σ]

/-- Where a run with `n` workers starts. The token may have fired before, and the receiver may ask
for cancellation at once. -/
def State.initial (pre : Prepared) (n : Nat) (cancelled : Bool) (receiver : σ) : State σ where
  fired := cancelled || Receiver.cancels receiver
  pending := pre.graph.hazards
  workers := List.replicate n .idle
  consumer := .polling { receiver }

/-- One step of one party. -/
inductive Step (pre : Prepared) (o : Options) (grouping : Grouping) : State σ → State σ → Prop where
  /-- A worker takes a hazard. -/
  | take {st : State σ} {l₁ l₂ : List Nat} {s : Nat} {ws₁ ws₂ : List Worker}
      (hmain : st.main = .searching) (hpending : st.pending = l₁ ++ s :: l₂)
      (hworkers : st.workers = ws₁ ++ .idle :: ws₂) :
      Step pre o grouping st
        { st with pending := l₁ ++ l₂, workers := ws₁ ++ .taken s :: ws₂ }
  /-- A worker searches. -/
  | work {st : State σ} {w w' : Worker} {ws₁ ws₂ : List Worker}
      (hworkers : st.workers = ws₁ ++ w :: ws₂)
      (hstep : Worker.Step pre.graph o st.fired w w') :
      Step pre o grouping st { st with workers := ws₁ ++ w' :: ws₂ }
  /-- A worker sends its finding. If that fails, the token is fired. -/
  | report {st : State σ} {r : Result} {ws₁ ws₂ : List Worker}
      (hworkers : st.workers = ws₁ ++ .reporting r :: ws₂) :
      Step pre o grouping st
        { st with
          fired := st.fired || (st.consumer.isStopped && (finding? r).isSome)
          workers := ws₁ ++ .counting :: ws₂
          channel := st.send ((finding? r).toList.map .found) }
  /-- A worker counts its search. -/
  | count {st : State σ} {ws₁ ws₂ : List Worker} (hworkers : st.workers = ws₁ ++ .counting :: ws₂) :
      Step pre o grouping st
        { st with workers := ws₁ ++ .idle :: ws₂, completed := st.completed + 1 }
  /-- The collector goes on. Its receiver may fire the token. -/
  | consume {st : State σ} {c : Consumer σ} {channel : List Message}
      (hmain : st.main.isRunning = true)
      (hstep : st.consumer.Step (pre.context grouping) st.fired st.channel c channel) :
      Step pre o grouping st
        { st with
          fired := st.fired || Receiver.cancels c.collector.receiver
          channel
          consumer := c }
  /-- Nothing is started once the token has fired. -/
  | refuse {st : State σ} (hmain : st.main = .opening) (hfired : st.fired = true) :
      Step pre o grouping st { st with main := .returned (.error .cancelled) }
  | start {st : State σ} (hmain : st.main = .opening) (hfired : st.fired = false) :
      Step pre o grouping st { st with main := .searching }
  /-- The end is announced when every worker has finished. -/
  | announce {st : State σ} (hmain : st.main = .searching) (hpending : st.pending = [])
      (hidle : ∀ w ∈ st.workers, w = .idle) :
      Step pre o grouping st { st with main := .joining, channel := st.send [.done] }
  | fail {st : State σ} {col : Collector σ} {e : Error} (hmain : st.main = .joining)
      (hstopped : st.consumer = .stopped col (.error e)) :
      Step pre o grouping st { st with main := .returned (.error e) }
  | join {st : State σ} {col : Collector σ} {s : Summary} (hmain : st.main = .joining)
      (hstopped : st.consumer = .stopped col (.ok s)) :
      Step pre o grouping st { st with main := .checking s }
  | cancel {st : State σ} {s : Summary} (hmain : st.main = .checking s) (hfired : st.fired = true) :
      Step pre o grouping st { st with main := .returned (.error .cancelled) }
  | conclude {st : State σ} {s : Summary} (hmain : st.main = .checking s)
      (hfired : st.fired = false) :
      Step pre o grouping st
        { st with main := .returned (.ok (pre.report grouping st.completed s)) }

/-- A step, or the token fires. -/
inductive Moves (pre : Prepared) (o : Options) (grouping : Grouping) : State σ → State σ → Prop where
  | step {st st' : State σ} (h : Step pre o grouping st st') : Moves pre o grouping st st'
  | fire {st : State σ} (h : st.fired = false) : Moves pre o grouping st { st with fired := true }

/-- A run that gets from one state to another. -/
def Reaches (pre : Prepared) (o : Options) (grouping : Grouping) : State σ → State σ → Prop :=
  Relation.ReflTransGen (Moves pre o grouping)

variable {pre : Prepared} {o : Options} {grouping : Grouping} {st st' : State σ}

/-! ### Every run ends -/

/-- Bounds the number of steps that a worker and its message still cause. -/
def Worker.rank (g : CallGraph) : Worker → Nat
  | .idle => 0
  | .taken _ => g.size + 8
  | .searching _ st => st.weight + 6
  | .reporting _ => 5
  | .counting => 1

/-- Bounds the number of steps that the collector takes before its next message. -/
def Consumer.rank : Consumer σ → Nat
  | .processing _ _ | .confirming _ => 3
  | .polling _ | .finishing _ => 2
  | .receiving _ => 1
  | .stopped _ _ => 0

/-- Bounds the number of steps that the caller and its message still cause. -/
def Main.rank : Main → Nat
  | .opening => 8
  | .searching => 7
  | .joining => 2
  | .checking _ => 1
  | .returned _ => 0

/-- Bounds the number of moves to the end of a run. -/
def State.rank (g : CallGraph) (st : State σ) : Nat :=
  st.pending.length * (g.size + 9) + (st.workers.map (Worker.rank g)).sum +
    3 * st.channel.length + st.consumer.rank + st.main.rank + (if st.fired then 0 else 1)

/-- A search starts with one node that waits, and all others are still to be discovered. -/
theorem weight_initial_le (g : CallGraph) (s : Nat) :
    (Search.State.initial g s).weight ≤ g.size + 1 := by
  have hundiscovered : (Search.State.initial g s).undiscovered ≤ g.size := by
    refine Array.countP_le_size.trans ?_
    simp [Search.State.initial]
  exact Nat.add_le_add_right hundiscovered 1

/-- A worker comes closer to its end with each step. Where a node is expanded it is the search that
does. -/
theorem Worker.Step.rank_lt {g : CallGraph} {fired : Bool} {w w' : Worker}
    (h : Worker.Step g o fired w w') : w'.rank g < w.rank g := by
  cases h with
  | skip => simp [rank]
  | settle => simp [rank]
  | @start s =>
    have hweight := weight_initial_le g s
    simp only [rank]
    omega
  | exhaust => simp [rank]
  | giveUp => simp [rank]
  | expand hfired hpop hnext =>
    subst hnext
    exact Nat.add_lt_add_right (Search.State.weight_expand_pop_lt hpop) 6
  | fill => simp [rank]

/-- The collector comes closer to its end, or takes a message out of the channel, which is worth
three steps. -/
theorem Consumer.Step.rank_lt {ctx : Collector.Context} {fired : Bool} {c c' : Consumer σ}
    {ms ms' : List Message} (h : c.Step ctx fired ms c' ms') :
    c'.rank + 3 * ms'.length < c.rank + 3 * ms.length := by
  cases h
  all_goals
    simp only [rank, List.length_cons]
    omega

/-- Each step of any party brings the run closer to its end. -/
theorem Step.rank_lt (h : Step pre o grouping st st') : st'.rank pre.graph < st.rank pre.graph := by
  have hor : ∀ b, (if st.fired || b then 0 else 1) ≤ if st.fired then 0 else 1 := by
    intro b
    cases st.fired <;> cases b <;> decide
  cases h with
  | take hmain hpending hworkers =>
    -- a hazard that waits counts for one step more than one that has been taken
    simp only [State.rank, hpending, hworkers, List.length_append, List.length_cons,
      List.map_append, List.map_cons, List.sum_append, List.sum_cons, Worker.rank, Nat.add_mul]
    omega
  | work hworkers hstep =>
    have hrank := hstep.rank_lt
    simp only [State.rank, hworkers, List.map_append, List.map_cons, List.sum_append, List.sum_cons]
    omega
  | @report r ws₁ ws₂ hworkers =>
    have hsend := st.length_send_le ((finding? r).toList.map .found)
    have hlength : ((finding? r).toList.map Message.found).length ≤ 1 := by
      cases finding? r <;> simp
    have hfired := hor (st.consumer.isStopped && (finding? r).isSome)
    -- the rank of the worker falls by four, and its message is worth three
    simp only [State.rank, hworkers, List.map_append, List.map_cons, List.sum_append,
      List.sum_cons, Worker.rank]
    omega
  | count hworkers =>
    simp only [State.rank, hworkers, List.map_append, List.map_cons, List.sum_append,
      List.sum_cons, Worker.rank]
    omega
  | @consume c channel hmain hstep =>
    have hrank := hstep.rank_lt
    have hfired := hor (Receiver.cancels c.collector.receiver)
    simp only [State.rank]
    omega
  | announce hmain =>
    have hsend := st.length_send_le [.done]
    simp only [State.rank, hmain, Main.rank, List.length_singleton] at hsend ⊢
    omega
  | refuse hmain => simp only [State.rank, hmain, Main.rank]; omega
  | start hmain => simp only [State.rank, hmain, Main.rank]; omega
  | fail hmain => simp only [State.rank, hmain, Main.rank]; omega
  | join hmain => simp only [State.rank, hmain, Main.rank]; omega
  | cancel hmain => simp only [State.rank, hmain, Main.rank]; omega
  | conclude hmain => simp only [State.rank, hmain, Main.rank]; omega

/-- The token fires once, and that is counted too. -/
theorem Moves.rank_lt (h : Moves pre o grouping st st') :
    st'.rank pre.graph < st.rank pre.graph := by
  cases h with
  | step h => exact h.rank_lt
  | fire h => simp [State.rank, h]

/-- **Every run ends.** -/
theorem wellFounded_moves (pre : Prepared) (o : Options) (grouping : Grouping) :
    WellFounded fun st' st : State σ ↦ Moves pre o grouping st st' :=
  Subrelation.wf Moves.rank_lt (measure (State.rank pre.graph)).wf

/-! ### No run is stuck -/

/-- What keeps a run going: it has its workers, and while the caller waits, the end is in the
channel for a collector that has not heard of it. -/
structure Live (n : Nat) (st : State σ) : Prop where
  length_workers : st.workers.length = n
  done_mem : st.main = .joining → st.consumer.isAwaiting = true → .done ∈ st.channel

/-- A run starts with all its workers, and the caller is not waiting yet. -/
theorem live_initial (pre : Prepared) (n : Nat) (cancelled : Bool) (receiver : σ) :
    Live n (State.initial pre n cancelled receiver) where
  length_workers := List.length_replicate ..
  done_mem hmain := by cases hmain

/-- The collector takes the announcement out of the channel only in the step in which it hears of
it. -/
theorem Consumer.Step.done_mem {ctx : Collector.Context} {fired : Bool} {c c' : Consumer σ}
    {ms ms' : List Message} (h : c.Step ctx fired ms c' ms')
    (hmem : c.isAwaiting = true → Message.done ∈ ms) :
    c'.isAwaiting = true → Message.done ∈ ms' := by
  cases h with
  | poll => exact hmem
  | receive => exact fun _ ↦ by simpa using hmem rfl
  | process => exact hmem
  | cancel | receiveDone | fail | withdraw | confirm | finish => exact fun h ↦ by cases h

/-- The step of `Live`: messages are appended, and the announcement itself puts the end in the
channel. -/
theorem Live.step {n : Nat} (h : Live n st) (hstep : Step pre o grouping st st') : Live n st' := by
  have hlength := h.length_workers
  cases hstep with
  | take hmain hpending hworkers =>
    exact ⟨by simpa [hworkers] using hlength, h.done_mem⟩
  | work hworkers =>
    exact ⟨by simpa [hworkers] using hlength, h.done_mem⟩
  | report hworkers =>
    exact ⟨by simpa [hworkers] using hlength, fun hmain hawait ↦
      State.mem_send_of_mem (h.done_mem hmain hawait)⟩
  | count hworkers => exact ⟨by simpa [hworkers] using hlength, h.done_mem⟩
  | consume hmain hstep => exact ⟨hlength, fun hjoining ↦ hstep.done_mem (h.done_mem hjoining)⟩
  | announce =>
    refine ⟨hlength, fun _ hawait ↦ ?_⟩
    -- a collector that has not heard of the end has not stopped, so the end can be sent to it
    have hrunning : st.consumer.isStopped = false := by
      revert hawait
      cases st.consumer <;> simp [Consumer.isAwaiting, Consumer.isStopped]
    simp [State.send, hrunning]
  | refuse | start | fail | join | cancel | conclude =>
    exact ⟨hlength, fun hmain ↦ by cases hmain⟩

/-- No run is ever in danger of being stuck. -/
theorem Live.reaches {n : Nat} (h : Live n st) (hreach : Reaches pre o grouping st st') :
    Live n st' := by
  induction hreach with
  | refl => exact h
  | tail _ hmove ih =>
    cases hmove with
    | step hstep => exact ih.step hstep
    | fire => exact ⟨ih.length_workers, ih.done_mem⟩

/-- A worker rests, or has something to hand over or to count, or can go on searching. -/
theorem Worker.exists_step (g : CallGraph) (o : Options) (fired : Bool) (w : Worker) :
    w = .idle ∨ (∃ r, w = .reporting r) ∨ w = .counting ∨ ∃ w', Worker.Step g o fired w w' := by
  cases w with
  | idle => exact .inl rfl
  | reporting r => exact .inr (.inl ⟨r, rfl⟩)
  | counting => exact .inr (.inr (.inl rfl))
  | taken s =>
    refine .inr (.inr (.inr ?_))
    cases hfired : fired with
    | true => exact ⟨_, .skip rfl⟩
    | false =>
      cases hsettled : g.settled? s with
      | none => exact ⟨_, .start rfl hsettled⟩
      | some r => exact ⟨_, .settle rfl hsettled⟩
  | searching s st =>
    refine .inr (.inr (.inr ?_))
    cases hpop : st.waiting.pop? with
    | none => exact ⟨_, .exhaust hpop⟩
    | some p =>
      cases hfired : fired with
      | true => exact ⟨_, .giveUp rfl hpop⟩
      | false =>
        cases hfull : (({ st with waiting := p.2 } : Search.State).expand g o s p.1).isFull o with
        | true => exact ⟨_, .fill rfl hpop rfl hfull⟩
        | false => exact ⟨_, .expand rfl hpop rfl hfull⟩

/-- Every worker rests, or one of them can go on. -/
theorem Worker.all_idle_or_exists_step (g : CallGraph) (o : Options) (fired : Bool)
    (workers : List Worker) :
    (∀ w ∈ workers, w = .idle) ∨ ∃ ws₁ w ws₂, workers = ws₁ ++ w :: ws₂ ∧
      ((∃ r, w = .reporting r) ∨ w = .counting ∨ ∃ w', Worker.Step g o fired w w') := by
  by_cases hidle : ∀ w ∈ workers, w = .idle
  · exact .inl hidle
  · simp only [not_forall] at hidle
    obtain ⟨w, hw, hbusy⟩ := hidle
    obtain ⟨ws₁, ws₂, hws⟩ := List.append_of_mem hw
    exact .inr ⟨ws₁, w, ws₂, hws, (Worker.exists_step g o fired w).resolve_left hbusy⟩

/-- The collector has stopped or can go on, unless it waits for a message and there is none. -/
theorem Consumer.exists_step (ctx : Collector.Context) (fired : Bool) (c : Consumer σ)
    {ms : List Message} (hms : c.isAwaiting = true → ms ≠ []) :
    (∃ col result, c = .stopped col result) ∨ ∃ c' ms', c.Step ctx fired ms c' ms' := by
  cases c with
  | stopped col result => exact .inl ⟨col, result, rfl⟩
  | polling col =>
    cases hfired : fired with
    | true => exact .inr ⟨_, _, .cancel rfl⟩
    | false => exact .inr ⟨_, _, .poll rfl⟩
  | receiving col =>
    match ms, hms rfl with
    | .found f :: ms, _ => exact .inr ⟨_, _, .receive⟩
    | .done :: ms, _ => exact .inr ⟨_, _, .receiveDone⟩
  | processing col f =>
    cases hprocess : (col.process ctx f).value with
    | mk col' result =>
      cases result with
      | ok => exact .inr ⟨_, _, .process hprocess⟩
      | error e => exact .inr ⟨_, _, .fail hprocess⟩
  | confirming col =>
    cases hfired : fired with
    | true => exact .inr ⟨_, _, .withdraw rfl⟩
    | false => exact .inr ⟨_, _, .confirm rfl⟩
  | finishing col => exact .inr ⟨_, _, .finish rfl⟩

/-- **A run that has not returned can go on**, if there is any worker. -/
theorem exists_step {n : Nat} (pre : Prepared) (o : Options) (grouping : Grouping) (h : Live n st)
    (hn : 0 < n) (hmain : st.main.isReturned = false) : ∃ st', Step pre o grouping st st' := by
  cases hst : st.main with
  | opening =>
    cases hfired : st.fired with
    | true => exact ⟨_, .refuse hst hfired⟩
    | false => exact ⟨_, .start hst hfired⟩
  | searching =>
    obtain hidle | ⟨ws₁, w, ws₂, hws, ⟨r, rfl⟩ | rfl | ⟨w', hstep⟩⟩ :=
      Worker.all_idle_or_exists_step pre.graph o st.fired st.workers
    · cases hpending : st.pending with
      | nil => exact ⟨_, .announce hst hpending hidle⟩
      | cons s l =>
        obtain ⟨w, ws, hws⟩ := List.exists_cons_of_length_pos (h.length_workers ▸ hn)
        obtain rfl := hidle w (hws ▸ List.mem_cons_self)
        exact ⟨_, .take hst (hpending.trans (List.nil_append _).symm)
          (hws.trans (List.nil_append _).symm)⟩
    · exact ⟨_, .report hws⟩
    · exact ⟨_, .count hws⟩
    · exact ⟨_, .work hws hstep⟩
  | joining =>
    -- here the invariant is needed: the collector has something to receive
    have hms : st.consumer.isAwaiting = true → st.channel ≠ [] := fun hawait ↦
      List.ne_nil_of_mem (h.done_mem hst hawait)
    rcases Consumer.exists_step (pre.context grouping) st.fired st.consumer hms with
      ⟨col, result, hstopped⟩ | ⟨c, ms, hstep⟩
    · cases result with
      | ok s => exact ⟨_, .join hst hstopped⟩
      | error e => exact ⟨_, .fail hst hstopped⟩
    · exact ⟨_, .consume (by rw [hst]; rfl) hstep⟩
  | checking s =>
    cases hfired : st.fired with
    | true => exact ⟨_, .cancel hst hfired⟩
    | false => exact ⟨_, .conclude hst hfired⟩
  | returned outcome =>
    rw [hst] at hmain
    cases hmain

end Concurrent

end Analysis

end HazardTrace
