import HazardTrace.Proofs.Collector.Handed
import HazardTrace.Report.Delivery

/-!
# How draining ends

A collector that drains a channel stops in one of four ways: it is told that nothing more will come
and ends the report, the channel closes, the token reads fired, or a finding cannot be handed over.
`drain_outcome` says which, from the messages (`leading` are the findings before the end), from what
the token reads at each check (`reading`), and from what processing these findings gives.

As long as findings come, the token reads unfired and nothing fails, draining is nothing but
processing (`value_drain_append`, by induction on the findings). So whatever ends a run can be
looked at on its own, behind the findings taken so far: `value_drain_of_done`,
`value_drain_of_closed` and `value_drain_of_reading` are three instances of one argument, each with
one step behind the append. Where a run ends well this is read backwards (`drain_ok_cases`), along
the messages.

A check is made before each message and once more when the end is announced, hence the number of
checks is that of the leading findings and one or two more. `Unfired` says that the first checks
read unfired. What the token reads at a check may depend on the receiver, and so on the findings
taken before it, but on no others (`Unfired.take`).

The end of the report is the only place where anything but a chain is handed over, and with grouping
chains are not handed over either. `OnlyChains` says so of the receivers before and after, is
transitive, and holds of each step of a collector (`OnlyChains.take`) and so of every run
(`OnlyChains.processAll`). A run that stops before the end therefore leaves the report unfinished.

For cancellation the first check that reads fired matters, while the theorem speaks of any:
`drain_of_fired_reading` goes from the one to the other by strong induction.
-/

namespace HazardTrace

namespace Collector

variable {σ : Type} [Receiver σ] {ctx : Context} {fired : Nat → Bool} {check k n : Nat}
  {col col' : Collector σ} {f : Finding} {fs : List Finding} {messages rest : List Message}
  {s : Summary}

/-! ### Messages -/

/-- The findings that arrive before the end is announced, or before the channel closes. -/
def leading : List Message → List Finding
  | .found f :: messages => f :: leading messages
  | .done :: _ => []
  | [] => []

/-- Behind the leading findings the channel closes, or the end is announced. -/
theorem leading_cases (messages : List Message) :
    (.done ∉ messages ∧ messages = (leading messages).map .found) ∨
      .done ∈ messages ∧ ∃ later, messages = (leading messages).map .found ++ .done :: later := by
  induction messages with
  | nil => exact .inl ⟨List.not_mem_nil, rfl⟩
  | cons message messages ih =>
    cases message with
    | done => exact .inr ⟨List.mem_cons_self, messages, rfl⟩
    | found f =>
      have hdone : Message.done ∈ Message.found f :: messages ↔ .done ∈ messages := by simp
      rw [hdone, leading, List.map_cons]
      obtain ⟨hnone, hfound⟩ | ⟨hmem, later, hlater⟩ := ih
      · exact .inl ⟨hnone, congrArg _ hfound⟩
      · exact .inr ⟨hmem, later, congrArg _ hlater⟩

/-! ### Processing -/

/-- A finding that can be taken leaves the others to the next collector. -/
theorem processAll_cons_of_ok (h : (col.process ctx f).value = (col', .ok ())) (fs : List Finding) :
    col.processAll ctx (f :: fs) = col'.processAll ctx fs := by
  rw [processAll, h]

/-- A run that succeeds has taken its first finding. -/
theorem processAll_cons_cases (h : (col.processAll ctx (f :: fs)).2 = .ok ()) :
    ∃ col', (col.process ctx f).value = (col', .ok ()) ∧ (col'.processAll ctx fs).2 = .ok () := by
  rw [processAll] at h
  split at h
  next col' hprocess => exact ⟨col', hprocess, h⟩
  · cases h

/-- What succeeds has succeeded so far. -/
theorem processAll_take (h : (col.processAll ctx fs).2 = .ok ()) (k : Nat) :
    (col.processAll ctx (fs.take k)).2 = .ok () := by
  induction fs generalizing col k with
  | nil =>
    rw [List.take_nil]
    exact h
  | cons f fs ih =>
    cases k with
    | zero => rfl
    | succ k =>
      obtain ⟨col', hprocess, hrest⟩ := processAll_cons_cases h
      rw [List.take_succ_cons, processAll_cons_of_ok hprocess]
      exact ih hrest k

/-! ### One check -/

/-- A token that reads fired ends the run, whatever is still to come. -/
theorem value_drain_of_fired (h : isCancelled (fired check) col = true) (messages : List Message) :
    (col.drain ctx fired check messages).value = (col, .error .cancelled) := by
  rcases messages with _ | ⟨f | _, messages⟩
  · rw [drain, if_pos h]
  · rw [drain, if_pos h]
  · rw [drain, if_pos h]

/-- A channel that closes is an internal error. -/
theorem value_drain_closed (h : isCancelled (fired check) col = false) :
    (col.drain ctx fired check []).value =
      (col, .error (.internal "result channel closed before completion")) := by
  rw [drain, if_neg (by simp [h])]
  rfl

/-- When the end is announced, the token is read once more. -/
theorem value_drain_done (h : isCancelled (fired check) col = false) (later : List Message) :
    (col.drain ctx fired check (.done :: later)).value =
      if isCancelled (fired (check + 1)) col then (col, .error .cancelled)
      else (col.finish ctx).value := by
  rw [drain, if_neg (by simp [h])]
  split <;> rfl

/-- A finding that can be taken is followed by the next check. -/
theorem value_drain_found (h : isCancelled (fired check) col = false)
    (hprocess : (col.process ctx f).value = (col', .ok ())) (messages : List Message) :
    (col.drain ctx fired check (.found f :: messages)).value =
      (col'.drain ctx fired (check + 1) messages).value := by
  rw [drain, if_neg (by simp [h]), Logged.value_bind, hprocess]

/-! ### Runs -/

/-- What the token reads at the `k`-th check, counted from `check`, of a run on the findings `fs`.
The first check comes before the first message, each finding that is taken is followed by one, and
so is the announcement of the end. -/
def reading (ctx : Context) (fired : Nat → Bool) (check : Nat) (col : Collector σ)
    (fs : List Finding) (k : Nat) : Bool :=
  isCancelled (fired (check + k)) (col.processAll ctx (fs.take k)).1

/-- The token reads unfired at the first `n` checks. -/
def Unfired (ctx : Context) (fired : Nat → Bool) (check : Nat) (col : Collector σ)
    (fs : List Finding) (n : Nat) : Prop :=
  ∀ k < n, reading ctx fired check col fs k = false

/-- The first check comes before the first finding, and the others are those of the collector behind
it. -/
theorem unfired_cons_succ (hprocess : (col.process ctx f).value = (col', .ok ())) :
    Unfired ctx fired check col (f :: fs) (n + 1) ↔
      isCancelled (fired check) col = false ∧ Unfired ctx fired (check + 1) col' fs n := by
  have hlater : ∀ k, reading ctx fired check col (f :: fs) (k + 1) =
      reading ctx fired (check + 1) col' fs k := by
    intro k
    rw [reading, reading, List.take_succ_cons, processAll_cons_of_ok hprocess, Nat.add_assoc,
      Nat.add_comm 1]
  constructor
  · intro h
    exact ⟨h 0 (Nat.succ_pos n), fun k hk ↦ hlater k ▸ h (k + 1) (Nat.succ_lt_succ hk)⟩
  · rintro ⟨hfirst, hrest⟩ k hk
    cases k with
    | zero => exact hfirst
    | succ k => exact (hlater k).trans (hrest k (Nat.lt_of_succ_lt_succ hk))

theorem Unfired.mono {n' : Nat} (h : Unfired ctx fired check col fs n) (hn : n' ≤ n) :
    Unfired ctx fired check col fs n' :=
  fun k hk ↦ h k (Nat.lt_of_lt_of_le hk hn)

/-- The checks made so far do not depend on the findings that are still to come. -/
theorem Unfired.take (h : Unfired ctx fired check col fs n) :
    Unfired ctx fired check col (fs.take n) n := by
  intro k hk
  rw [reading, List.take_take, Nat.min_eq_left (Nat.le_of_lt hk)]
  exact h k hk

/-- **Draining is processing** as long as findings come, nothing fails and nothing fires. -/
theorem value_drain_append (hok : col.processAll ctx fs = (col', .ok ()))
    (hunfired : Unfired ctx fired check col fs fs.length) (rest : List Message) :
    (col.drain ctx fired check (fs.map .found ++ rest)).value =
      (col'.drain ctx fired (check + fs.length) rest).value := by
  induction fs generalizing col check with
  | nil =>
    obtain rfl := (Prod.mk.inj hok).1
    rfl
  | cons f fs ih =>
    obtain ⟨col₁, hprocess, -⟩ := processAll_cons_cases (congrArg Prod.snd hok)
    obtain ⟨hfirst, hrest⟩ := (unfired_cons_succ hprocess).1 hunfired
    rw [processAll_cons_of_ok hprocess] at hok
    rw [List.map_cons, List.cons_append, value_drain_found hfirst hprocess, ih hok hrest,
      List.length_cons, Nat.add_assoc, Nat.add_comm 1]

/-- A run that ends well has been told so, has taken the findings before that and has ended the
report, and the token has not fired. -/
theorem drain_ok_cases (h : (col.drain ctx fired check messages).value = (col', .ok s)) :
    .done ∈ messages ∧ col.collect ctx (leading messages) = (col', .ok s) ∧
      Unfired ctx fired check col (leading messages) ((leading messages).length + 2) := by
  induction messages generalizing col check with
  | nil =>
    rw [drain] at h
    split at h <;> cases (Prod.mk.inj h).2
  | cons message messages ih =>
    cases hfired : isCancelled (fired check) col with
    | true =>
      rw [value_drain_of_fired hfired] at h
      cases (Prod.mk.inj h).2
    | false =>
      cases message with
      | done =>
        rw [value_drain_done hfired] at h
        split at h
        · cases (Prod.mk.inj h).2
        next hlast =>
          refine ⟨List.mem_cons_self, h, fun k hk ↦ ?_⟩
          rw [leading, List.length_nil] at hk
          rw [leading, reading, List.take_nil]
          -- the check before the announcement and the one behind it
          obtain rfl | rfl : k = 0 ∨ k = 1 := by omega
          · exact hfired
          · exact Bool.eq_false_iff.2 hlast
      | found f =>
        rcases hprocess : (col.process ctx f).value with ⟨col₁, e | ⟨⟩⟩
        · rw [drain, if_neg (by simp [hfired]), Logged.value_bind, hprocess] at h
          cases (Prod.mk.inj h).2
        · rw [value_drain_found hfired hprocess] at h
          obtain ⟨hdone, hcollect, hunfired⟩ := ih h
          refine ⟨List.mem_cons_of_mem _ hdone, ?_, ?_⟩
          · rw [leading, collect, processAll_cons_of_ok hprocess]
            exact hcollect
          · exact (unfired_cons_succ hprocess).2 ⟨hfired, hunfired⟩

/-- What comes behind the announcement of the end is not looked at. -/
theorem drain_append_of_done (h : .done ∈ messages) (later : List Message) :
    col.drain ctx fired check (messages ++ later) = col.drain ctx fired check messages := by
  induction messages generalizing col check with
  | nil => cases h
  | cons message messages ih =>
    cases message with
    | done => rw [List.cons_append, drain, drain]
    | found f =>
      have hdone : .done ∈ messages := by simpa using h
      have hrest : ∀ (col : Collector σ) (check : Nat),
          col.drain ctx fired check (messages ++ later) = col.drain ctx fired check messages :=
        fun _ _ ↦ ih hdone
      simp only [List.cons_append, drain, hrest]

/-- A run that is told of the end ends the report. -/
theorem value_drain_of_done (hdone : .done ∈ messages)
    (hok : col.processAll ctx (leading messages) = (col', .ok ()))
    (hunfired : Unfired ctx fired check col (leading messages) ((leading messages).length + 2)) :
    (col.drain ctx fired check messages).value = (col'.finish ctx).value := by
  obtain ⟨hnone, -⟩ | ⟨-, later, hlater⟩ := leading_cases messages
  · exact absurd hdone hnone
  · have hfirst := hunfired _ (Nat.lt_add_of_pos_right Nat.two_pos)
    have hlast := hunfired _ (Nat.lt_succ_self _)
    rw [reading, List.take_length, hok] at hfirst
    rw [reading, List.take_of_length_le (Nat.le_succ _), hok] at hlast
    nth_rewrite 1 [hlater]
    rw [value_drain_append hok (hunfired.mono (Nat.le_add_right _ 2)), value_drain_done hfirst]
    exact if_neg (Bool.eq_false_iff.1 hlast)

/-- A run whose channel closes does not end the report. -/
theorem value_drain_of_closed (hnone : .done ∉ messages)
    (hok : col.processAll ctx (leading messages) = (col', .ok ()))
    (hunfired : Unfired ctx fired check col (leading messages) ((leading messages).length + 1)) :
    (col.drain ctx fired check messages).value =
      (col', .error (.internal "result channel closed before completion")) := by
  obtain ⟨-, hfound⟩ | ⟨hdone, -⟩ := leading_cases messages
  · have hlast := hunfired _ (Nat.lt_succ_self _)
    rw [reading, List.take_length, hok] at hlast
    nth_rewrite 1 [hfound]
    rw [← List.append_nil ((leading messages).map _),
      value_drain_append hok (hunfired.mono (Nat.le_succ _)), value_drain_closed hlast]
  · exact absurd hdone hnone

/-- The first check that reads fired ends the run, if all findings before it could be taken. A check
is made before each message, one at the end of a channel that closes, and two when the end is
announced. -/
theorem value_drain_of_reading
    (hk : k ≤ (leading messages).length ∨ k = (leading messages).length + 1 ∧ .done ∈ messages)
    (hok : (col.processAll ctx ((leading messages).take k)).2 = .ok ())
    (hunfired : Unfired ctx fired check col (leading messages) k)
    (hfired : reading ctx fired check col (leading messages) k = true) :
    (col.drain ctx fired check messages).value =
      ((col.processAll ctx ((leading messages).take k)).1, .error .cancelled) := by
  have htaken : col.processAll ctx ((leading messages).take k) =
      ((col.processAll ctx ((leading messages).take k)).1, .ok ()) := Prod.ext rfl hok
  rcases hk with hk | ⟨rfl, hdone⟩
  · obtain ⟨tail, htail⟩ : ∃ tail, messages = (leading messages).map .found ++ tail := by
      obtain ⟨-, hfound⟩ | ⟨-, later, hlater⟩ := leading_cases messages
      · exact ⟨[], by rwa [List.append_nil]⟩
      · exact ⟨_, hlater⟩
    have hlength : ((leading messages).take k).length = k := List.length_take_of_le hk
    have hsplit : messages = ((leading messages).take k).map .found ++
        (((leading messages).drop k).map .found ++ tail) := by
      rw [← List.append_assoc, ← List.map_append, List.take_append_drop]
      exact htail
    have hquiet : Unfired ctx fired check col ((leading messages).take k)
        ((leading messages).take k).length := by
      rw [hlength]
      exact hunfired.take
    nth_rewrite 1 [hsplit]
    rw [value_drain_append htaken hquiet, hlength]
    exact value_drain_of_fired hfired _
  · -- the check behind the announcement
    obtain ⟨hnone, -⟩ | ⟨-, later, hlater⟩ := leading_cases messages
    · exact absurd hdone hnone
    · have hlast := hunfired _ (Nat.lt_succ_self _)
      rw [reading, List.take_length] at hlast
      rw [List.take_of_length_le (Nat.le_succ _)] at htaken ⊢
      rw [reading, List.take_of_length_le (Nat.le_succ _)] at hfired
      nth_rewrite 1 [hlater]
      rw [value_drain_append htaken (hunfired.mono (Nat.le_succ _)), value_drain_done hlast]
      exact if_pos hfired

/-! ### What is handed over before the end -/

/-- Nothing but chains has been handed over since, and with grouping nothing at all. -/
def OnlyChains (ctx : Context) (col col' : Collector (Watched σ)) : Prop :=
  ∃ l : List Chain, col'.receiver.handed = col.receiver.handed ++ l.map .chain ∧
    (ctx.grouping.isGrouped = true → l = [])

namespace OnlyChains

variable {col col' col'' : Collector (Watched σ)}

omit [Receiver σ] in
theorem of_receiver_eq (h : col'.receiver = col.receiver) : OnlyChains ctx col col' := by
  refine ⟨[], ?_, fun _ ↦ rfl⟩
  rw [h, List.map_nil, List.append_nil]

omit [Receiver σ] in
theorem trans (h : OnlyChains ctx col col') (h' : OnlyChains ctx col' col'') :
    OnlyChains ctx col col'' := by
  obtain ⟨l, hl, hnone⟩ := h
  obtain ⟨l', hl', hnone'⟩ := h'
  refine ⟨l ++ l', ?_, fun hgrouped ↦ ?_⟩
  · rw [hl', hl, List.map_append, List.append_assoc]
  · rw [hnone hgrouped, hnone' hgrouped, List.append_nil]

/-- The step of one chain: it is handed over at once or, with grouping, not at all. -/
theorem take (ctx : Context) (col : Collector (Watched σ)) (c : Chain) :
    OnlyChains ctx col (col.take ctx c).1 := by
  rw [Collector.take]
  split
  · exact of_receiver_eq rfl
  · dsimp only
    split
    · exact of_receiver_eq rfl
    next hgrouped => exact ⟨[c], rfl, fun h ↦ absurd h hgrouped⟩

theorem observe (ctx : Context) (source : Nat) (col : Collector (Watched σ)) (o : Observation) :
    OnlyChains ctx col (col.observe ctx source o).1 := by
  cases o with
  | exposed => exact of_receiver_eq rfl
  | suppressed => exact of_receiver_eq rfl
  | chain nodes note => exact take ctx col (ctx.chain nodes note)

/-- The step of one observation, repeated. A failure ends it and hands over nothing else. -/
theorem observeAll (ctx : Context) (source : Nat) (col : Collector (Watched σ))
    (os : List Observation) : OnlyChains ctx col (col.observeAll ctx source os).1 := by
  induction os generalizing col with
  | nil => exact of_receiver_eq rfl
  | cons o os ih =>
    have hfirst := observe ctx source col o
    rw [Collector.observeAll]
    split
    next col' hcol' =>
      rw [hcol'] at hfirst
      exact hfirst.trans (ih col')
    next col' e hcol' =>
      rw [hcol'] at hfirst
      exact hfirst

theorem process (ctx : Context) (col : Collector (Watched σ)) (f : Finding) :
    OnlyChains ctx col (col.process ctx f).value.1 := by
  have hcount : OnlyChains ctx col { col with findings := col.findings + 1 } := of_receiver_eq rfl
  rw [Collector.process]
  split
  · exact hcount
  next a _ => exact hcount.trans (observeAll ctx f.source _ (observations a f))

/-- **Before the report is ended, nothing but chains is handed over**, whether or not it comes to a
failure. -/
theorem processAll (ctx : Context) (col : Collector (Watched σ)) (fs : List Finding) :
    OnlyChains ctx col (col.processAll ctx fs).1 := by
  induction fs generalizing col with
  | nil => exact of_receiver_eq rfl
  | cons f fs ih =>
    have hfirst := process ctx col f
    rw [Collector.processAll]
    split
    next col' hcol' =>
      rw [hcol'] at hfirst
      exact hfirst.trans (ih col')
    next col' e hcol' =>
      rw [hcol'] at hfirst
      exact hfirst

end OnlyChains

/-! ### Outcomes -/

/-- A check that reads fired ends the run at the first such check, and nothing but chains has been
handed over. -/
theorem drain_of_fired_reading {col : Collector (Watched σ)}
    (hk : k ≤ (leading messages).length ∨ k = (leading messages).length + 1 ∧ .done ∈ messages)
    (hok : (col.processAll ctx ((leading messages).take k)).2 = .ok ())
    (hfired : reading ctx fired check col (leading messages) k = true) :
    (col.drain ctx fired check messages).value.2 = .error .cancelled ∧
      OnlyChains ctx col (col.drain ctx fired check messages).value.1 := by
  induction k using Nat.strong_induction_on with
  | _ k ih =>
    by_cases hunfired : Unfired ctx fired check col (leading messages) k
    · rw [value_drain_of_reading hk hok hunfired hfired]
      exact ⟨rfl, OnlyChains.processAll ctx col _⟩
    · -- an earlier check reads fired, and no finding before it failed either
      obtain ⟨j, hj⟩ := not_forall.1 hunfired
      obtain ⟨hlt, hreading⟩ := Classical.not_imp.1 hj
      have hok' := processAll_take hok j
      rw [List.take_take, Nat.min_eq_left (Nat.le_of_lt hlt)] at hok'
      exact ih j hlt (.inl (by omega)) hok' (Bool.not_eq_false _ ▸ hreading)

/-- **How draining ends.** Let `fs` be the findings that arrive before the end is first announced. A
run succeeds if and only if the end is announced, the findings can be taken and the report be ended,
and the token reads unfired at every check up to the one that follows the announcement. It has then
taken exactly these findings, in order, and ended the report. What comes behind the announcement has
no effect on any run.

If no finding that is taken fails, a run on a channel that closes without announcement, while the
token reads unfired, ends with an internal error, and a run in which a check reads fired is
cancelled. In both cases nothing but chains has been handed over, so the report is not finished;
with grouping nothing has been handed over at all. -/
theorem drain_outcome (ctx : Context) (fired : Nat → Bool) (check : Nat)
    (col : Collector (Watched σ)) (messages : List Message) :
    let fs := leading messages
    let run := (col.drain ctx fired check messages).value
    ((∃ s, run.2 = .ok s) ↔ .done ∈ messages ∧ (∃ s, (col.collect ctx fs).2 = .ok s) ∧
      ∀ k ≤ fs.length + 1, reading ctx fired check col fs k = false) ∧
    (∀ s, run.2 = .ok s → run = col.collect ctx fs) ∧
    (.done ∈ messages → ∀ later,
      col.drain ctx fired check (messages ++ later) = col.drain ctx fired check messages) ∧
    ((col.processAll ctx fs).2 = .ok () → .done ∉ messages →
      (∀ k ≤ fs.length, reading ctx fired check col fs k = false) →
        run.2 = .error (.internal "result channel closed before completion") ∧
          OnlyChains ctx col run.1) ∧
    (∀ k, k ≤ fs.length ∨ k = fs.length + 1 ∧ .done ∈ messages →
      (col.processAll ctx (fs.take k)).2 = .ok () →
      reading ctx fired check col fs k = true →
        run.2 = .error .cancelled ∧ OnlyChains ctx col run.1) := by
  intro fs run
  refine ⟨⟨?_, ?_⟩, ?_, fun hdone later ↦ drain_append_of_done hdone later, ?_, fun k ↦
    drain_of_fired_reading⟩
  · rintro ⟨s, hs⟩
    obtain ⟨hdone, hcollect, hunfired⟩ := drain_ok_cases (Prod.ext rfl hs)
    exact ⟨hdone, ⟨s, congrArg Prod.snd hcollect⟩, fun k hk ↦ hunfired k (Nat.lt_succ_of_le hk)⟩
  · rintro ⟨hdone, ⟨s, hs⟩, hunfired⟩
    rw [collect] at hs
    split at hs
    next col' hok =>
      have hrun := value_drain_of_done hdone hok fun k hk ↦ hunfired k (Nat.le_of_lt_succ hk)
      exact ⟨s, (congrArg Prod.snd hrun).trans hs⟩
    · cases hs
  · intro s hs
    obtain ⟨-, hcollect, -⟩ := drain_ok_cases (Prod.ext rfl hs)
    rw [hcollect]
    exact Prod.ext rfl hs
  · intro hok hnone hunfired
    have hrun := value_drain_of_closed hnone (Prod.ext rfl hok) fun k hk ↦
      hunfired k (Nat.le_of_lt_succ hk)
    refine ⟨congrArg Prod.snd hrun, ?_⟩
    show OnlyChains ctx col (col.drain ctx fired check messages).value.1
    rw [hrun]
    exact OnlyChains.processAll ctx col _

/-- A method with a warning, reported by callee. -/
def warnedCallee : Context where
  numbering := .empty
  marking := ⟨#[{ note := some (.warn ⟨"Trim", "risky", .memberTrimming⟩) }]⟩
  grouping := .callee

/-- A finding, the end, and a finding that comes too late. A token that fires when the end is
announced cancels the run with nothing handed over; otherwise the late finding is not looked at.
Without the end the run fails. -/
theorem drain_outcome_lateFinding :
    let start : Collector (Watched Transcript) := { receiver := { receiver := {} } }
    let messages : List Message := [.found ⟨0, [[0, 1]]⟩, .done, .found ⟨0, [[0, 2]]⟩]
    (∃ s, (start.drain warnedCallee (fun _ ↦ false) 0 messages).value.2 = .ok s) ∧
    (start.drain warnedCallee (fun _ ↦ false) 0 messages).value =
      start.collect warnedCallee [⟨0, [[0, 1]]⟩] ∧
    (start.drain warnedCallee (fun k ↦ k == 2) 0 messages).value.2 = .error .cancelled ∧
    (start.drain warnedCallee (fun k ↦ k == 2) 0 messages).value.1.receiver.handed = [] ∧
    (start.drain warnedCallee (fun _ ↦ false) 0 [.found ⟨0, [[0, 1]]⟩]).value.2 =
      .error (.internal "result channel closed before completion") := by
  intro start messages
  have hgrouped : warnedCallee.grouping.isGrouped = true := rfl
  have htakes : ∀ fs, (start.processAll warnedCallee fs).2 = .ok () := by
    intro fs
    obtain ⟨col, hcol⟩ := exists_processAll (takesChains_of_isGrouped hgrouped) start fs
    rw [hcol]
  obtain ⟨hiff, hcollects, -⟩ := drain_outcome warnedCallee (fun _ ↦ false) 0 start messages
  obtain ⟨-, -, -, -, hcancelled⟩ := drain_outcome warnedCallee (fun k ↦ k == 2) 0 start messages
  obtain ⟨-, -, -, hclosed, -⟩ :=
    drain_outcome warnedCallee (fun _ ↦ false) 0 start [.found ⟨0, [[0, 1]]⟩]
  obtain ⟨col, s, hcollect⟩ := exists_collect_of_neverFails
    (Watched.neverFails fun _ _ ↦ rfl) warnedCallee start [⟨0, [[0, 1]]⟩]
  obtain ⟨s, hs⟩ := hiff.2 ⟨by simp [messages], ⟨s, congrArg Prod.snd hcollect⟩, fun _ _ ↦ rfl⟩
  obtain ⟨hstopped, l, hhanded, hnone⟩ :=
    hcancelled 2 (.inr ⟨rfl, by simp [messages]⟩) (htakes _) rfl
  refine ⟨⟨s, hs⟩, hcollects s hs, hstopped, ?_,
    (hclosed (htakes _) (by simp) fun _ _ ↦ rfl).1⟩
  rw [hhanded, hnone hgrouped]
  rfl

end Collector

end HazardTrace
