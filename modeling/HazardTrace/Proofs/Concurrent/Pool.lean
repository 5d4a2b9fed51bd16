import HazardTrace.Proofs.Concurrent.Completeness
import HazardTrace.Proofs.Search.Interior

/-!
# Searches in parallel

`searchAll` searches from one hazard after the other. Here any number of workers share the hazards,
each hands its results over as soon as it has them, and the token may fire between any two steps
(`Pool`). The workers are those of a whole run of the analysis (`Worker.Step`); what becomes of the
results is left open.

A whole run loses its report when the token fires, so nothing is said there about single searches.
Here something is. Only a worker that reads a fired token drops its search, and it hands nothing
over (`Worker.Step.quiet_or_drop`). So at any time there is a list of hazards that have not been
dropped, and

* these are shared out as before (`Shares`, with `Shares.drop` for the step that drops one);
* they are among the hazards, none of them more often than there, and they are all of the hazards
  while the token has not fired;
* whatever has been handed over is the result of an uninterrupted search.

This is `Pool.Kept`. One step preserves it, with a list that may have become shorter
(`Pool.Kept.step`), and so does every run (`Pool.Kept.reaches`). In the end it says what was handed
over: no hazard twice (`starts_subperm`), each result counted (`completed_eq`), and all of them if
the token has not fired (`handed_perm`), which is what `searchAll` lists, in some order.

Runs of the searches end, by the ranks of the workers (`Pool.wellFounded_moves`), and are not stuck
before they are over (`Pool.exists_step`).

The main result, `CallGraph.cancellation_never_truncates`, puts this next to what holds of a single
search under any token: it has no result or its whole result, and it has none if and only if one of
its readings finds the token fired.
-/

namespace HazardTrace

namespace Analysis

namespace Concurrent

open Search (Options Result)

/-! ### Dropped searches -/

namespace Worker

/-- A worker goes on as it would without a token, or it drops its search. -/
theorem Step.quiet_or_drop {g : CallGraph} {o : Options} {fired : Bool} {w w' : Worker}
    (h : Worker.Step g o fired w w') :
    Worker.Step g o false w w' ∨
      fired = true ∧ (∃ s, w.source? = some s) ∧ w.isCounting = false ∧ w' = .idle := by
  cases h with
  | skip hfired => exact .inr ⟨hfired, ⟨_, rfl⟩, rfl, rfl⟩
  | giveUp hfired => exact .inr ⟨hfired, ⟨_, rfl⟩, rfl, rfl⟩
  | settle _ hsettled => exact .inl (.settle rfl hsettled)
  | start _ hsettled => exact .inl (.start rfl hsettled)
  | exhaust hpop => exact .inl (.exhaust hpop)
  | expand _ hpop hnext hfull => exact .inl (.expand rfl hpop hnext hfull)
  | fill _ hpop hnext hfull => exact .inl (.fill rfl hpop hnext hfull)

end Worker

/-- A worker drops its search: the hazard is no longer among those that are shared out. -/
theorem Shares.drop {g : CallGraph} {o : Options} {jobs sent pending : List Nat} {w : Worker}
    {ws₁ ws₂ : List Worker} {completed s : Nat}
    (h : Shares g o jobs sent pending (ws₁ ++ w :: ws₂) completed) (hw : w.source? = some s)
    (hcounting : w.isCounting = false) :
    Shares g o (jobs.erase s) sent pending (ws₁ ++ .idle :: ws₂) completed where
  perm := by
    -- the start is taken out of the middle, and it stood there once more than it does now
    refine (List.cons_perm_iff_perm_erase.1 (List.Perm.trans ?_ h.perm)).2
    refine List.perm_iff_count.2 fun a ↦ ?_
    have hidle : Worker.source? .idle = none := rfl
    simp only [List.filterMap_append, List.filterMap_cons, hw, hidle, List.count_append,
      List.count_cons]
    omega
  counted := by
    have hidle : Worker.isCounting .idle = false := rfl
    simpa [List.countP_cons, hcounting, hidle] using h.counted
  valid := h.valid_replace trivial

/-! ### Pools -/

/-- Searches from all hazards in progress. -/
structure Pool where
  fired : Bool
  /-- The hazards that no worker has taken yet. -/
  pending : List Nat
  workers : List Worker
  /-- The results that have been handed over, in order. -/
  handed : List Result := []
  /-- The number of searches that ran to completion. -/
  completed : Nat := 0

namespace Pool

/-- Where the searches start, with `n` workers. The token may have fired before. -/
def initial (g : CallGraph) (n : Nat) (fired : Bool) : Pool where
  fired
  pending := g.hazards
  workers := List.replicate n .idle

/-- Has every search come to its end? -/
def IsOver (p : Pool) : Prop :=
  p.pending = [] ∧ ∀ w ∈ p.workers, w = .idle

/-- One step of one worker. -/
inductive Step (g : CallGraph) (o : Options) : Pool → Pool → Prop where
  /-- A worker takes a hazard. -/
  | take {p : Pool} {l₁ l₂ : List Nat} {s : Nat} {ws₁ ws₂ : List Worker}
      (hpending : p.pending = l₁ ++ s :: l₂) (hworkers : p.workers = ws₁ ++ .idle :: ws₂) :
      Step g o p { p with pending := l₁ ++ l₂, workers := ws₁ ++ .taken s :: ws₂ }
  /-- A worker searches. -/
  | work {p : Pool} {w w' : Worker} {ws₁ ws₂ : List Worker}
      (hworkers : p.workers = ws₁ ++ w :: ws₂) (hstep : Worker.Step g o p.fired w w') :
      Step g o p { p with workers := ws₁ ++ w' :: ws₂ }
  /-- A worker hands its result over. -/
  | hand {p : Pool} {r : Result} {ws₁ ws₂ : List Worker}
      (hworkers : p.workers = ws₁ ++ .reporting r :: ws₂) :
      Step g o p { p with workers := ws₁ ++ .counting :: ws₂, handed := p.handed ++ [r] }
  /-- A worker counts its search. -/
  | count {p : Pool} {ws₁ ws₂ : List Worker} (hworkers : p.workers = ws₁ ++ .counting :: ws₂) :
      Step g o p { p with workers := ws₁ ++ .idle :: ws₂, completed := p.completed + 1 }

/-- A step, or the token fires. -/
inductive Moves (g : CallGraph) (o : Options) : Pool → Pool → Prop where
  | step {p p' : Pool} (h : Step g o p p') : Moves g o p p'
  | fire {p : Pool} (h : p.fired = false) : Moves g o p { p with fired := true }

/-- The searches get from one state to another. -/
def Reaches (g : CallGraph) (o : Options) : Pool → Pool → Prop :=
  Relation.ReflTransGen (Moves g o)

variable {g : CallGraph} {o : Options} {p p' : Pool} {n : Nat}

/-! ### What is handed over -/

/-- What holds of the searches at any time: some hazards may have been dropped, but none while the
token has not fired, and all others are shared out. -/
structure Kept (g : CallGraph) (o : Options) (jobs : List Nat) (p : Pool) : Prop where
  shares : Shares g o jobs (p.handed.map Result.start) p.pending p.workers p.completed
  jobs_subperm : jobs.Subperm g.hazards
  jobs_eq : p.fired = false → jobs = g.hazards
  handed : ∀ r ∈ p.handed, r = g.search o r.start

namespace Kept

variable {jobs : List Nat}

/-- At first nothing has been dropped. -/
theorem initial (g : CallGraph) (o : Options) (n : Nat) (fired : Bool) :
    Kept g o g.hazards (.initial g n fired) where
  shares := Shares.initial g o g.hazards n
  jobs_subperm := List.Subperm.refl _
  jobs_eq _ := rfl
  handed r hr := by cases hr

/-- The step of the invariant. Only a worker that drops its search changes the list of hazards, and
then the token has fired. -/
theorem step (h : Kept g o jobs p) (hstep : Step g o p p') : ∃ jobs', Kept g o jobs' p' := by
  have hshares := h.shares
  cases hstep with
  | take hpending hworkers =>
    rw [hpending, hworkers] at hshares
    exact ⟨jobs, hshares.take, h.jobs_subperm, h.jobs_eq, h.handed⟩
  | work hworkers hstep =>
    rw [hworkers] at hshares
    obtain hquiet | ⟨hfired, ⟨s, hs⟩, hcounting, rfl⟩ := hstep.quiet_or_drop
    · exact ⟨jobs, hshares.work hquiet, h.jobs_subperm, h.jobs_eq, h.handed⟩
    · refine ⟨jobs.erase s, hshares.drop hs hcounting,
        (List.erase_subperm s jobs).trans h.jobs_subperm, fun hrests ↦ ?_, h.handed⟩
      dsimp only at hrests
      rw [hfired] at hrests
      cases hrests
  | @hand r ws₁ ws₂ hworkers =>
    have hvalid : r = g.search o r.start := hshares.valid (.reporting r) (by simp [hworkers])
    rw [hworkers] at hshares
    refine ⟨jobs, ?_, h.jobs_subperm, h.jobs_eq, fun r' hr' ↦ ?_⟩
    · dsimp only
      rw [List.map_append]
      exact hshares.report
    · rcases List.mem_append.1 hr' with hr' | hr'
      · exact h.handed r' hr'
      · rwa [List.mem_singleton.1 hr']
  | count hworkers =>
    rw [hworkers] at hshares
    exact ⟨jobs, hshares.count, h.jobs_subperm, h.jobs_eq, h.handed⟩

/-- So it holds of every state that the searches reach. -/
theorem reaches (h : Kept g o jobs p) (hreach : Reaches g o p p') : ∃ jobs', Kept g o jobs' p' := by
  induction hreach with
  | refl => exact ⟨jobs, h⟩
  | tail _ hmove ih =>
    obtain ⟨jobs', h'⟩ := ih
    cases hmove with
    | step hstep => exact h'.step hstep
    | fire => exact ⟨jobs', h'.shares, h'.jobs_subperm, nofun, h'.handed⟩

/-- No hazard is handed over twice. -/
theorem starts_subperm (h : Kept g o jobs p) :
    (p.handed.map Result.start).Subperm g.hazards := by
  have hsent : (p.handed.map Result.start).Sublist
      (p.pending ++ p.workers.filterMap Worker.source? ++ p.handed.map Result.start) :=
    List.sublist_append_right _ _
  exact (hsent.subperm.trans h.shares.perm.subperm).trans h.jobs_subperm

/-- When the searches are over, each result that was handed over has been counted. -/
theorem completed_eq (h : Kept g o jobs p) (hover : p.IsOver) : p.completed = p.handed.length := by
  have hshares := h.shares
  rw [hover.1] at hshares
  obtain ⟨hperm, hcompleted⟩ := hshares.of_idle hover.2
  rw [hcompleted, ← hperm.length_eq, List.length_map]

/-- A pool whose token has not fired hands over the results from all hazards. -/
theorem handed_perm (h : Kept g o jobs p) (hover : p.IsOver) (hfired : p.fired = false) :
    p.handed.Perm (g.hazards.map (g.search o)) := by
  have hshares := h.shares
  rw [hover.1, h.jobs_eq hfired] at hshares
  -- results are determined by their starts
  have hresults : p.handed = (p.handed.map Result.start).map (g.search o) := by
    rw [List.map_map]
    exact (List.map_id _).symm.trans (List.map_congr_left h.handed)
  rw [hresults]
  exact (hshares.of_idle hover.2).1.map _

end Kept

/-! ### Every search comes to its end -/

/-- Bounds the number of moves that are left. -/
def rank (g : CallGraph) (p : Pool) : Nat :=
  p.pending.length * (g.size + 9) + (p.workers.map (Worker.rank g)).sum +
    (if p.fired then 0 else 1)

/-- Each step of a worker, and the firing of the token, leaves fewer moves. -/
theorem Moves.rank_lt (h : Moves g o p p') : p'.rank g < p.rank g := by
  cases h with
  | fire hfired => simp [rank, hfired]
  | step hstep =>
    cases hstep with
    | take hpending hworkers =>
      -- a hazard that waits counts for one move more than one that has been taken
      simp only [rank, hpending, hworkers, List.length_append, List.length_cons, List.map_append,
        List.map_cons, List.sum_append, List.sum_cons, Worker.rank, Nat.add_mul]
      omega
    | work hworkers hstep =>
      have hrank := hstep.rank_lt
      simp only [rank, hworkers, List.map_append, List.map_cons, List.sum_append, List.sum_cons]
      omega
    | hand hworkers | count hworkers =>
      simp only [rank, hworkers, List.map_append, List.map_cons, List.sum_append, List.sum_cons,
        Worker.rank]
      omega

/-- **Every run of the searches ends.** -/
theorem wellFounded_moves (g : CallGraph) (o : Options) :
    WellFounded fun p' p ↦ Moves g o p p' :=
  Subrelation.wf Moves.rank_lt (measure (rank g)).wf

/-- No worker is lost. -/
theorem length_workers_of_reaches (h : Reaches g o p p') :
    p'.workers.length = p.workers.length := by
  induction h with
  | refl => rfl
  | tail _ hmove ih =>
    rw [← ih]
    cases hmove with
    | fire => rfl
    | step hstep =>
      cases hstep with
      | take _ hworkers | work hworkers | hand hworkers | count hworkers => simp [hworkers]

/-- **Searches that are not over can go on**, if there is any worker. -/
theorem exists_step (g : CallGraph) (o : Options) (hworkers : 0 < p.workers.length)
    (hover : ¬ p.IsOver) : ∃ p', Step g o p p' := by
  obtain hidle | ⟨ws₁, w, ws₂, hws, ⟨r, rfl⟩ | rfl | ⟨w', hstep⟩⟩ :=
    Worker.all_idle_or_exists_step g o p.fired p.workers
  · have hpending : p.pending ≠ [] := fun hnil ↦ hover ⟨hnil, hidle⟩
    obtain ⟨s, l, hs⟩ := List.exists_cons_of_ne_nil hpending
    obtain ⟨w, ws, hws⟩ := List.exists_cons_of_length_pos hworkers
    obtain rfl := hidle w (hws ▸ List.mem_cons_self)
    exact ⟨_, .take (hs.trans (List.nil_append _).symm) (hws.trans (List.nil_append _).symm)⟩
  · exact ⟨_, .hand hws⟩
  · exact ⟨_, .count hws⟩
  · exact ⟨_, .work hws hstep⟩

end Pool

end Concurrent

end Analysis

namespace CallGraph

open Search Analysis.Concurrent

/-- **A search that is cancelled has no result rather than a part of one.** Whatever the token
answers at each reading, a search has no result or that of the search without a token. It has none
if and only if one of its readings finds the token fired; so it has its result if every reading
finds the token at rest, and always from a start outside the graph and from an entry. Under a token
at rest, `searchAll` lists exactly one result for each hazard, that of its search.

Searches in parallel, by any number of workers and with a token that may fire at any time, come to
an end. No hazard is handed over twice, and each result that is handed over is that of its search.
In the end they have all been counted, and if the token has not fired they are those that
`searchAll` lists, in some order. -/
theorem cancellation_never_truncates (g : CallGraph) (o : Options) :
    (∀ (fired : Nat → Bool) (s : Nat),
      (g.searchUnder o fired s = none ∨ g.searchUnder o fired s = some (g.search o s)) ∧
      (g.searchUnder o fired s = none ↔ ∃ k, g.Checks o fired s k ∧ fired k = true) ∧
      ((∀ k, g.Checks o fired s k → fired k = false) →
        g.searchUnder o fired s = some (g.search o s)) ∧
      (g.size ≤ s ∨ g.isEntry s = true → g.searchUnder o fired s = some (g.search o s))) ∧
    (g.searchAll o false).value = g.hazards.map (g.search o) ∧
    (g.searchAll o false).value.length = g.hazards.length ∧
    g.hazards.Nodup ∧ (∀ u, u ∈ g.hazards ↔ g.isHazard u = true) ∧
    ∀ (n : Nat) (fired : Bool) (p : Pool), Pool.Reaches g o (.initial g n fired) p →
      (∀ r ∈ p.handed, r = g.search o r.start) ∧
      (p.handed.map Result.start).Subperm g.hazards ∧
      (p.IsOver → p.completed = p.handed.length) ∧
      (p.IsOver → p.fired = false → p.handed.Perm (g.searchAll o false).value) ∧
      (0 < n → ¬ p.IsOver → ∃ p', Pool.Step g o p p') ∧
      Acc (fun p' p ↦ Pool.Moves g o p p') p := by
  have hall := g.value_searchAll_quiet o
  refine ⟨fun fired s ↦ ⟨g.searchUnder_eq_none_or o fired s, g.searchUnder_eq_none_iff o fired s,
    g.searchUnder_eq_search o fired s, fun hstart ↦ ?_⟩, hall, by rw [hall, List.length_map],
    g.nodup_hazards, fun u ↦ mem_hazards_iff, fun n fired p hreach ↦ ?_⟩
  · refine searchUnder_of_settled (fun hnone ↦ ?_) o fired
    obtain ⟨hs, hentry⟩ := settled?_eq_none_iff.1 hnone
    rcases hstart with hout | hout
    · exact Nat.not_lt.2 hout hs
    · rw [hentry] at hout
      cases hout
  · obtain ⟨jobs, hkept⟩ := (Pool.Kept.initial g o n fired).reaches hreach
    have hworkers : p.workers.length = n :=
      (Pool.length_workers_of_reaches hreach).trans List.length_replicate
    exact ⟨hkept.handed, hkept.starts_subperm, hkept.completed_eq,
      fun hover hfired ↦ hall.symm ▸ hkept.handed_perm hover hfired,
      fun hn ↦ Pool.exists_step g o (hworkers ▸ hn), (Pool.wellFounded_moves g o).apply p⟩

/-- The search reads the token twice. Fired at the second reading it has no result, and fired later
it has the whole one. -/
theorem cancellation_never_truncates_detour :
    detour.searchUnder {} (fun k ↦ decide (1 ≤ k)) 0 = none ∧
      detour.searchUnder {} (fun k ↦ decide (2 ≤ k)) 0 = some (detour.search {} 0) ∧
      (detour.search {} 0).destinations = [1] := by
  obtain ⟨hunder, -⟩ := cancellation_never_truncates detour {}
  have hlate := (hunder (fun k ↦ decide (2 ≤ k)) 0).1
  exact ⟨by decide +kernel, hlate.resolve_left (by decide +kernel), by decide +kernel⟩

end CallGraph

end HazardTrace
