import HazardTrace.Proofs.Collector.Handed
import HazardTrace.Report.Delivery

/-!
# Grouping is presentation

Grouping decides when chains are handed over and between which groups, and nothing else.

* What a collector holds does not depend on it, since neither the observations of a finding nor the
  keys of chains do (`Context.recordsOf_regrouped`). So two collectors that have seen the same say
  the same at the end, but for the groups of the summary (`Holds.summary_eq_of_regrouped`).
* A report hands over each chain that is held once, whatever labels the groups have
  (`Context.chains_deliveries`). So the same chains are handed over, in an order that is each
  grouping's own.

`collect_regrouped` puts both together: two reports on the same findings have the same chains up to
order, and the same summary but for its groups. The receivers may be of different types and states;
they have to take what they are handed, because a receiver that fails stops its report at a point
that does depend on the grouping.

There is no hypothesis on the two groupings. One of them may be none at all, in which case the
chains come one by one while the findings are taken, and the other hands them over at the end.
-/

namespace HazardTrace

namespace Collector

/-- The same program and marking, reported in another grouping. -/
def Context.regrouped (ctx : Context) (grouping : Grouping) : Context :=
  { ctx with grouping }

variable {ctx : Context} {g g' : Grouping} {n : Nat} {l : List (Nat × Observation)}

/-- The grouping is not asked when a finding is observed. -/
theorem Context.recordsOf_regrouped (ctx : Context) (g : Grouping)
    (l : List (Nat × Observation)) : (ctx.regrouped g).recordsOf l = ctx.recordsOf l := by
  have hrecord : (ctx.regrouped g).record? = ctx.record? := by
    funext o
    cases o <;> rfl
  rw [recordsOf, recordsOf, hrecord]

theorem Context.chainsOf_regrouped (ctx : Context) (g : Grouping) (fs : List Finding) :
    (ctx.regrouped g).chainsOf fs = ctx.chainsOf fs := by
  rw [chainsOf, chainsOf, recordsOf_regrouped]
  rfl

section Summary

variable {σ τ : Type} [Receiver σ] [Receiver τ] {receiver : σ} {receiver' : τ}
  {col : Collector σ} {col' : Collector τ}

/-- Collectors that have seen the same have the same to say, but for the groups. -/
theorem Holds.summary_eq_of_regrouped (h : Holds (ctx.regrouped g) receiver n l col)
    (h' : Holds (ctx.regrouped g') receiver' n l col') :
    col'.summary (ctx.regrouped g') =
      { col.summary (ctx.regrouped g) with groups := outermost (ctx.regrouped g') col'.chains } := by
  obtain ⟨hchains, hduplicates, hsuppressed, hfindings, hexposed⟩ :=
    h.agrees h' (by rw [Context.recordsOf_regrouped, Context.recordsOf_regrouped])
  rw [summary, summary, hchains, hduplicates, hsuppressed, hfindings, hexposed]
  rfl

end Summary

/-- **Grouping changes only the presentation.** Reports on the same findings in two groupings, to
receivers that never fail, hand over the same chains up to their order, and their summaries differ
in the groups alone. -/
theorem collect_regrouped {σ τ : Type} [Receiver σ] [Receiver τ] (hσ : Receiver.NeverFails σ)
    (hτ : Receiver.NeverFails τ) (ctx : Context) (g g' : Grouping) (receiver : σ) (receiver' : τ)
    (fs : List Finding) :
    ∃ (col : Collector (Watched σ)) (col' : Collector (Watched τ)) (s s' : Summary),
      collect (ctx.regrouped g) { receiver := { receiver } } fs = (col, .ok s) ∧
      collect (ctx.regrouped g') { receiver := { receiver := receiver' } } fs = (col', .ok s') ∧
      col.receiver.chains.Perm col'.receiver.chains ∧
      s' = { s with groups := s'.groups } := by
  obtain ⟨held, col, hheld, hcollect, hhanded⟩ :=
    exists_collect_watched hσ (ctx.regrouped g) receiver fs
  obtain ⟨held', col', hheld', hcollect', hhanded'⟩ :=
    exists_collect_watched hτ (ctx.regrouped g') receiver' fs
  refine ⟨col, col', _, _, hcollect, hcollect', ?_, hheld.summary_eq_of_regrouped hheld'⟩
  have hperm : col.receiver.chains.Perm (ctx.chainsOf fs) := by
    rw [Watched.chains, hhanded, ← ctx.chainsOf_regrouped g]
    exact (ctx.regrouped g).chains_deliveries fs
  have hperm' : col'.receiver.chains.Perm (ctx.chainsOf fs) := by
    rw [Watched.chains, hhanded', ← ctx.chainsOf_regrouped g']
    exact (ctx.regrouped g').chains_deliveries fs
  exact hperm.trans hperm'.symm

/-- Two methods with a warning. -/
def twoWarnings : Context where
  numbering := .empty
  marking := ⟨#[{ note := some (.warn ⟨"Trim", "first", .memberTrimming⟩) },
    { note := some (.warn ⟨"Trim", "second", .memberTrimming⟩) }, {}]⟩
  grouping := .none

/-- One entry leads to both methods. By callers they are one group, and it holds the chains that
come one by one without grouping. -/
theorem collect_regrouped_twoWarnings :
    ∃ (col col' : Collector (Watched Transcript)) (s s' : Summary),
      collect (twoWarnings.regrouped .none) { receiver := { receiver := {} } }
        [⟨1, [[1, 2]]⟩, ⟨0, [[0, 2]]⟩] = (col, .ok s) ∧
      collect (twoWarnings.regrouped .caller) { receiver := { receiver := {} } }
        [⟨1, [[1, 2]]⟩, ⟨0, [[0, 2]]⟩] = (col', .ok s') ∧
      (col'.receiver.chains.map Chain.nodes).Perm [[1, 2], [0, 2]] ∧
      s' = { s with groups := s'.groups } := by
  obtain ⟨col, col', s, s', hcollect, hcollect', hperm, hsummary⟩ :=
    collect_regrouped (σ := Transcript) (τ := Transcript) (fun _ _ ↦ rfl) (fun _ _ ↦ rfl)
      twoWarnings .none .caller {} {} [⟨1, [[1, 2]]⟩, ⟨0, [[0, 2]]⟩]
  have hnodes : (collect (twoWarnings.regrouped .none)
      ({ receiver := { receiver := {} } } : Collector (Watched Transcript))
        [⟨1, [[1, 2]]⟩, ⟨0, [[0, 2]]⟩]).1.receiver.chains.map Chain.nodes = [[1, 2], [0, 2]] := by
    decide +kernel
  rw [hcollect] at hnodes
  refine ⟨col, col', s, s', hcollect, hcollect', ?_, hsummary⟩
  rw [← hnodes]
  exact hperm.symm.map Chain.nodes

end Collector

end HazardTrace
