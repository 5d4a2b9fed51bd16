import HazardTrace.Proofs.Collector.Records
import Mathlib.Data.List.Perm.Basic

/-!
# What a receiver is handed

A report hands over each of its chains once, arranged or not. That is `Context.chains_deliveries`,
and most statements about reports go through it: they speak of the chains that a receiver was
handed, and are proved of the chains that a collector holds.

* With an arrangement the deliveries are an outline, which is made level by level: each level splits
  the chains by label. Labels are listed once (`nodup_labels_groups`), so a level holds every chain
  once (`flatMap_groups_perm`), and by induction on the levels so does the outline
  (`chainsIn_outline`).
* Without one the chains are handed over as they are.

To speak of what has been handed over, whatever the receiver makes of it, `Watched` puts a list of
all deliveries beside a receiver. It answers and asks for cancellation as the receiver does, so
watching changes nothing (`Watched.receiveAll_eq`), and what has been delivered without failure is
what the list has gained (`Watched.handed_of_receiveAll`). A statement about a watched receiver is
therefore one about every receiver of the same kind.

`Collector.exists_collect_watched` is the form in which later modules use all this. A receiver that
never fails gets a finished report; its summary is that of a collector which holds what the findings
show, and it is handed the deliveries of the report.
-/

namespace HazardTrace

/-- The chain that is delivered, if any. -/
def Delivery.chain? : Delivery → Option Chain
  | .chain c => some c
  | .openGroup .. | .closeGroup | .finish => none

/-- The chains among some deliveries, in order. -/
def chainsIn (ds : List Delivery) : List Chain :=
  ds.filterMap Delivery.chain?

@[simp]
theorem chainsIn_append (ds ds' : List Delivery) :
    chainsIn (ds ++ ds') = chainsIn ds ++ chainsIn ds' :=
  List.filterMap_append

@[simp]
theorem chainsIn_map_chain (l : List Chain) : chainsIn (l.map .chain) = l := by
  rw [chainsIn, List.filterMap_map]
  exact List.filterMap_some

/-! ### Groups -/

/-- A list is made up of its parts by label, if every label is listed once. -/
theorem flatMap_filter_perm {α β : Type} [BEq β] [LawfulBEq β] (label : α → β) {labels : List β}
    (hlabels : labels.Nodup) {l : List α} (h : ∀ a ∈ l, label a ∈ labels) :
    (labels.flatMap fun b ↦ l.filter (label · == b)).Perm l := by
  induction labels generalizing l with
  | nil =>
    obtain rfl : l = [] := List.eq_nil_iff_forall_not_mem.2 fun a ha ↦ nomatch h a ha
    rfl
  | cons b labels ih =>
    rw [List.nodup_cons] at hlabels
    -- the parts with other labels are those of the members that are left
    have hrest : (labels.flatMap fun b' ↦ l.filter (label · == b')) =
        labels.flatMap fun b' ↦ (l.filter fun a ↦ !(label a == b)).filter (label · == b') := by
      refine List.flatMap_congr fun b' hb' ↦ ?_
      rw [List.filter_filter]
      refine List.filter_congr fun a _ ↦ ?_
      by_cases ha : label a = b'
      · have hne : label a ≠ b := fun hb ↦ hlabels.1 (hb ▸ ha ▸ hb')
        simp [ha, ha ▸ hne]
      · simp [ha]
    rw [List.flatMap_cons, hrest]
    refine ((ih hlabels.2 ?_).append_left _).trans (List.filter_append_perm (label · == b) l)
    intro a ha
    obtain ⟨ha, hne⟩ := List.mem_filter.1 ha
    exact (List.mem_cons.1 (h a ha)).resolve_left (by simpa using hne)

/-- A grouping that arranges chains has an outermost level. -/
theorem Grouping.exists_levels {g : Grouping} (h : g.isGrouped = true) (s : Numbering Method) :
    ∃ level levels, g.levels s = level :: levels := by
  cases g with
  | none => cases h
  | caller | immediateCaller | callee => exact ⟨_, _, rfl⟩

namespace Grouping.Level

variable (level : Grouping.Level) (chains : List Chain)

/-- The labels of a level's groups are those of the chains. -/
theorem labels_groups_perm :
    ((level.groups chains).map Prod.fst).Perm (ascending (chains.map level.label)) := by
  refine ((List.mergeSort_perm _ _).map _).trans ?_
  rw [tally, List.map_map]
  simp [Function.comp_def]

theorem nodup_labels_groups : ((level.groups chains).map Prod.fst).Nodup :=
  (labels_groups_perm level chains).nodup_iff.2 (nodup_ascending _)

/-- The groups of a level hold every chain once. -/
theorem flatMap_groups_perm :
    ((level.groups chains).flatMap fun g ↦ chains.filter (level.label · == g.1)).Perm chains := by
  rw [← List.flatMap_map Prod.fst fun label ↦ chains.filter (level.label · == label)]
  refine flatMap_filter_perm level.label (nodup_labels_groups level chains) fun c hc ↦ ?_
  rw [(labels_groups_perm level chains).mem_iff, mem_ascending]
  exact List.mem_map_of_mem hc

/-- A group is listed with the number of its chains. -/
theorem count_of_mem_groups {g : String × Nat} (h : g ∈ level.groups chains) :
    g.2 = (chains.filter (level.label · == g.1)).length := by
  have hg : g ∈ tally (chains.map level.label) := (List.mergeSort_perm _ _).mem_iff.1 h
  obtain ⟨label, -, rfl⟩ := List.mem_map.1 hg
  rw [List.count, List.countP_map, List.countP_eq_length_filter]
  rfl

end Grouping.Level

/-- An outline holds every chain once. -/
theorem chainsIn_outline (levels : List Grouping.Level) (l : List Chain) :
    (chainsIn (outline levels l)).Perm l := by
  induction levels generalizing l with
  | nil =>
    rw [outline, chainsIn_map_chain]
    exact List.mergeSort_perm l _
  | cons level levels ih =>
    rw [outline, chainsIn, List.filterMap_flatMap]
    refine (List.Perm.flatMap_left _ fun g _ ↦ ?_).trans (level.flatMap_groups_perm l)
    change (chainsIn (outline levels (l.filter (level.label · == g.1)) ++ [.closeGroup])).Perm _
    have hclose : chainsIn [.closeGroup] = [] := rfl
    rw [chainsIn_append, hclose, List.append_nil]
    exact ih _

/-- **A report hands over each of its chains once.** -/
theorem Collector.Context.chains_deliveries (ctx : Context) (fs : List Finding) :
    (chainsIn (ctx.deliveries fs)).Perm (ctx.chainsOf fs) := by
  have hfinish : chainsIn [.finish] = [] := rfl
  rw [deliveries, delivered, chainsIn_append, chainsIn_append, hfinish, List.append_nil]
  by_cases hgrouped : ctx.grouping.isGrouped = true
  · rw [if_pos hgrouped, if_pos hgrouped]
    exact chainsIn_outline _ _
  · rw [if_neg hgrouped, if_neg hgrouped, chainsIn_map_chain]
    exact (List.append_nil _ ▸ List.reverse_perm _)

/-! ### Watched receivers -/

/-- A receiver beside the list of what it has been handed, in order. -/
structure Watched (σ : Type) where
  receiver : σ
  handed : List Delivery := []

namespace Watched

variable {σ : Type} [Receiver σ]

/-- Lists a delivery and passes it on. -/
def take (w : Watched σ) (d : Delivery) : Watched σ × Except Error Unit :=
  ({ receiver := (Receiver.receive w.receiver d).1, handed := w.handed ++ [d] },
    (Receiver.receive w.receiver d).2)

instance : Receiver (Watched σ) where
  receive := take
  cancels w := Receiver.cancels w.receiver

/-- A receiver that never fails does not do so when it is watched. -/
theorem neverFails (h : Receiver.NeverFails σ) : Receiver.NeverFails (Watched σ) :=
  fun w d ↦ h w.receiver d

theorem reliable (h : Receiver.Reliable σ) : Receiver.Reliable (Watched σ) :=
  ⟨fun w d ↦ h.receive_ok w.receiver d, fun w ↦ h.not_cancels w.receiver⟩

/-- The chains that the receiver has been handed. -/
def chains (w : Watched σ) : List Chain :=
  chainsIn w.handed

/-- What is delivered without failure is what the list has gained. -/
theorem handed_of_receiveAll {w w' : Watched σ} {ds : List Delivery}
    (h : Receiver.receiveAll w ds = (w', .ok ())) : w'.handed = w.handed ++ ds := by
  induction ds generalizing w with
  | nil =>
    obtain rfl := (Prod.mk.inj h).1
    exact (List.append_nil _).symm
  | cons d ds ih =>
    rw [Receiver.receiveAll] at h
    split at h
    next w₁ hw₁ =>
      obtain rfl := (Prod.mk.inj hw₁).1
      rw [ih h, List.append_assoc]
      rfl
    · cases (Prod.mk.inj h).2

/-- The receiver fares as if it were not watched. -/
theorem receiveAll_eq (w : Watched σ) (ds : List Delivery) :
    Receiver.receiveAll w.receiver ds =
      ((Receiver.receiveAll w ds).1.receiver, (Receiver.receiveAll w ds).2) := by
  induction ds generalizing w with
  | nil => rfl
  | cons d ds ih =>
    have hreceive : Receiver.receive w d =
        (⟨(Receiver.receive w.receiver d).1, w.handed ++ [d]⟩, (Receiver.receive w.receiver d).2) :=
      rfl
    rw [Receiver.receiveAll, Receiver.receiveAll, hreceive]
    rcases Receiver.receive w.receiver d with ⟨receiver, e | ⟨⟩⟩
    · rfl
    · exact ih ⟨receiver, w.handed ++ [d]⟩

end Watched

/-- A receiver that never fails is handed all deliveries of a report on what the findings show. -/
theorem Collector.exists_collect_watched {σ : Type} [Receiver σ] (hσ : Receiver.NeverFails σ)
    (ctx : Context) (receiver : σ) (fs : List Finding) :
    ∃ col col' : Collector (Watched σ),
      Holds ctx ({ receiver } : Watched σ) fs.length (fs.flatMap ctx.sightings).reverse col ∧
      collect ctx { receiver := { receiver } } fs = (col', .ok (col.summary ctx)) ∧
      col'.receiver.handed = ctx.deliveries fs := by
  obtain ⟨col', s, hcollect⟩ :=
    exists_collect_of_neverFails (Watched.neverFails hσ) ctx { receiver := { receiver } } fs
  obtain ⟨col, hholds, rfl, hreceive⟩ := collect_cases hcollect
  exact ⟨col, col', hholds, hcollect, Watched.handed_of_receiveAll hreceive⟩

end HazardTrace
