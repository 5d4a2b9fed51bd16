import HazardTrace.Proofs.Report.Document

/-!
# Finished documents

A JSON report may be used in any way: groups may be left open, chains and groups may be mixed, and
deliveries may go on after a failure or after the end. `Receiver.deliverEach` makes all of some
deliveries, and lists their results. As long as the writer has not failed, each delivery that was
taken stands in the draft of the report, and the first finish that is taken closes the document for
good (`Shows.deliverEach`).

That lemma is by induction on the deliveries, and one delivery is `Shows.outcome`: it is taken, it
ends the document, it is refused, or the writer fails, which is excluded. The draft is compared with
the deliveries that were taken by writing it out again (`Draft.deliveries`,
`Draft.deliveries_take`). From the end on a report only keeps what it has (`Ended.receive`).

* `finished_document`: what has been taken by the first finish is complete. Two ways are left to
  lose a chain: in a group that holds groups as well, and in a group that is opened after the end.
  No chain is lost if and only if neither was the case (`perm_chainObjects_iff`).
* `finished_document_lateGroup`: the second way is real, and all of its deliveries succeed.
* `not_forall_finished_document`: after a failure of the writer a finish says nothing. A report is
  marked as finished before its end is written, so that a second finish succeeds whatever became of
  the first.
-/

namespace HazardTrace

namespace Receiver

variable {σ : Type} [Receiver σ]

/-- Makes all deliveries, whatever becomes of them, and lists them with their results. -/
def deliverEach (s : σ) : List Delivery → σ × List (Delivery × Except Error Unit)
  | [] => (s, [])
  | d :: ds =>
    let rest := deliverEach (receive s d).1 ds
    (rest.1, (d, (receive s d).2) :: rest.2)

/-- The deliveries that were taken. -/
def taken (log : List (Delivery × Except Error Unit)) : List Delivery :=
  (log.filter (·.2.isOk)).map Prod.fst

theorem taken_cons_ok (d : Delivery) (log : List (Delivery × Except Error Unit)) :
    taken ((d, .ok ()) :: log) = d :: taken log := rfl

theorem taken_cons_error (d : Delivery) (e : Error) (log : List (Delivery × Except Error Unit)) :
    taken ((d, .error e) :: log) = taken log := rfl

/-- A delivery that succeeded was taken. -/
theorem mem_taken {d : Delivery} {log : List (Delivery × Except Error Unit)}
    (h : (d, .ok ()) ∈ log) : d ∈ taken log :=
  List.mem_map_of_mem (f := Prod.fst) (List.mem_filter.2 ⟨h, rfl⟩)

end Receiver

open Receiver (deliverEach taken)

/-- A section does not end the report. -/
theorem Section.finish_notMem_deliveries (s : Section) : .finish ∉ s.deliveries := by
  induction s using Section.induction with
  | chain c => simp [deliveries]
  | group kind label count parts ih =>
    simpa [deliveries_group] using ih

/-! ### What a draft is made of -/

namespace Draft

variable {b b' : Draft} {d : Delivery}

/-- The deliveries that have led to the draft. -/
def deliveries (b : Draft) : List Delivery :=
  b.closed.flatMap Section.deliveries ++ b.opened.reverse.flatMap OpenGroup.deliveries

/-- A section that is added stands behind all that was delivered before. -/
theorem deliveries_add (b : Draft) (s : Section) :
    (b.add s).deliveries = b.deliveries ++ s.deliveries := by
  rw [add]
  split
  next hopened => simp [deliveries, hopened]
  next g outer hopened => simp [deliveries, hopened, OpenGroup.deliveries]

/-- A draft is written out as the deliveries that were taken. -/
theorem deliveries_take (h : b.take d = some b') : b'.deliveries = b.deliveries ++ [d] := by
  match d with
  | .openGroup kind label count =>
    obtain rfl := Option.some.inj h
    simp [deliveries, OpenGroup.deliveries]
  | .chain c =>
    obtain rfl := Option.some.inj h
    exact b.deliveries_add (.chain c)
  | .closeGroup =>
    rw [take] at h
    split at h
    · cases h
    next g outer hopened =>
      obtain rfl := Option.some.inj h
      rw [deliveries_add, OpenGroup.close, Section.deliveries_group]
      simp [deliveries, hopened, OpenGroup.deliveries]
  | .finish => cases h

theorem finish_notMem_deliveries (b : Draft) : .finish ∉ b.deliveries := by
  simp [deliveries, OpenGroup.deliveries, Section.finish_notMem_deliveries]

end Draft

namespace JsonReport

variable {ω : Type} [Writer ω] {start : ByteArray} {text : String} {b : Draft}
  {r r' : JsonReport ω} {ds : List Delivery} {log : List (Delivery × Except Error Unit)}

/-! ### After the end -/

/-- Nothing is written after the end. -/
theorem Ended.receive (h : Ended start text r) (d : Delivery) :
    Ended start text (Receiver.receive r d).1 := by
  have hwriteItem : ∀ (pending : List PendingGroup) (item : Json),
      Ended start text ({ r with pending }.writeItem item).1 := by
    intro pending item
    rw [writeItem, if_pos h.finished]
    exact ⟨h.accepted, h.finished⟩
  show Ended start text (JsonReport.receive r d).1
  cases d with
  | openGroup kind label count => exact ⟨h.accepted, h.finished⟩
  | chain c =>
    rw [JsonReport.receive]
    split
    · exact hwriteItem r.pending c.toJson
    · exact ⟨h.accepted, h.finished⟩
  | closeGroup =>
    rw [JsonReport.receive]
    split
    · exact h
    next g _ => exact hwriteItem [] g.toJson
    · exact ⟨h.accepted, h.finished⟩
  | finish =>
    rw [JsonReport.receive]
    split
    · rw [close, if_pos h.finished]
      exact h
    · exact h

theorem Ended.deliverEach (h : Ended start text r) (ds : List Delivery) :
    Ended start text (deliverEach r ds).1 := by
  induction ds generalizing r with
  | nil => exact h
  | cons d ds ih => exact ih (h.receive d)

/-! ### Up to the end -/

/-- **While its writer does not fail, a report holds all that was taken**, be it in a draft or in a
document that the first finish has closed. -/
theorem Shows.deliverEach (h : Shows start b r) (hrun : deliverEach r ds = (r', log))
    (hwritten : ∀ d fault, (d, .error (.output fault)) ∉ log) :
    (∃ b', Shows start b' r' ∧ b.deliveries ++ taken log = b'.deliveries) ∨
      ∃ (items : List Section) (later : List Delivery),
        Ended start (documentText (items.map Section.toJson)) r' ∧
        b.deliveries ++ taken log = items.flatMap Section.deliveries ++ .finish :: later := by
  -- the induction is on the deliveries, with the draft that they are made to left open
  induction ds generalizing b r log with
  | nil =>
    obtain ⟨rfl, rfl⟩ := Prod.mk.inj hrun
    exact .inl ⟨b, h, List.append_nil _⟩
  | cons d ds ih =>
    have houtcome := h.outcome d
    rw [Receiver.deliverEach] at hrun
    rcases hr : Receiver.receive r d with ⟨r₁, result⟩
    rw [hr] at hrun houtcome
    obtain ⟨rfl, rfl⟩ := Prod.mk.inj hrun
    have hrest : ∀ d fault, (d, .error (.output fault)) ∉ (Receiver.deliverEach r₁ ds).2 :=
      fun d fault hmem ↦ hwritten d fault (List.mem_cons_of_mem _ hmem)
    cases houtcome with
    | taken htake hshows =>
      have hstep := ih hshows rfl hrest
      rwa [Draft.deliveries_take htake, List.append_assoc] at hstep
    | ended hd hopened hended =>
      -- the first finish: nothing that is delivered later has a part in the document
      subst hd
      refine .inr ⟨b.closed, taken (Receiver.deliverEach r₁ ds).2, hended.deliverEach ds, ?_⟩
      rw [Receiver.taken_cons_ok, Draft.deliveries, hopened]
      simp
    | refused message _ hshows =>
      rw [Receiver.taken_cons_error]
      exact ih hshows rfl hrest
    | failed _ fault => exact absurd List.mem_cons_self (hwritten d fault)

/-- Which chains a document shows. -/
theorem perm_chainObjects_iff (items : List Section) (l : List Chain) :
    (Json.arr (items.map Section.toJson)).chainObjects.Perm
        ((items.flatMap Section.chains ++ l).map Chain.toJson) ↔
      (∀ item ∈ items, item.Unmixed) ∧ l = [] := by
  have hshown := Section.flatMap_shown_sublist items
  rw [Section.chainObjects_arr_map_toJson, ← Section.length_flatMap_shown_eq_iff]
  constructor
  · intro hperm
    have hlength := hperm.length_eq
    have hle := hshown.length_le
    rw [List.length_map, List.length_map, List.length_append] at hlength
    exact ⟨by omega, List.length_eq_zero_iff.1 (by omega)⟩
  · rintro ⟨hlength, rfl⟩
    rw [hshown.eq_of_length hlength, List.append_nil]

/-- **A finish that succeeds leaves a complete document**, if the writer has not failed before.
Behind what the writer held at first, the document is the array of the sections that were taken up
to the first such finish, and later deliveries do not change it. Each chain that was taken stands in
it once, if and only if no group held both chains and groups and no chain was taken after the
end. -/
theorem finished_document (w : ω) (hrun : deliverEach { out := w } ds = (r, log))
    (hwritten : ∀ d fault, (d, .error (.output fault)) ∉ log) (hfinish : (.finish, .ok ()) ∈ log) :
    ∃ (text : String) (items : List Section) (later : List Delivery),
      Writer.accepted r.out = Writer.accepted w ++ text.toUTF8 ∧
      Json.parse? text = some (.arr (items.map Section.toJson)) ∧
      taken log = items.flatMap Section.deliveries ++ .finish :: later ∧
      ((Json.arr (items.map Section.toJson)).chainObjects.Perm
          ((chainsIn (taken log)).map Chain.toJson) ↔
        (∀ item ∈ items, item.Unmixed) ∧ chainsIn later = []) := by
  rcases (Shows.nil w).deliverEach hrun hwritten with ⟨b, -, hb⟩ | ⟨items, later, hended, htaken⟩
  · exact absurd (hb ▸ Receiver.mem_taken hfinish) b.finish_notMem_deliveries
  · change taken log = _ at htaken
    refine ⟨_, items, later, hended.accepted, parse?_documentText items, htaken, ?_⟩
    have hchains : chainsIn (taken log) = items.flatMap Section.chains ++ chainsIn later := by
      rw [htaken, chainsIn_append, Section.chainsIn_flatMap_deliveries]
      rfl
    rw [hchains]
    exact perm_chainObjects_iff items (chainsIn later)

/-- A chain of one method. -/
def lateChain : Chain where
  nodes := [0]
  frames := ["Runtime::Invoke()"]
  category := "Runtime"
  note := .warn ⟨"Trim", "risky", .memberTrimming⟩

/-- A group that is opened after the end, with a chain. -/
def lateGroup : List Delivery :=
  [.finish, .openGroup .method "Late" 1, .chain lateChain]

/-- A group can be opened after the end, and takes chains. The document does not show them. -/
theorem finished_document_lateGroup :
    ∃ (r : JsonReport Storage) (text : String) (items : List Section),
      deliverEach { out := {} } lateGroup = (r, lateGroup.map (·, .ok ())) ∧
      r.out.bytes = text.toUTF8 ∧
      Json.parse? text = some (.arr (items.map Section.toJson)) ∧
      ¬(Json.arr (items.map Section.toJson)).chainObjects.Perm [lateChain.toJson] := by
  have hrun : deliverEach ({ out := {} } : JsonReport Storage) lateGroup =
      ((deliverEach { out := {} } lateGroup).1, lateGroup.map (·, .ok ())) := rfl
  obtain ⟨text, items, later, hbytes, hparse, htaken, hiff⟩ :=
    finished_document ({} : Storage) hrun (by simp) List.mem_cons_self
  refine ⟨_, text, items, hrun, hbytes.trans ByteArray.empty_append, hparse, fun hperm ↦ ?_⟩
  have hlater : chainsIn later = [] := (hiff.1 hperm).2
  -- the first delivery is the finish, so the others come behind it
  rcases List.append_eq_cons_iff.1 htaken.symm with ⟨-, hcons⟩ | ⟨rest, hitems, -⟩
  · have hgroup : later = [.openGroup .method "Late" 1, .chain lateChain] := (List.cons.inj hcons).2
    rw [hgroup] at hlater
    cases hlater
  · have hfinish : .finish ∈ items.flatMap Section.deliveries := hitems ▸ List.mem_cons_self
    obtain ⟨item, -, hitem⟩ := List.mem_flatMap.1 hfinish
    exact item.finish_notMem_deliveries hitem

/-- After a failure of the writer a finish that succeeds tells nothing. Here all that has been
written is the first byte of the document. -/
theorem not_forall_finished_document :
    ¬∀ (w : Storage) (ds : List Delivery) (r : JsonReport Storage)
        (log : List (Delivery × Except Error Unit)),
      deliverEach { out := w } ds = (r, log) → log.getLast? = some (.finish, .ok ()) →
        ∃ (text : String) (items : List Json), r.out.bytes = w.bytes ++ text.toUTF8 ∧
          Json.parse? text = some (.arr items) ∧
          (Json.arr items).chainObjects.Perm ((chainsIn (taken log)).map Chain.toJson) := by
  intro h
  obtain ⟨text, items, hbytes, hparse, -⟩ :=
    h { capacity := some 1 } [.finish, .finish] _ _ Prod.mk.eta.symm rfl
  have hwritten : (deliverEach ({ out := { capacity := some 1 } } : JsonReport Storage)
      [.finish, .finish]).1.out.bytes = "[".toUTF8 := by
    decide +kernel
  have htext : text.toUTF8 = "[".toUTF8 :=
    ByteArray.empty_append.symm.trans (hbytes.symm.trans hwritten)
  have hnone : Json.parse? "[" = none := by
    rfl
  rw [String.toByteArray_inj.1 htext, hnone] at hparse
  cases hparse

end JsonReport

end HazardTrace
