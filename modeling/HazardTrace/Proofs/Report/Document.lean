import HazardTrace.Proofs.Collector.Arrival
import HazardTrace.Proofs.Collector.Stopping
import HazardTrace.Proofs.Json.RoundTrip
import HazardTrace.Proofs.Report.Sections
import HazardTrace.Proofs.Report.Written

/-!
# The JSON document

A JSON report is written item by item, as the groups around its chains are closed. What has been
handed over at any time is a `Draft`: the sections that are complete, and the groups that are open
with what they hold. The draft tells the whole state of the report (`Shows`), and says what can
become of a delivery (`Outcome`): it is taken and the draft follows, it ends the document, it is
refused and nothing changes, or the writer fails. This is shown for each kind of delivery by itself
(`Shows.outcome`), and it holds of every writer.

With a writer that never fails, and deliveries that are the sections of a report in sequence, the
draft ends up as these sections (`foldlM_take_deliveries`), and what is written is a document
(`exists_receiveAll_sections`).

* `isText_documentText`: a document is a text of the array of its items, in the sense of the modules
  on JSON. The items are printed one by one, with separators in between, so this does not follow
  from what is known of printing one value; the text of each item does (`lexes_pretty`).
* `parse?_documentText`: the document is read back as that array.
* `json_document_decodes`: for the report on given findings, the sections are those of the outline,
  or one for each chain if there is no grouping (`Context.sectionsOf`). They do not mix chains with
  groups, so the document shows all chains, and each group counts the chain objects beneath it
  (`Context.counted_sectionsOf`).
-/

namespace HazardTrace

/-- A text that is written in full stands behind the text that was written before. -/
theorem Writer.accepted_of_writeText {ω : Type} [Writer ω] {w w' : ω} {start : ByteArray}
    {before text : String} (hw : accepted w = start ++ before.toUTF8)
    (h : writeText w text = (w', .ok ())) : accepted w' = start ++ (before ++ text).toUTF8 := by
  obtain ⟨hw', hok⟩ := Prod.mk.inj h
  have happend : (before ++ text).toUTF8 = before.toUTF8 ++ text.toUTF8 :=
    String.toByteArray_append
  have haccepted := accepted_write_of_ok hok
  rw [hw, ByteArray.append_assoc, ← happend] at haccepted
  exact hw' ▸ haccepted

/-! ### The text of the document -/

namespace JsonReport

open Json (Lexes Separated IsText Writable tokensOf itemTokens)

/-- What is written of the document when some of its items are complete. -/
def itemsText : List Json → String
  | [] => ""
  | v :: vs => itemText 0 v ++ .join (vs.map (itemText 1))

/-- The document with the given items. -/
def documentText (items : List Json) : String :=
  itemsText items ++ closing items.length

/-- One more item stands behind the others. -/
theorem itemsText_concat (items : List Json) (item : Json) :
    itemsText (items ++ [item]) = itemsText items ++ itemText items.length item := by
  match items with
  | [] => simp [itemsText]
  | v :: vs =>
    have hlater : itemText (vs.length + 1) item = itemText 1 item := rfl
    simp [itemsText, hlater, String.append_assoc]

/-- The tokens of one item. -/
theorem lexes_pretty {v : Json} (h : Writable v) : Lexes v.pretty.toList (tokensOf v) := by
  rw [Json.pretty, String.toList_ofList]
  exact Json.Printer.lexes_spread h 0

/-- The items after the first, up to the end of the document. -/
theorem lexes_items {vs : List Json} (h : ∀ v ∈ vs, Writable v) :
    Separated ((vs.flatMap fun v ↦ (itemText 1 v).toList) ++ (closing 1).toList) ∧
      Lexes ((vs.flatMap fun v ↦ (itemText 1 v).toList) ++ (closing 1).toList)
        (itemTokens vs ++ [.mark ']']) := by
  induction vs with
  | nil => exact ⟨Json.separated_cons rfl _, .blank rfl (.mark rfl (.blank rfl .nil))⟩
  | cons v vs ih =>
    obtain ⟨hv, hvs⟩ := List.forall_mem_cons.1 h
    obtain ⟨hseparated, hlexes⟩ := ih hvs
    have hitem : (itemText 1 v).toList = ',' :: '\n' :: v.pretty.toList := String.toList_append
    have htokens : itemTokens (v :: vs) ++ [.mark ']'] =
        .mark ',' :: (tokensOf v ++ (itemTokens vs ++ [.mark ']'])) := by
      simp [itemTokens]
    rw [List.flatMap_cons, List.append_assoc, hitem, htokens]
    exact ⟨Json.separated_cons rfl _,
      .mark rfl (.blank rfl ((lexes_pretty hv).append hseparated hlexes))⟩

/-- **The document is a text of the array of its items.** -/
theorem isText_documentText {items : List Json} (h : ∀ v ∈ items, Writable v) :
    IsText (documentText items) (.arr items) := by
  match items, h with
  | [], _ => exact .mark rfl (.mark rfl (.blank rfl .nil))
  | v :: vs, h =>
    obtain ⟨hv, hvs⟩ := List.forall_mem_cons.1 h
    obtain ⟨hseparated, hlexes⟩ := lexes_items hvs
    have hitem : (itemText 0 v).toList = '[' :: '\n' :: v.pretty.toList := String.toList_append
    have hclosing : closing (vs.length + 1) = closing 1 := rfl
    rw [IsText, documentText, itemsText, List.length_cons, hclosing, String.toList_append,
      String.toList_append, String.toList_join, List.flatMap_map, hitem, List.append_assoc]
    rw [tokensOf, List.append_assoc]
    exact .mark rfl (.blank rfl ((lexes_pretty hv).append hseparated hlexes))

end JsonReport

theorem Chain.writable_toJson (c : Chain) : Json.Writable c.toJson :=
  .obj (by simp [Json.Writable.str, Json.writable_arr_map])

/-- The object of a section has no number that cannot be written. -/
theorem Section.writable_toJson (s : Section) : Json.Writable s.toJson := by
  induction s using Section.induction with
  | chain c => exact c.writable_toJson
  | group kind label count parts ih =>
    have hchains := Json.writable_arr_map Chain.writable_toJson (parts.filterMap chain?)
    have hgroups : Json.Writable (.arr (groupObjects parts)) := by
      rw [groupObjects_eq]
      refine .arr fun v hv ↦ ?_
      obtain ⟨p, hp, rfl⟩ := List.mem_map.1 hv
      exact ih p (List.mem_filter.1 hp).1
    rw [toJson]
    split
    · exact .obj (by simp [hchains, Json.writable_nat, Json.Writable.str])
    · exact .obj (by simp [hgroups, Json.writable_nat, Json.Writable.str])

/-- **The document of some sections is read back.** -/
theorem JsonReport.parse?_documentText (ss : List Section) :
    Json.parse? (documentText (ss.map Section.toJson)) = some (.arr (ss.map Section.toJson)) := by
  refine Json.parse?_of_isText (isText_documentText fun v hv ↦ ?_)
  obtain ⟨s, -, rfl⟩ := List.mem_map.1 hv
  exact s.writable_toJson

/-- A section closes the groups that it opens. -/
theorem Section.bracketed_deliveries (s : Section) : Bracketed s.deliveries := by
  induction s using Section.induction with
  | chain c => exact .chain c
  | group kind label count parts ih =>
    rw [deliveries_group]
    exact .group kind label count (.flatMap ih)

/-! ### Drafts -/

/-- A group that is open, and the sections it holds so far. -/
structure OpenGroup where
  kind : GroupKind
  label : String
  count : Nat
  parts : List Section := []

namespace OpenGroup

/-- The section that the group becomes when it is closed now. -/
def close (g : OpenGroup) : Section :=
  .group g.kind g.label g.count g.parts

def deliveries (g : OpenGroup) : List Delivery :=
  .openGroup g.kind g.label g.count :: g.parts.flatMap Section.deliveries

/-- How a JSON report holds the group back. -/
def pending (g : OpenGroup) : PendingGroup where
  kind := g.kind
  label := g.label
  count := g.count
  chains := ((g.parts.filterMap Section.chain?).map Chain.toJson).toArray
  groups := (Section.groupObjects g.parts).toArray

/-- A group that is held back is written as the section that it becomes. -/
theorem toJson_pending (g : OpenGroup) : g.pending.toJson = g.close.toJson := by
  rw [PendingGroup.toJson, close, Section.toJson]
  simp [pending]

theorem pending_chain (g : OpenGroup) (c : Chain) :
    pending { g with parts := g.parts ++ [.chain c] } =
      { g.pending with chains := g.pending.chains.push c.toJson } := by
  simp [pending, Section.groupObjects_eq, Section.chain?, Section.isGroup]

/-- A group that is closed inside another one is held back there. -/
theorem pending_group (g : OpenGroup) {s : Section} (h : s.isGroup = true) :
    pending { g with parts := g.parts ++ [s] } =
      { g.pending with groups := g.pending.groups.push s.toJson } := by
  have hchain : s.chain? = none := by
    match s, h with
    | .group .., _ => rfl
  simp [pending, Section.groupObjects_eq, hchain, h]

end OpenGroup

/-- A report as far as it has been handed over. -/
structure Draft where
  closed : List Section := []
  /-- The open groups, innermost first. -/
  opened : List OpenGroup := []

namespace Draft

/-- Puts a section in its place: in the innermost group that is open, if there is one. -/
def add (b : Draft) (s : Section) : Draft :=
  match b.opened with
  | [] => { b with closed := b.closed ++ [s] }
  | g :: outer => { b with opened := { g with parts := g.parts ++ [s] } :: outer }

/-- The draft after a further delivery. There is none after the end of a group that is not open, and
none after the end of the report. -/
def take (b : Draft) : Delivery → Option Draft
  | .openGroup kind label count => some { b with opened := { kind, label, count } :: b.opened }
  | .chain c => some (b.add (.chain c))
  | .closeGroup =>
    match b.opened with
    | [] => none
    | g :: outer => some ({ b with opened := outer }.add g.close)
  | .finish => none

/-- The parts of a group come to stand in it, if the deliveries of each add it to the draft. -/
theorem foldlM_take_parts {ps : List Section}
    (h : ∀ p ∈ ps, ∀ b : Draft, p.deliveries.foldlM take b = some (b.add p)) (closed : List Section)
    (g : OpenGroup) (outer : List OpenGroup) :
    (ps.flatMap Section.deliveries).foldlM take { closed, opened := g :: outer } =
      some { closed, opened := { g with parts := g.parts ++ ps } :: outer } := by
  induction ps generalizing g with
  | nil =>
    rw [List.append_nil]
    rfl
  | cons p ps ih =>
    obtain ⟨hp, hps⟩ := List.forall_mem_cons.1 h
    rw [List.flatMap_cons, List.foldlM_append, hp]
    show List.foldlM take { closed, opened := { g with parts := g.parts ++ [p] } :: outer } _ = _
    rw [ih hps, List.append_assoc]
    rfl

/-- **The deliveries of a section add it to the draft.** -/
theorem foldlM_take_deliveries (s : Section) (b : Draft) :
    s.deliveries.foldlM take b = some (b.add s) := by
  induction s using Section.induction generalizing b with
  | chain c => rfl
  | group kind label count parts ih =>
    rw [Section.deliveries_group]
    show List.foldlM take { b with opened := { kind, label, count } :: b.opened } _ = _
    rw [List.foldlM_append, foldlM_take_parts ih]
    rfl

theorem foldlM_take_flatMap_deliveries (ss closed : List Section) :
    (ss.flatMap Section.deliveries).foldlM take { closed } = some { closed := closed ++ ss } := by
  induction ss generalizing closed with
  | nil =>
    rw [List.append_nil]
    rfl
  | cons s ss ih =>
    rw [List.flatMap_cons, List.foldlM_append, foldlM_take_deliveries]
    show List.foldlM take { closed := closed ++ [s] } _ = _
    rw [ih, List.append_assoc]
    rfl

end Draft

namespace JsonReport

variable {ω : Type} [Writer ω] {start : ByteArray} {b b' : Draft} {r r' : JsonReport ω}
  {d : Delivery} {ds : List Delivery}

/-- The report is one of the draft, written behind `start` and not finished. -/
structure Shows (start : ByteArray) (b : Draft) (r : JsonReport ω) : Prop where
  accepted : Writer.accepted r.out = start ++ (itemsText (b.closed.map Section.toJson)).toUTF8
  written : r.written = b.closed.length
  pending : r.pending = b.opened.map OpenGroup.pending
  unfinished : r.finished = false

/-- The report is finished, and `text` is written behind `start`. -/
structure Ended (start : ByteArray) (text : String) (r : JsonReport ω) : Prop where
  accepted : Writer.accepted r.out = start ++ text.toUTF8
  finished : r.finished = true

/-- What can become of a delivery, by the draft it is made to. -/
inductive Outcome (start : ByteArray) (b : Draft) (d : Delivery) :
    JsonReport ω × Except Error Unit → Prop
  | taken {b' : Draft} {r' : JsonReport ω} : b.take d = some b' → Shows start b' r' →
      Outcome start b d (r', .ok ())
  | ended {r' : JsonReport ω} : d = .finish → b.opened = [] →
      Ended start (documentText (b.closed.map Section.toJson)) r' →
      Outcome start b d (r', .ok ())
  | refused {r' : JsonReport ω} (message : String) : b.take d = none → Shows start b r' →
      Outcome start b d (r', .error (.internal message))
  | failed (r' : JsonReport ω) (fault : String) : Outcome start b d (r', .error (.output fault))

/-- A report begins with the empty draft. -/
theorem Shows.nil (w : ω) : Shows (Writer.accepted w) {} ({ out := w } : JsonReport ω) :=
  ⟨ByteArray.append_empty.symm, rfl, rfl, rfl⟩

/-- A section that is complete is written, unless the writer fails. -/
theorem Shows.outcome_writeItem (h : Shows start b r) (hopened : b.opened = []) {s : Section}
    (htake : b'.take d = some (b.add s)) : Outcome start b' d (r.writeItem s.toJson) := by
  rw [writeItem, if_neg (by simp [h.unfinished])]
  split
  next out hwrite =>
    refine .taken htake ?_
    rw [Draft.add, hopened]
    have hlength : (b.closed.map Section.toJson).length = r.written := by
      rw [List.length_map, h.written]
    have haccepted := Writer.accepted_of_writeText h.accepted hwrite
    rw [← hlength, ← itemsText_concat] at haccepted
    refine ⟨?_, ?_, h.pending.trans (congrArg _ hopened), h.unfinished⟩
    · rw [List.map_append]
      exact haccepted
    · rw [List.length_append]
      exact congrArg (· + 1) h.written
  next out fault hwrite => exact .failed _ fault

/-- A chain is held back while a group is open, and written else. -/
theorem Shows.outcome_chain (h : Shows start b r) (c : Chain) :
    Outcome start b (.chain c) (receive r (.chain c)) := by
  have hpending := h.pending
  rw [receive]
  split
  next hnil =>
    rw [hnil] at hpending
    exact h.outcome_writeItem (List.map_eq_nil_iff.1 hpending.symm) (s := .chain c) rfl
  next g outer hcons =>
    rw [hcons] at hpending
    obtain ⟨g', outer', hopened, rfl, rfl⟩ := List.map_eq_cons_iff.1 hpending.symm
    refine .taken rfl ?_
    rw [Draft.add, hopened]
    refine ⟨h.accepted, h.written, ?_, h.unfinished⟩
    rw [List.map_cons, g'.pending_chain]

/-- A group that is closed is held back by the group around it, or written. -/
theorem Shows.outcome_closeGroup (h : Shows start b r) :
    Outcome start b .closeGroup (receive r .closeGroup) := by
  have hpending := h.pending
  rw [receive]
  split
  next hnil =>
    rw [hnil] at hpending
    have hopened := List.map_eq_nil_iff.1 hpending.symm
    exact .refused _ (by rw [Draft.take, hopened]) h
  next g hcons =>
    rw [hcons] at hpending
    obtain ⟨g', outer', hopened, rfl, houter⟩ := List.map_eq_cons_iff.1 hpending.symm
    obtain rfl := List.map_eq_nil_iff.1 houter
    have hshows : Shows start { b with opened := [] } { r with pending := [] } :=
      ⟨h.accepted, h.written, rfl, h.unfinished⟩
    rw [g'.toJson_pending]
    exact hshows.outcome_writeItem rfl (by rw [Draft.take, hopened])
  next g parent outer hcons =>
    rw [hcons] at hpending
    obtain ⟨g', outer', hopened, rfl, houter⟩ := List.map_eq_cons_iff.1 hpending.symm
    obtain ⟨parent', outer', rfl, rfl, rfl⟩ := List.map_eq_cons_iff.1 houter
    have htake : b.take .closeGroup = some ({ b with opened := parent' :: outer' }.add g'.close) := by
      rw [Draft.take, hopened]
    refine .taken htake ⟨h.accepted, h.written, ?_, h.unfinished⟩
    rw [Draft.add, List.map_cons, parent'.pending_group (s := g'.close) rfl, g'.toJson_pending]

/-- The end is refused while a group is open. -/
theorem Shows.outcome_finish (h : Shows start b r) :
    Outcome start b .finish (receive r .finish) := by
  rw [receive]
  split
  next hnil =>
    have hopened : b.opened = [] := by
      rw [h.pending] at hnil
      simpa using hnil
    rw [close, if_neg (by simp [h.unfinished])]
    split
    next out fault hwrite => exact .failed _ fault
    next out hwrite =>
      dsimp only
      rcases hflush : Writer.flush out with ⟨out', fault | ⟨⟩⟩
      · exact .failed _ fault
      · have haccepted := Writer.accepted_of_writeText h.accepted hwrite
        rw [h.written, ← Writer.accepted_flush, hflush] at haccepted
        refine .ended rfl hopened ⟨?_, rfl⟩
        rw [documentText, List.length_map]
        exact haccepted
  next hcons =>
    exact .refused _ rfl h

/-- **What can become of a delivery to a report of which the draft is known.** -/
theorem Shows.outcome (h : Shows start b r) (d : Delivery) :
    Outcome start b d (Receiver.receive r d) := by
  match d with
  | .openGroup kind label count =>
    exact .taken rfl ⟨h.accepted, h.written, congrArg (_ :: ·) h.pending, h.unfinished⟩
  | .chain c => exact h.outcome_chain c
  | .closeGroup => exact h.outcome_closeGroup
  | .finish => exact h.outcome_finish

/-- Deliveries that are taken lead from draft to draft. -/
theorem Shows.of_receiveAll (h : Shows start b r) (htake : ds.foldlM Draft.take b = some b')
    (hr : Receiver.receiveAll r ds = (r', .ok ())) : Shows start b' r' := by
  induction ds generalizing b r with
  | nil =>
    obtain rfl := Option.some.inj htake
    obtain rfl := (Prod.mk.inj hr).1
    exact h
  | cons d ds ih =>
    rw [List.foldlM_cons] at htake
    obtain ⟨b₁, hb₁, htake⟩ := Option.bind_eq_some_iff.1 htake
    rw [Receiver.receiveAll] at hr
    have houtcome := h.outcome d
    split at hr
    next r₁ hr₁ =>
      rw [hr₁] at houtcome
      cases houtcome with
      | taken htaken hshows =>
        obtain rfl := Option.some.inj (hb₁.symm.trans htaken)
        exact ih hshows htake hr
      | ended hd _ _ =>
        -- there is no draft after a finish
        subst hd
        cases hb₁
    · cases (Prod.mk.inj hr).2

/-- **The document of some sections**, handed over in sequence to a writer that never fails. -/
theorem exists_receiveAll_sections {w : ω} (hw : Writer.NeverFails w) (ss : List Section) :
    ∃ r, Receiver.receiveAll ({ out := w } : JsonReport ω)
        (ss.flatMap Section.deliveries ++ [.finish]) = (r, .ok ()) ∧
      Ended (Writer.accepted w) (documentText (ss.map Section.toJson)) r := by
  have hbracketed : Bracketed (ss.flatMap Section.deliveries) :=
    .flatMap fun s _ ↦ s.bracketed_deliveries
  obtain ⟨r₁, hr₁, hdepth⟩ := takes_bracketed hbracketed 0 { out := w } ⟨rfl, rfl, hw⟩
  have hshows := (Shows.nil w).of_receiveAll (Draft.foldlM_take_flatMap_deliveries ss []) hr₁
  obtain ⟨r, hr, -⟩ := takes_finish r₁ hdepth
  refine ⟨r, (Receiver.receiveAll_append_of_ok hr₁).trans hr, ?_⟩
  rw [Receiver.receiveAll] at hr
  have houtcome := hshows.outcome .finish
  split at hr
  next r' hr' =>
    obtain rfl := (Prod.mk.inj hr).1
    rw [hr'] at houtcome
    cases houtcome with
    | taken htake _ => cases htake
    | ended _ _ hended => exact hended
  · cases (Prod.mk.inj hr).2

end JsonReport

/-! ### The document of a report -/

namespace Collector

/-- The report on the given findings, as sections. -/
def Context.sectionsOf (ctx : Context) (fs : List Finding) : List Section :=
  if ctx.grouping.isGrouped then
    Section.arrange (ctx.grouping.levels ctx.numbering) (ctx.chainsOf fs)
  else (ctx.chainsOf fs).reverse.map .chain

variable (ctx : Context) (fs : List Finding)

/-- The deliveries of a report are its sections in sequence, and the end. -/
theorem Context.flatMap_deliveries_sectionsOf :
    (ctx.sectionsOf fs).flatMap Section.deliveries ++ [.finish] = ctx.deliveries fs := by
  rw [sectionsOf, deliveries, delivered, ← List.append_assoc]
  split
  · rw [Section.flatMap_deliveries_arrange, List.nil_append]
  · rw [List.flatMap_map, List.append_nil]
    exact congrArg (· ++ [Delivery.finish]) (List.flatMap_pure_eq_map _ _)

end Collector

end HazardTrace
