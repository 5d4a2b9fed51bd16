import HazardTrace.Proofs.Collector.Records
import HazardTrace.Report.Writer
import Mathlib.Data.List.Basic

/-!
# Written reports

A report in text or JSON is taken in full by a writer that never fails (`Writer.NeverFails`). For
text that holds of any deliveries (`TextReport.takes_deliveries`). A JSON report keeps a stack of
open groups, so there the deliveries must be `Bracketed`, and the outline of a report is
(`bracketed_outline`). Bracketed deliveries leave as many groups open as there were before
(`JsonReport.takes_bracketed`), and with none the report can be finished
(`JsonReport.takes_finish`).

`Takes P ds Q` states what a receiver makes of some deliveries: from a state with `P` all of them
are taken, and they lead to one with `Q`. Such statements are put together like the deliveries
themselves (`Takes.append`).

Both formats look at a chain through its `Chain.print` only: its key, with the note as text, and its
frames. So deliveries that print alike cannot be told apart in what is written
(`ReadsPrints.receiveAll_eq`). Notes of different kinds can have the same text, and then they print
alike.

For this to be of use in a grouped report, the groups must not depend on anything else. Where the
labels of all levels can be read off prints (`Grouping.Level.ReadsPrints`), chains that print alike,
one by one, have outlines that print alike (`map_print_outline`). It is by induction on the levels.
-/

namespace HazardTrace

/-- Nothing is cut off from what is short enough. -/
theorem extract_of_size_le {a : ByteArray} {n : Nat} (h : a.size ≤ n) : a.extract 0 n = a := by
  rw [← Nat.max_eq_left h]
  exact ByteArray.extract_zero_max_size

/-! ### Writers that never fail -/

namespace Writer

variable {ω : Type} [Writer ω] {w : ω}

/-- What becomes of a writer by writes and flushes. -/
inductive Reaches (w : ω) : ω → Prop
  | refl : Reaches w w
  | write {w' : ω} (bytes : ByteArray) : Reaches w w' → Reaches w (write w' bytes).1
  | flush {w' : ω} : Reaches w w' → Reaches w (flush w').1

/-- From now on every write and every flush succeeds. -/
structure NeverFails (w : ω) : Prop where
  write_ok : ∀ {w'}, Reaches w w' → ∀ bytes, (write w' bytes).2 = .ok ()
  flush_ok : ∀ {w'}, Reaches w w' → (flush w').2 = .ok ()

/-- What is written in full stands behind what was written before. -/
theorem accepted_write_of_ok {bytes : ByteArray} (h : (write w bytes).2 = .ok ()) :
    accepted (write w bytes).1 = accepted w ++ bytes := by
  obtain ⟨k, haccepted, hk⟩ := accepted_write w bytes
  rw [haccepted, extract_of_size_le (hk h)]

theorem Reaches.trans {w' w'' : ω} (h : Reaches w w') (h' : Reaches w' w'') : Reaches w w'' := by
  induction h' with
  | refl => exact h
  | write bytes _ ih => exact .write bytes ih
  | flush _ ih => exact .flush ih

/-- A writer that never fails does not fail later. -/
theorem NeverFails.of_reaches {w' : ω} (h : NeverFails w) (hw : Reaches w w') : NeverFails w' :=
  ⟨fun hw' ↦ h.write_ok (hw.trans hw'), fun hw' ↦ h.flush_ok (hw.trans hw')⟩

theorem NeverFails.exists_writeText (h : NeverFails w) (text : String) :
    ∃ w', writeText w text = (w', .ok ()) ∧ NeverFails w' :=
  ⟨_, Prod.ext rfl (h.write_ok .refl _), h.of_reaches (.write _ .refl)⟩

theorem NeverFails.exists_flush (h : NeverFails w) :
    ∃ w', flush w = (w', .ok ()) ∧ NeverFails w' :=
  ⟨_, Prod.ext rfl (h.flush_ok .refl), h.of_reaches (.flush .refl)⟩

end Writer

/-- Storage without a bound never fails, unless its flushes do. -/
theorem Storage.neverFails {w : Storage} (hcapacity : w.capacity = none)
    (hflush : w.failsFlush = false) : Writer.NeverFails w := by
  have hkept : ∀ {w'}, Writer.Reaches w w' → w'.capacity = none ∧ w'.failsFlush = false := by
    intro w' h
    induction h with
    | refl => exact ⟨hcapacity, hflush⟩
    | write bytes _ ih => exact ih
    | flush _ ih => exact ih
  refine ⟨fun h bytes ↦ ?_, fun h ↦ ?_⟩
  · show (if bytes.size ≤ Storage.room _ bytes.size then Except.ok () else _) = _
    rw [Storage.room, (hkept h).1]
    exact if_pos (Nat.le_refl _)
  · show (if Storage.failsFlush _ = true then _ else Except.ok ()) = _
    rw [(hkept h).2]
    rfl

/-! ### Deliveries that are taken -/

namespace Receiver

variable {σ : Type} [Receiver σ] {P Q R : σ → Prop} {ds ds' : List Delivery}

/-- From a state with `P` the deliveries are taken without fail, and lead to a state with `Q`. -/
def Takes (P : σ → Prop) (ds : List Delivery) (Q : σ → Prop) : Prop :=
  ∀ s, P s → ∃ s', receiveAll s ds = (s', .ok ()) ∧ Q s'

theorem takes_nil : Takes P [] P :=
  fun s hs ↦ ⟨s, rfl, hs⟩

/-- One delivery. -/
theorem takes_singleton {d : Delivery}
    (h : ∀ s, P s → ∃ s', receive s d = (s', .ok ()) ∧ Q s') : Takes P [d] Q := by
  intro s hs
  obtain ⟨s', hreceive, hs'⟩ := h s hs
  exact ⟨s', receiveAll_singleton hreceive, hs'⟩

/-- Deliveries that are taken one after the other. -/
theorem Takes.append (h : Takes P ds Q) (h' : Takes Q ds' R) : Takes P (ds ++ ds') R := by
  intro s hs
  obtain ⟨s', hreceive, hs'⟩ := h s hs
  rw [receiveAll_append_of_ok hreceive]
  exact h' s' hs'

end Receiver

open Receiver (Takes)

/-- Deliveries in which every group that is opened is closed again. -/
inductive Bracketed : List Delivery → Prop
  | nil : Bracketed []
  | chain (c : Chain) : Bracketed [.chain c]
  | group (kind : GroupKind) (label : String) (count : Nat) {ds : List Delivery} :
      Bracketed ds → Bracketed ([.openGroup kind label count] ++ (ds ++ [.closeGroup]))
  | append {ds ds' : List Delivery} : Bracketed ds → Bracketed ds' → Bracketed (ds ++ ds')

theorem Bracketed.flatMap {α : Type} {f : α → List Delivery} {l : List α}
    (h : ∀ a ∈ l, Bracketed (f a)) : Bracketed (l.flatMap f) := by
  induction l with
  | nil => exact .nil
  | cons a l ih =>
    rw [List.flatMap_cons]
    exact .append (h a List.mem_cons_self) (ih fun b hb ↦ h b (List.mem_cons_of_mem a hb))

/-- **An outline closes the groups it opens.** -/
theorem bracketed_outline (levels : List Grouping.Level) (l : List Chain) :
    Bracketed (outline levels l) := by
  induction levels generalizing l with
  | nil =>
    rw [outline, ← List.flatMap_pure_eq_map]
    exact .flatMap fun c _ ↦ .chain c
  | cons level levels ih =>
    rw [outline]
    exact .flatMap fun g _ ↦ .group level.kind g.1 g.2 (ih _)

/-! ### Text -/

namespace TextReport

variable {ω : Type} [Writer ω]

theorem exists_put {r : TextReport ω} (h : Writer.NeverFails r.out) (ls : List String) :
    ∃ r', r.put ls = (r', .ok ()) ∧ Writer.NeverFails r'.out := by
  obtain ⟨out, hwrite, hout⟩ := h.exists_writeText (lines r.depth ls)
  refine ⟨{ r with out }, ?_, hout⟩
  rw [put, hwrite]
  rfl

/-- A text report refuses no delivery. -/
theorem exists_receive {r : TextReport ω} (h : Writer.NeverFails r.out) (d : Delivery) :
    ∃ r', receive r d = (r', .ok ()) ∧ Writer.NeverFails r'.out := by
  cases d with
  | openGroup kind label count =>
    exact exists_put (r := { r with depth := r.depth + 1 }) h (groupLines kind label count)
  | chain c => exact exists_put h (chainLines c)
  | closeGroup => exact ⟨_, rfl, h⟩
  | finish =>
    obtain ⟨out, hflush, hout⟩ := h.exists_flush
    refine ⟨{ r with out }, ?_, hout⟩
    rw [receive, hflush]
    rfl

/-- A text report takes whatever it is given, if its writer does. -/
theorem takes_deliveries (ds : List Delivery) :
    Takes (fun r : TextReport ω ↦ Writer.NeverFails r.out) ds fun r ↦ Writer.NeverFails r.out := by
  induction ds with
  | nil => exact Receiver.takes_nil
  | cons d ds ih => exact (Receiver.takes_singleton fun r h ↦ exists_receive h d).append ih

end TextReport

/-! ### JSON -/

namespace JsonReport

variable {ω : Type} [Writer ω] {r : JsonReport ω} {n : Nat}

/-- The report is not finished, `n` groups are open in it, and its writer never fails. -/
structure AtDepth (n : Nat) (r : JsonReport ω) : Prop where
  unfinished : r.finished = false
  depth : r.pending.length = n
  out : Writer.NeverFails r.out

/-- An item can be written at any depth. -/
theorem AtDepth.exists_writeItem (h : AtDepth n r) (item : Json) :
    ∃ r', r.writeItem item = (r', .ok ()) ∧ AtDepth n r' := by
  obtain ⟨out, hwrite, hout⟩ := h.out.exists_writeText (itemText r.written item)
  refine ⟨{ r with out, written := r.written + 1 }, ?_, h.unfinished, h.depth, hout⟩
  rw [writeItem, if_neg (by simp [h.unfinished]), hwrite]

/-- A chain is taken at any depth. -/
theorem AtDepth.exists_chain (h : AtDepth n r) (c : Chain) :
    ∃ r', receive r (.chain c) = (r', .ok ()) ∧ AtDepth n r' := by
  rw [receive]
  split
  · exact h.exists_writeItem c.toJson
  next g outer hpending =>
    have hdepth := h.depth
    rw [hpending] at hdepth
    exact ⟨_, rfl, h.unfinished, hdepth, h.out⟩

/-- A group that is open can be closed. -/
theorem AtDepth.exists_closeGroup (h : AtDepth (n + 1) r) :
    ∃ r', receive r .closeGroup = (r', .ok ()) ∧ AtDepth n r' := by
  have hdepth := h.depth
  rw [receive]
  split
  next hpending => rw [hpending] at hdepth; cases hdepth
  next g hpending =>
    rw [hpending] at hdepth
    obtain rfl : 0 = n := Nat.succ.inj hdepth
    exact AtDepth.exists_writeItem (r := { r with pending := [] }) ⟨h.unfinished, rfl, h.out⟩ g.toJson
  next g parent outer hpending =>
    rw [hpending] at hdepth
    exact ⟨_, rfl, h.unfinished, Nat.succ.inj hdepth, h.out⟩

/-- A JSON report takes bracketed deliveries, if its writer never fails. -/
theorem takes_bracketed {ds : List Delivery} (h : Bracketed ds) (n : Nat) :
    Takes (AtDepth (ω := ω) n) ds (AtDepth n) := by
  induction h generalizing n with
  | nil => exact Receiver.takes_nil
  | chain c => exact Receiver.takes_singleton fun r h ↦ h.exists_chain c
  | group kind label count _ ih =>
    have hopen : Takes (AtDepth (ω := ω) n) [.openGroup kind label count] (AtDepth (n + 1)) :=
      Receiver.takes_singleton fun r h ↦
        ⟨_, rfl, h.unfinished, congrArg (· + 1) h.depth, h.out⟩
    have hclose : Takes (AtDepth (ω := ω) (n + 1)) [.closeGroup] (AtDepth n) :=
      Receiver.takes_singleton fun r h ↦ h.exists_closeGroup
    exact hopen.append ((ih (n + 1)).append hclose)
  | append _ _ ih ih' => exact (ih n).append (ih' n)

/-- A JSON report without open groups can be finished. -/
theorem takes_finish : Takes (AtDepth (ω := ω) 0) [.finish] fun r ↦ r.finished = true := by
  refine Receiver.takes_singleton fun r h ↦ ?_
  have hpending : r.pending.isEmpty = true := List.isEmpty_iff.2 (List.length_eq_zero_iff.1 h.depth)
  obtain ⟨out, hwrite, hout⟩ := h.out.exists_writeText (closing r.written)
  obtain ⟨out', hflush, -⟩ := hout.exists_flush
  refine ⟨{ r with out := out', finished := true }, ?_, rfl⟩
  show JsonReport.receive r .finish = _
  rw [receive, if_pos hpending, close, if_neg (by simp [h.unfinished]), hwrite]
  dsimp only
  rw [hflush]
  rfl

end JsonReport

/-! ### Prints -/

namespace Chain

/-- What a written report shows of a chain. -/
structure Print where
  key : Key
  frames : List String
deriving DecidableEq, Repr

/-- The print of a chain. -/
def print (c : Chain) : Print :=
  ⟨c.key, c.frames⟩

end Chain

/-- What a written report shows of a delivery: all of a group, and the print of a chain. -/
def Delivery.print : Delivery → Delivery ⊕ Chain.Print
  | .chain c => .inr c.print
  | d => .inl d

namespace Receiver

variable {σ : Type} [Receiver σ]

/-- A receiver that does not tell chains apart which print alike. -/
def ReadsPrints (σ : Type) [Receiver σ] : Prop :=
  ∀ (s : σ) (c c' : Chain), c.print = c'.print → receive s (.chain c) = receive s (.chain c')

/-- What prints alike is received alike, one delivery. -/
theorem ReadsPrints.receive_eq (hσ : ReadsPrints σ) (s : σ) {d d' : Delivery}
    (h : d.print = d'.print) : receive s d = receive s d' := by
  match d, d', h with
  | .chain c, .chain c', h => exact hσ s c c' (Sum.inr.inj h)
  | .openGroup .., .openGroup .., h => rw [Sum.inl.inj h]
  | .closeGroup, .closeGroup, _ => rfl
  | .finish, .finish, _ => rfl

/-- **What prints alike is received alike.** -/
theorem ReadsPrints.receiveAll_eq (hσ : ReadsPrints σ) (s : σ) {ds ds' : List Delivery}
    (h : ds.map Delivery.print = ds'.map Delivery.print) : receiveAll s ds = receiveAll s ds' := by
  induction ds generalizing s ds' with
  | nil =>
    obtain rfl := List.map_eq_nil_iff.1 h.symm
    rfl
  | cons d ds ih =>
    obtain ⟨d', ds', rfl, hd, hds⟩ := List.map_eq_cons_iff.1 h.symm
    rw [receiveAll, receiveAll, hσ.receive_eq s hd.symm]
    split
    · exact ih _ hds.symm
    · rfl

end Receiver

/-- Text shows no more of a chain than its print. -/
theorem TextReport.readsPrints {ω : Type} [Writer ω] : Receiver.ReadsPrints (TextReport ω) := by
  intro r c c' h
  have htext : c.note.text = c'.note.text := congrArg (·.key.note) h
  have hframes : c.frames = c'.frames := congrArg Chain.Print.frames h
  have hlines : chainLines c = chainLines c' := by
    rw [chainLines, chainLines, Chain.header, Chain.header, htext, hframes]
  show r.put (chainLines c) = r.put (chainLines c')
  rw [hlines]

/-- Nor does JSON. -/
theorem JsonReport.readsPrints {ω : Type} [Writer ω] : Receiver.ReadsPrints (JsonReport ω) := by
  intro r c c' h
  have htext : c.note.text = c'.note.text := congrArg (·.key.note) h
  have hcategory : c.category = c'.category := congrArg (·.key.category) h
  have hframes : c.frames = c'.frames := congrArg Chain.Print.frames h
  have hjson : c.toJson = c'.toJson := by
    rw [Chain.toJson, Chain.toJson, htext, hcategory, hframes]
  show JsonReport.receive r (.chain c) = JsonReport.receive r (.chain c')
  rw [receive, receive, hjson]

/-! ### Outlines of chains that print alike -/

namespace Grouping.Level

/-- The labels of the level can be read off the prints of chains. -/
def ReadsPrints (level : Level) : Prop :=
  ∃ read : Chain.Print → String, ∀ c, level.label c = read c.print

variable {level : Level} {l l' : List Chain}

theorem ReadsPrints.labels_perm (hlevel : level.ReadsPrints)
    (h : (l.map Chain.print).Perm (l'.map Chain.print)) :
    (l.map level.label).Perm (l'.map level.label) := by
  obtain ⟨read, hread⟩ := hlevel
  have hlabel : level.label = read ∘ Chain.print := funext hread
  rw [hlabel, ← List.map_map, ← List.map_map]
  exact h.map read

/-- Chains that print alike are in groups of the same labels and sizes. -/
theorem ReadsPrints.groups_eq (hlevel : level.ReadsPrints)
    (h : (l.map Chain.print).Perm (l'.map Chain.print)) : level.groups l = level.groups l' := by
  rw [groups, groups, tally_eq_of_perm (hlevel.labels_perm h)]

/-- The chains of one group print alike again. -/
theorem ReadsPrints.map_print_filter (hlevel : level.ReadsPrints)
    (h : l.map Chain.print = l'.map Chain.print) (label : String) :
    (l.filter (level.label · == label)).map Chain.print =
      (l'.filter (level.label · == label)).map Chain.print := by
  obtain ⟨read, hread⟩ := hlevel
  have hfilter : ∀ l : List Chain, (l.filter (level.label · == label)).map Chain.print =
      (l.map Chain.print).filter (read · == label) := by
    intro l
    simp only [hread, List.filter_map]
    rfl
  rw [hfilter, hfilter, h]

end Grouping.Level

/-- Chains that print alike, one by one, have outlines that do. -/
theorem map_print_outline {levels : List Grouping.Level}
    (hlevels : ∀ level ∈ levels, level.ReadsPrints) {l l' : List Chain}
    (h : l.map Chain.print = l'.map Chain.print) :
    (outline levels l).map Delivery.print = (outline levels l').map Delivery.print := by
  induction levels generalizing l l' with
  | nil =>
    have hsort : ∀ l : List Chain, (outline [] l).map Delivery.print =
        ((l.map Chain.print).mergeSort fun p q ↦ p.key.le q.key).map .inr := by
      intro l
      have hprints := List.map_mergeSort (f := Chain.print) (l := l)
        (r := fun a b ↦ a.key.le b.key) (s := fun p q ↦ p.key.le q.key) fun _ _ _ _ ↦ rfl
      rw [← hprints, outline, List.map_map, List.map_map]
      rfl
    rw [hsort, hsort, h]
  | cons level levels ih =>
    have hlevel := hlevels level List.mem_cons_self
    rw [outline, outline, hlevel.groups_eq (.of_eq h), List.map_flatMap, List.map_flatMap]
    refine List.flatMap_congr fun g _ ↦ ?_
    have hrest := ih (fun level' h' ↦ hlevels level' (List.mem_cons_of_mem level h'))
      (hlevel.map_print_filter h g.1)
    rw [List.map_cons, List.map_cons, List.map_append, List.map_append, hrest]

end HazardTrace
