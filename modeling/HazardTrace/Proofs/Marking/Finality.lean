import HazardTrace.Proofs.Inheritance.Exactness
import HazardTrace.Proofs.Marking.Shadow

/-!
# What marks keep

A marking changes in four ways: a note is attached, an unresolved call is recorded, a method is
marked safe, or warnings are inherited (`Change`). The rules of precedence differ, but three of the
four do the same thing to a method, if they do anything: they put a note on it **while it is open**
(`value_annotate`, `value_addCall`, `Inheritance.State.pass_cases`). So marks only grow
(`Mark.GrowsTo`): a configured note stays as it is, a record of calls may be replaced and is not
taken away, and a safe method stays safe.

`GrowsTo` is a preorder. What one change does (`growsTo_undergo`) is therefore what every run of
changes does (`growsTo_undergoAll`), and inheritance, which is itself a run, comes down to the step
of one override (`growsTo_pass`).

Numbers that no method has play no part. For three of the four changes this is plain from the lemmas
above, since no such number is open. Inheritance is given overrides and flags for many numbers at
once, and there it has to be shown that dropping the ones that are out of range makes no difference
(`value_inherit_congr`). A warning passed to such a number is lost (`value_passAll_filter`), and no
such number waits (`WaitsWithin`), so two runs with the same overrides between the methods that are
there go through the same states.

`notes_final` states all of this of a marking that starts blank, and which note is taken when.
-/

namespace HazardTrace

/-- What may become of a mark. -/
structure Mark.GrowsTo (mark mark' : Mark) : Prop where
  note_eq : mark.isOpen = false → mark'.note = mark.note
  isSome_note : mark.note.isSome = true → mark'.note.isSome = true
  safe : mark.safe = true → mark'.safe = true

namespace Mark

variable {mark mark' mark'' : Mark}

theorem GrowsTo.refl (mark : Mark) : mark.GrowsTo mark :=
  ⟨fun _ ↦ rfl, id, id⟩

/-- A note that is closed stays closed, so that what it says can be compared across many changes. -/
theorem GrowsTo.trans (h : mark.GrowsTo mark') (h' : mark'.GrowsTo mark'') :
    mark.GrowsTo mark'' where
  note_eq hclosed := by
    have hnote := h.note_eq hclosed
    -- the same note closes the mark in between
    have hclosed' : mark'.isOpen = false := by rw [isOpen, hnote, ← isOpen, hclosed]
    rw [h'.note_eq hclosed', hnote]
  isSome_note hsome := h'.isSome_note (h.isSome_note hsome)
  safe hsafe := h'.safe (h.safe hsafe)

/-- An open mark takes any note. -/
theorem growsTo_of_isOpen (hopen : mark.isOpen = true) (a : Note) :
    mark.GrowsTo { mark with note := some a } where
  note_eq hclosed := by
    rw [hopen] at hclosed
    cases hclosed
  isSome_note _ := rfl
  safe := id

theorem growsTo_safe (mark : Mark) : mark.GrowsTo { mark with safe := true } :=
  ⟨fun _ ↦ rfl, id, fun _ ↦ rfl⟩

end Mark

namespace Marking

variable {m m' m'' : Marking} {n u node : Nat} {a : Note}

/-- No method comes or goes, and every mark grows. -/
structure GrowsTo (m m' : Marking) : Prop where
  size_eq : m'.size = m.size
  mark : ∀ (u : Nat) (mark : Mark), m.marks[u]? = some mark →
    ∃ mark', m'.marks[u]? = some mark' ∧ mark.GrowsTo mark'

namespace GrowsTo

theorem refl (m : Marking) : m.GrowsTo m :=
  ⟨rfl, fun _ mark hmark ↦ ⟨mark, hmark, .refl mark⟩⟩

theorem trans (h : m.GrowsTo m') (h' : m'.GrowsTo m'') : m.GrowsTo m'' where
  size_eq := h'.size_eq.trans h.size_eq
  mark u mark hmark := by
    obtain ⟨mark', hmark', hgrows⟩ := h.mark u mark hmark
    obtain ⟨mark'', hmark'', hgrows'⟩ := h'.mark u mark' hmark'
    exact ⟨mark'', hmark'', hgrows.trans hgrows'⟩

/-- The marking grows if the one mark that is modified does. -/
theorem modify {f : Mark → Mark} (h : ∀ mark, m.marks[node]? = some mark → mark.GrowsTo (f mark)) :
    m.GrowsTo ⟨m.marks.modify node f⟩ where
  size_eq := Array.size_modify
  mark u mark hmark := by
    refine ⟨if node = u then f mark else mark, ?_, ?_⟩
    · rw [getElem?_modify_mark, hmark]
      rfl
    · split
      next hu => exact h mark (hu ▸ hmark)
      · exact .refl mark

/-- A configured note is final. -/
theorem note?_eq (h : m.GrowsTo m') (ha : m.note? u = some a)
    (hconfigured : a.isConfigured = true) : m'.note? u = some a := by
  obtain ⟨mark, hmark, hnote⟩ := Option.bind_eq_some_iff.1 ha
  obtain ⟨mark', hmark', hgrows⟩ := h.mark u mark hmark
  have hclosed : mark.isOpen = false := by simp [Mark.isOpen, hnote, hconfigured]
  exact Option.bind_eq_some_iff.2 ⟨mark', hmark', (hgrows.note_eq hclosed).trans hnote⟩

/-- A note is not taken away. -/
theorem isSome_note? (h : m.GrowsTo m') (hsome : (m.note? u).isSome = true) :
    (m'.note? u).isSome = true := by
  obtain ⟨a, ha⟩ := Option.isSome_iff_exists.1 hsome
  obtain ⟨mark, hmark, hnote⟩ := Option.bind_eq_some_iff.1 ha
  obtain ⟨mark', hmark', hgrows⟩ := h.mark u mark hmark
  rw [note?, hmark']
  exact hgrows.isSome_note (by rw [hnote]; rfl)

/-- A safe method stays safe. -/
theorem isSafe (h : m.GrowsTo m') (hsafe : m.isSafe u = true) : m'.isSafe u = true := by
  obtain ⟨mark, hmark, hmarkSafe⟩ := (Option.any_eq_true _ _).1 hsafe
  obtain ⟨mark', hmark', hgrows⟩ := h.mark u mark hmark
  exact (Option.any_eq_true _ _).2 ⟨mark', hmark', hgrows.safe hmarkSafe⟩

end GrowsTo

/-! ### Changes of one method -/

/-- A method can take a note if it is there and has no configured one. -/
theorem isOpen_eq_true_iff :
    m.isOpen node = true ↔ node < m.size ∧ (m.note? node).any Note.isConfigured = false := by
  rw [isOpen, note?]
  by_cases hnode : node < m.size
  · obtain ⟨mark, hmark⟩ : ∃ mark, m.marks[node]? = some mark :=
      ⟨_, Array.getElem?_eq_getElem hnode⟩
    simp [hmark, hnode, Mark.isOpen]
  · have hnone : m.marks[node]? = none := Array.getElem?_eq_none (Nat.not_lt.1 hnode)
    simp [hnone, hnode]

/-- Only methods that are there are open. -/
theorem lt_size_of_isOpen (h : m.isOpen node = true) : node < m.size :=
  (isOpen_eq_true_iff.1 h).1

theorem isOpen_of_size_le (h : m.size ≤ node) : m.isOpen node = false :=
  Bool.eq_false_iff.2 fun hopen ↦ Nat.not_lt.2 h (lt_size_of_isOpen hopen)

/-- The unresolved calls that are recorded of a method. -/
def recordedCalls (m : Marking) (node : Nat) : List ReflectiveCall :=
  match m.note? node with
  | some (.unanalyzed calls) => calls
  | _ => []

/-- **A note is taken by an open method only.** -/
theorem value_annotate (m : Marking) (node : Nat) (a : Note) :
    (m.annotate node a).value = if m.isOpen node then (true, m.put node a) else (false, m) := by
  rw [annotate]
  split
  next hnone => simp [isOpen, hnone]
  next mark hmark =>
    split
    next hnote => simp [isOpen, hmark, Mark.isOpen, hnote]
    next calls hnote =>
      simp [isOpen, hmark, Mark.isOpen, hnote, Note.isConfigured, Note.isUnanalyzed]
    next existing hother hnote =>
      rcases existing with r | r | calls
      · simp [isOpen, hmark, Mark.isOpen, hnote, Note.isConfigured, Note.isUnanalyzed]
      · simp [isOpen, hmark, Mark.isOpen, hnote, Note.isConfigured, Note.isUnanalyzed]
      · exact absurd rfl (hother calls)

/-- **A call is recorded of an open method only**, behind those that are recorded already. -/
theorem value_addCall (m : Marking) (node : Nat) (call : ReflectiveCall) :
    (m.addCall node call).value =
      if m.isOpen node then (true, m.put node (.unanalyzed (m.recordedCalls node ++ [call])))
      else (false, m) := by
  rw [addCall]
  split
  next hnone => simp [isOpen, hnone]
  next mark hmark =>
    split
    next hnote => simp [isOpen, hmark, Mark.isOpen, hnote, recordedCalls, note?]
    next calls hnote =>
      simp [isOpen, hmark, Mark.isOpen, hnote, Note.isConfigured, Note.isUnanalyzed, recordedCalls,
        note?]
    next existing hother hnote =>
      rcases existing with r | r | calls
      · simp [isOpen, hmark, Mark.isOpen, hnote, Note.isConfigured, Note.isUnanalyzed]
      · simp [isOpen, hmark, Mark.isOpen, hnote, Note.isConfigured, Note.isUnanalyzed]
      · exact absurd rfl (hother calls)

/-- A note that is put on an open method makes the marking grow. -/
theorem growsTo_put (hopen : m.isOpen node = true) (a : Note) : m.GrowsTo (m.put node a) := by
  refine .modify fun mark hmark ↦ Mark.growsTo_of_isOpen ?_ a
  rwa [isOpen, hmark] at hopen

theorem growsTo_annotate (m : Marking) (node : Nat) (a : Note) :
    m.GrowsTo (m.annotate node a).value.2 := by
  rw [value_annotate]
  split
  next hopen => exact growsTo_put hopen a
  · exact .refl m

theorem growsTo_addCall (m : Marking) (node : Nat) (call : ReflectiveCall) :
    m.GrowsTo (m.addCall node call).value.2 := by
  rw [value_addCall]
  split
  next hopen => exact growsTo_put hopen _
  · exact .refl m

theorem growsTo_markSafe (m : Marking) (node : Nat) : m.GrowsTo (m.markSafe node) :=
  .modify fun mark _ ↦ mark.growsTo_safe

/-- A number that no method has is not marked safe. -/
theorem markSafe_of_size_le (h : m.size ≤ node) : m.markSafe node = m := by
  have hsame : m.marks.modify node (fun mark ↦ { mark with safe := true }) = m.marks := by
    refine Array.ext_getElem? fun u ↦ ?_
    rw [Array.getElem?_modify]
    split
    next hu => rw [← hu, Array.getElem?_eq_none h]; rfl
    · rfl
  rw [markSafe, hsame]

end Marking

/-! ### Inheritance -/

namespace Inheritance.State

open Marking

variable {st : State} {overrides overrides' : Overrides} {n base : Nat} {r : Remark}

/-- One override makes the marking grow, or leaves it. -/
theorem growsTo_pass (base : Nat) (r : Remark) (st : State) (o : Nat) :
    st.marking.GrowsTo (pass base r st o).value.marking := by
  obtain ⟨-, hmarking, -⟩ | ⟨hopen, hmarking, -⟩ := pass_cases base r st o
  · rw [hmarking]
    exact .refl _
  · rw [hmarking]
    exact growsTo_put hopen _

theorem growsTo_passAll (base : Nat) (r : Remark) (os : List Nat) (st : State) :
    st.marking.GrowsTo (passAll base r os st).value.marking := by
  induction os generalizing st with
  | nil => exact .refl _
  | cons o os ih =>
    rw [passAll_cons]
    exact (growsTo_pass base r st o).trans (ih _)

/-- A run of inheritance makes the marking grow, by one method that is served after the other. -/
theorem growsTo_run (overrides : Overrides) (st : State) :
    st.marking.GrowsTo (st.run overrides).value.marking := by
  refine (run_induction overrides (P := fun st' ↦ st.marking.GrowsTo st'.marking) (.refl _) ?_).1
  intro st' base r rest h _
  exact h.trans (growsTo_passAll base r (overrides.of base) { st' with waiting := rest })

/-- Every method that waits is there. -/
def WaitsWithin (st : State) : Prop :=
  ∀ p ∈ st.waiting.toList, p.1 < st.marking.size

/-- What joins the queue was open, so it is there. -/
theorem WaitsWithin.pass (h : st.WaitsWithin) (base : Nat) (r : Remark) (o : Nat) :
    (pass base r st o).value.WaitsWithin := by
  intro p hp
  rw [(growsTo_pass base r st o).size_eq]
  obtain ⟨-, -, hwaiting⟩ | ⟨hopen, -, hwaiting⟩ := pass_cases base r st o
  · exact h p (hwaiting ▸ hp)
  · rw [hwaiting, Worklist.toList_push, List.mem_append, List.mem_singleton] at hp
    obtain hp | rfl := hp
    · exact h p hp
    · exact lt_size_of_isOpen hopen

theorem WaitsWithin.passAll (h : st.WaitsWithin) (base : Nat) (r : Remark) (os : List Nat) :
    (passAll base r os st).value.WaitsWithin := by
  induction os generalizing st with
  | nil => exact h
  | cons o os ih =>
    rw [passAll_cons]
    exact ih (h.pass base r o)

/-- A warning that is passed to a number which no method has is lost. -/
theorem value_passAll_filter (base : Nat) (r : Remark) (os : List Nat) (st : State) :
    (passAll base r os st).value =
      (passAll base r (os.filter (· < st.marking.size)) st).value := by
  induction os generalizing st with
  | nil => rfl
  | cons o os ih =>
    rw [passAll_cons]
    by_cases ho : o < st.marking.size
    · rw [List.filter_cons_of_pos (by simpa using ho), passAll_cons, ih,
        (growsTo_pass base r st o).size_eq]
    · have hnone : st.marking.marks[o]? = none := Array.getElem?_eq_none (Nat.not_lt.1 ho)
      have hpass : (State.pass base r st o).value = st := by
        rw [State.pass, hnone]
        rfl
      rw [List.filter_cons_of_neg (by simpa using ho), hpass, ih]

/-- Two runs agree if their overrides agree between the methods that are there. -/
theorem value_run_congr
    (h : ∀ b < n, (overrides.of b).filter (· < n) = (overrides'.of b).filter (· < n))
    (hn : st.marking.size = n) (hst : st.WaitsWithin) :
    (st.run overrides).value = (st.run overrides').value := by
  revert hn hst
  refine run.induct overrides
    (fun st ↦ st.marking.size = n → st.WaitsWithin →
      (st.run overrides).value = (st.run overrides').value)
    (fun st hpop _ _ ↦ ?_) (fun st base r rest hpop ih hn hst ↦ ?_) st
  · rw [value_run_of_pop?_eq_none hpop, value_run_of_pop?_eq_none hpop]
  · have hlist := Worklist.toList_of_pop? hpop
    have hbase : base < n := hn ▸ hst (base, r) (hlist ▸ List.mem_cons_self)
    have hrest : ({ st with waiting := rest } : State).WaitsWithin := fun p hp ↦
      hst p (hlist ▸ List.mem_cons_of_mem _ hp)
    have hserve : (passAll base r (overrides.of base) { st with waiting := rest }).value =
        (passAll base r (overrides'.of base) { st with waiting := rest }).value := by
      rw [value_passAll_filter, value_passAll_filter base r (overrides'.of base)]
      show (passAll base r ((overrides.of base).filter (· < st.marking.size)) _).value =
        (passAll base r ((overrides'.of base).filter (· < st.marking.size)) _).value
      rw [hn, h base hbase]
    rw [value_run_of_pop?_eq_some hpop, value_run_of_pop?_eq_some hpop, ← hserve]
    refine ih ?_ (hrest.passAll base r _)
    rw [(growsTo_passAll base r (overrides.of base) { st with waiting := rest }).size_eq]
    exact hn

end Inheritance.State

namespace Marking

open Inheritance

variable {m : Marking}

/-- Inheritance as a whole makes the marking grow. -/
theorem growsTo_inherit (m : Marking) (overrides : Overrides) (isVirtual : Array Bool) :
    m.GrowsTo (m.inherit overrides isVirtual).value.2 :=
  State.growsTo_run overrides { marking := m, waiting := .ofList (m.virtualWarnings isVirtual) }

/-- Flags of other numbers are not looked at. -/
theorem virtualWarnings_congr {isVirtual isVirtual' : Array Bool}
    (h : ∀ i < m.size, isVirtual[i]?.getD false = isVirtual'[i]?.getD false) :
    m.virtualWarnings isVirtual = m.virtualWarnings isVirtual' := by
  refine List.filterMap_congr fun p hp ↦ ?_
  obtain ⟨mark, i⟩ := p
  have hmark : m.marks[i]? = some mark := by simpa using List.mem_zipIdx_iff_getElem?.1 hp
  have hi : i < m.size := (Array.getElem?_eq_some_iff.1 hmark).1
  dsimp only
  rw [h i hi]

/-- **Inheritance looks at the methods that are there.** Overrides from or to any other number, and
flags of such numbers, change neither the marking nor the counts. -/
theorem value_inherit_congr {overrides overrides' : Overrides} {isVirtual isVirtual' : Array Bool}
    (hoverrides : ∀ b < m.size,
      (overrides.of b).filter (· < m.size) = (overrides'.of b).filter (· < m.size))
    (hvirtual : ∀ i < m.size, isVirtual[i]?.getD false = isVirtual'[i]?.getD false) :
    (m.inherit overrides isVirtual).value = (m.inherit overrides' isVirtual').value := by
  have hwithin : State.WaitsWithin
      { marking := m, waiting := .ofList (m.virtualWarnings isVirtual') } := by
    intro p hp
    rw [Worklist.toList_ofList] at hp
    obtain ⟨mark, hmark, -⟩ := Option.bind_eq_some_iff.1 (mem_virtualWarnings.1 hp).note?
    exact (Array.getElem?_eq_some_iff.1 hmark).1
  have hrun := State.value_run_congr hoverrides rfl hwithin
  rw [inherit, inherit, virtualWarnings_congr hvirtual]
  simp only [Logged.value_bind, Logged.value_pure, hrun]

/-! ### Runs of changes -/

/-- The ways in which a marking changes. -/
inductive Change where
  | annotate (node : Nat) (a : Note)
  | addCall (node : Nat) (call : ReflectiveCall)
  | markSafe (node : Nat)
  | inherit (overrides : Overrides) (isVirtual : Array Bool)

/-- The marking after a change. -/
def undergo (m : Marking) : Change → Marking
  | .annotate node a => (m.annotate node a).value.2
  | .addCall node call => (m.addCall node call).value.2
  | .markSafe node => m.markSafe node
  | .inherit overrides isVirtual => (m.inherit overrides isVirtual).value.2

/-- The marking after some changes, in order. -/
def undergoAll (m : Marking) (changes : List Change) : Marking :=
  changes.foldl undergo m

/-- **Every change makes the marking grow.** -/
theorem growsTo_undergo (m : Marking) (change : Change) : m.GrowsTo (m.undergo change) := by
  rcases change with ⟨node, a⟩ | ⟨node, call⟩ | node | ⟨overrides, isVirtual⟩
  · exact growsTo_annotate m node a
  · exact growsTo_addCall m node call
  · exact growsTo_markSafe m node
  · exact growsTo_inherit m overrides isVirtual

/-- Hence so does every run of changes. -/
theorem growsTo_undergoAll (m : Marking) (changes : List Change) :
    m.GrowsTo (m.undergoAll changes) := by
  induction changes generalizing m with
  | nil => exact .refl m
  | cons c changes ih => exact (growsTo_undergo m c).trans (ih _)

/-- **Configured notes are final.** After any changes to a marking of `n` methods, further changes
leave every configured note as it is, take no note away, make no safe method unsafe, and keep the
number of methods. What names a number that no method has does nothing: a change of that number does
not change the marking, and inheritance depends on overrides and flags of the `n` methods only. A
note or a call is taken exactly if its method is there and has no configured note; then the method
has that note, or a record of the calls so far and this one. -/
theorem notes_final (n : Nat) (before after : List Change) :
    let m := (blank n).undergoAll before
    let m' := m.undergoAll after
    m'.size = n ∧
    (∀ u a, m.note? u = some a → a.isConfigured = true → m'.note? u = some a) ∧
    (∀ u, (m.note? u).isSome = true → (m'.note? u).isSome = true) ∧
    (∀ u, m.isSafe u = true → m'.isSafe u = true) ∧
    (∀ u, n ≤ u → (∀ a, (m.annotate u a).value = (false, m)) ∧
      (∀ call, (m.addCall u call).value = (false, m)) ∧ m.markSafe u = m) ∧
    (∀ (overrides overrides' : Overrides) (isVirtual isVirtual' : Array Bool),
      (∀ b < n, (overrides.of b).filter (· < n) = (overrides'.of b).filter (· < n)) →
      (∀ i < n, isVirtual[i]?.getD false = isVirtual'[i]?.getD false) →
      (m.inherit overrides isVirtual).value = (m.inherit overrides' isVirtual').value) ∧
    (∀ u a, ((m.annotate u a).value.1 = true ↔
        u < n ∧ (m.note? u).any Note.isConfigured = false) ∧
      ((m.annotate u a).value.1 = true → (m.annotate u a).value.2.note? u = some a)) ∧
    (∀ u call, ((m.addCall u call).value.1 = true ↔
        u < n ∧ (m.note? u).any Note.isConfigured = false) ∧
      ((m.addCall u call).value.1 = true → (m.addCall u call).value.2.note? u =
        some (.unanalyzed (m.recordedCalls u ++ [call])))) := by
  intro m m'
  have hsize : m.size = n := by
    rw [(growsTo_undergoAll (blank n) before).size_eq, size_blank]
  have hgrows : m.GrowsTo m' := growsTo_undergoAll m after
  refine ⟨hgrows.size_eq.trans hsize, fun u a ↦ hgrows.note?_eq, fun u ↦ hgrows.isSome_note?,
    fun u ↦ hgrows.isSafe, fun u hu ↦ ?_, fun _ _ _ _ ↦ ?_, fun u a ↦ ?_, fun u call ↦ ?_⟩
  · have hout : m.size ≤ u := hsize ▸ hu
    have hclosed := isOpen_of_size_le hout
    refine ⟨fun a ↦ ?_, fun call ↦ ?_, markSafe_of_size_le hout⟩
    · rw [value_annotate, hclosed]
      rfl
    · rw [value_addCall, hclosed]
      rfl
  · rw [← hsize]
    exact value_inherit_congr
  · rw [← hsize, ← isOpen_eq_true_iff, value_annotate]
    split
    next hopen => exact ⟨iff_of_true rfl hopen, fun _ ↦ note?_put_self hopen a⟩
    next hclosed => exact ⟨iff_of_false nofun hclosed, nofun⟩
  · rw [← hsize, ← isOpen_eq_true_iff, value_addCall]
    split
    next hopen => exact ⟨iff_of_true rfl hopen, fun _ ↦ note?_put_self hopen _⟩
    next hclosed => exact ⟨iff_of_false nofun hclosed, nofun⟩

/-- A warning on one method, an unresolved call of the next, and a safe one. -/
def threeMarks : List Change :=
  [.annotate 0 (.warn ⟨"Trim", "first", .memberTrimming⟩),
    .addCall 1 ⟨2, "Trim", "unknown type", .memberTrimming⟩, .markSafe 2]

/-- A second note for the first method, and overrides that lead round in a circle and out of the
marking. -/
def secondThoughts : List Change :=
  [.annotate 0 (.suppress ⟨"Trim", "reviewed", .memberTrimming⟩),
    .inherit (.ofNumbers [(0, 1), (1, 0), (0, 7)]) #[true, true, true, true], .markSafe 7]

/-- The first note stays, the second method still has one, and what lies outside the marking does
not matter. -/
theorem notes_final_secondThoughts :
    let m := (blank 3).undergoAll threeMarks
    let m' := m.undergoAll secondThoughts
    m.note? 0 = some (.warn ⟨"Trim", "first", .memberTrimming⟩) ∧
      m'.note? 0 = some (.warn ⟨"Trim", "first", .memberTrimming⟩) ∧
      (m.note? 1).isSome = true ∧ (m'.note? 1).isSome = true ∧ m'.isSafe 2 = true ∧ m'.size = 3 ∧
      m.markSafe 7 = m ∧
      (m.inherit (.ofNumbers [(0, 1), (0, 7)]) #[true, true, true, true]).value =
        (m.inherit (.ofNumbers [(0, 1)]) #[true, true, true]).value := by
  obtain ⟨hsize, hconfigured, hnoted, hsafe, hout, hinherit, -⟩ :=
    notes_final 3 threeMarks secondThoughts
  exact ⟨rfl, hconfigured 0 _ rfl rfl, rfl, hnoted 1 rfl, hsafe 2 rfl, hsize,
    (hout 7 (by decide)).2.2, hinherit _ _ _ _ (by decide) (by decide)⟩

end Marking

end HazardTrace
