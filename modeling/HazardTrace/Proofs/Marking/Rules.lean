import HazardTrace.Proofs.Marking.Finality
import HazardTrace.Proofs.Marking.Shadow
import HazardTrace.Proofs.Numbering.History
import Mathlib.Data.List.Sort

/-!
# What rules do to a marking

Rules are applied in three nested loops: over the rules, over the patterns of a rule, and over the
methods that a pattern matches. On the mark of one method all three come down to one question,
answered without any loop order: which is the first rule that names the method and has a note
(`firstNote?`, `note_judgeAll`). From the same description it follows that rules do nothing the
second time (`judgeAll_judgeAll`).

For the counts the loops are flattened. What happens is one list of outcomes (`outcomes`), and the
state at the end is that of taking them one after the other (`value_applyAll`). `Step` says what
each of them does, and every count is the number of outcomes of one kind (`foldl_after`). How many
notes were taken cannot be read off the outcomes, since it depends on the marking; but a note is
taken by an open method, which it closes, so the notes taken and the open methods balance
(`annotated_add_openCount`).

The outcomes are then counted without regard to the marking: each match of a pattern is one
(`strikes`), and so is each pattern of a known type that matches nothing (`countP_isUnmatched`) and
each rule whose type is not known (`countP_isUnknownType`). A method that two patterns of one rule
match is struck twice.

`applyAll_exact` puts the marking and the counts together. It is about all rules, numberings and
markings, as long as the marking has room for all numbers; the loops as such (`value_applyAll`) do
not need this.
-/

namespace HazardTrace

/-- Lists that are put together member by member have as many members of a kind, if what each member
contributes has. -/
theorem countP_flatMap_congr {α β γ : Type} {f : α → List β} {g : α → List γ} {p : β → Bool}
    {q : γ → Bool} (h : ∀ a, (f a).countP p = (g a).countP q) (l : List α) :
    (l.flatMap f).countP p = (l.flatMap g).countP q := by
  rw [List.countP_flatMap, List.countP_flatMap]
  exact congrArg List.sum (List.map_congr_left fun a _ ↦ h a)

namespace Marking

/-- The open methods, counted by number. -/
theorem openCount_eq_countP (m : Marking) :
    m.openCount = (List.range m.size).countP m.isOpen := by
  have hmap : (List.range m.size).map m.isOpen = m.marks.toList.map Mark.isOpen := by
    refine List.ext_getElem (by simp [size]) fun i hi hi' ↦ ?_
    have hlt : i < m.marks.size := by simpa using hi'
    simp [isOpen, hlt]
  rw [openCount, ← Array.countP_toList]
  calc m.marks.toList.countP Mark.isOpen
      = (m.marks.toList.map Mark.isOpen).countP id := by rw [List.countP_map]; rfl
    _ = ((List.range m.size).map m.isOpen).countP id := by rw [hmap]
    _ = (List.range m.size).countP m.isOpen := by rw [List.countP_map]; rfl

/-- Of the methods that are there, those without a configured note are open. -/
theorem isOpen_of_lt {m : Marking} {u : Nat} (hu : u < m.size) :
    m.isOpen u = !(m.note? u).any Note.isConfigured := by
  rw [Bool.eq_iff_iff, isOpen_eq_true_iff, Bool.not_eq_true']
  exact and_iff_right hu

/-- A method that is marked safe is as open as it was. -/
theorem openCount_markSafe (m : Marking) (node : Nat) :
    (m.markSafe node).openCount = m.openCount := by
  have hopen : (m.markSafe node).isOpen = m.isOpen := by
    funext u
    rw [isOpen, isOpen, marks_markSafe, Option.any_map]
    congr 1
    funext mark
    show Mark.isOpen (if node = u then _ else mark) = mark.isOpen
    split <;> rfl
  rw [openCount_eq_countP, openCount_eq_countP, hopen, size_markSafe]

/-- If no method is opened, the methods that are closed make up the difference. -/
theorem openCount_eq_add {m m' : Marking} (hsize : m'.size = m.size)
    (h : ∀ u, m'.isOpen u = true → m.isOpen u = true) :
    m.openCount =
      m'.openCount + (List.range m.size).countP fun u ↦ m.isOpen u && !m'.isOpen u := by
  rw [openCount_eq_countP, openCount_eq_countP, hsize,
    List.countP_eq_countP_filter_add _ m.isOpen m'.isOpen, List.countP_filter, List.countP_filter]
  congr 1
  refine List.countP_congr fun u _ ↦ ?_
  rw [Bool.and_eq_true]
  exact ⟨fun hboth ↦ hboth.2, fun hopen ↦ ⟨h u hopen, hopen⟩⟩

end Marking

theorem Numbering.lt_size_of_detail? {α : Type} {s : Numbering α} {u : Nat} {d : α}
    (h : s.detail? u = some d) : u < s.size := by
  obtain ⟨slot, hslot, -⟩ := Option.bind_eq_some_iff.1 h
  exact (Array.getElem?_eq_some_iff.1 hslot).1

namespace Rule

/-! ### The first rule with a note -/

/-- The note of the first rule that has one and names the method. -/
def firstNote? (rules : List Rule) (s : Numbering Method) (u : Nat) : Option Note :=
  rules.findSome? fun r ↦ if r.names s u then r.note? else none

variable {rules : List Rule} {s : Numbering Method} {u : Nat}

theorem isConfigured_of_firstNote? {a : Note} (h : firstNote? rules s u = some a) :
    a.isConfigured = true := by
  obtain ⟨r, -, hr⟩ := List.exists_of_findSome?_eq_some h
  split at hr
  · exact note?_isConfigured hr
  · cases hr

/-- A rule names known methods only. -/
theorem names_of_size_le (h : s.size ≤ u) (r : Rule) : r.names s u = false := by
  rw [names, Option.any_eq_false]
  intro method hdetail
  exact absurd (Numbering.lt_size_of_detail? hdetail) (Nat.not_lt.2 h)

/-- No rule has a note for a method that is not known. -/
theorem firstNote?_of_size_le (h : s.size ≤ u) (rules : List Rule) :
    firstNote? rules s u = none :=
  List.findSome?_eq_none_iff.2 fun r _ ↦ by rw [names_of_size_le h]; rfl

theorem judgeAll_cons (r : Rule) (rules : List Rule) (s : Numbering Method) (u : Nat)
    (mark : Mark) :
    judgeAll (r :: rules) s u mark =
      judgeAll rules s u (if r.names s u then r.judge mark else mark) :=
  rfl

/-- **The first rule that names a method and has a note decides**, unless the method has a
configured note already. -/
theorem note_judgeAll (rules : List Rule) (s : Numbering Method) (u : Nat) (mark : Mark) :
    (judgeAll rules s u mark).note =
      if mark.isOpen then (firstNote? rules s u).or mark.note else mark.note := by
  induction rules generalizing mark with
  | nil => simp [judgeAll, firstNote?]
  | cons r rules ih =>
    rw [firstNote?, List.findSome?_cons, judgeAll_cons, ih]
    by_cases hnames : r.names s u = true
    · rw [if_pos hnames, if_pos hnames]
      cases hnote : r.note? with
      | none => rw [judge_of_note?_eq_none hnote]; rfl
      | some a =>
        -- from here on the mark is closed, and the rules behind do not count
        rw [judge_of_note? hnote, Mark.isOpen_annotate (note?_isConfigured hnote)]
        show (mark.annotate a).note = if mark.isOpen then some a else mark.note
        rw [Mark.annotate]
        split <;> rfl
    · rw [if_neg hnames, if_neg hnames]
      rfl

/-- Any rule that names a method and has no note makes it safe, not only the first. -/
theorem safe_judgeAll (rules : List Rule) (s : Numbering Method) (u : Nat) (mark : Mark) :
    (judgeAll rules s u mark).safe =
      (mark.safe || rules.any fun r ↦ r.note?.isNone && r.names s u) := by
  induction rules generalizing mark with
  | nil => exact (Bool.or_false _).symm
  | cons r rules ih =>
    rw [judgeAll_cons, ih, List.any_cons, ← Bool.or_assoc]
    congr 1
    by_cases hnames : r.names s u = true
    · rw [if_pos hnames, hnames, Bool.and_true]
      cases hnote : r.note? with
      | none => rw [judge_of_note?_eq_none hnote]; exact (Bool.or_true _).symm
      | some a =>
        rw [judge_of_note? hnote, Mark.annotate]
        split <;> exact (Bool.or_false _).symm
    · rw [if_neg hnames, Bool.of_not_eq_true hnames, Bool.and_false, Bool.or_false]

/-- A mark stays open as long as no rule with a note names its method. -/
theorem isOpen_judgeAll (rules : List Rule) (s : Numbering Method) (u : Nat) (mark : Mark) :
    (judgeAll rules s u mark).isOpen = (mark.isOpen && (firstNote? rules s u).isNone) := by
  rw [Mark.isOpen, note_judgeAll]
  by_cases hopen : mark.isOpen = true
  · rw [if_pos hopen, hopen, Bool.true_and]
    cases hfirst : firstNote? rules s u with
    | none => exact hopen
    | some a => simp [isConfigured_of_firstNote? hfirst]
  · rw [if_neg hopen, Bool.of_not_eq_true hopen]
    exact Bool.of_not_eq_true hopen

/-- **Rules do nothing the second time.** -/
theorem judgeAll_judgeAll (rules : List Rule) (s : Numbering Method) (u : Nat) (mark : Mark) :
    judgeAll rules s u (judgeAll rules s u mark) = judgeAll rules s u mark := by
  have hnote : (judgeAll rules s u (judgeAll rules s u mark)).note =
      (judgeAll rules s u mark).note := by
    rw [note_judgeAll rules s u (judgeAll rules s u mark), isOpen_judgeAll]
    split
    next hopen =>
      -- a mark that is still open was named by no rule with a note
      rw [Option.isNone_iff_eq_none.1 (Bool.and_eq_true_iff.1 hopen).2]
      rfl
    · rfl
  have hsafe : (judgeAll rules s u (judgeAll rules s u mark)).safe =
      (judgeAll rules s u mark).safe := by
    rw [safe_judgeAll rules s u (judgeAll rules s u mark), safe_judgeAll, Bool.or_assoc,
      Bool.or_self]
  exact congrArg₂ Mark.mk hnote hsafe

/-! ### The loops as one list -/

/-- Does a known method have the type of the rule? -/
def isKnown (r : Rule) (s : Numbering Method) : Bool :=
  (List.range s.size).any fun u ↦ (s.detail? u).any (·.declaringType == r.typeName)

/-- The methods of its type that a pattern of the rule matches. -/
def hits (r : Rule) (s : Numbering Method) (pattern : String) : List Nat :=
  (List.range s.size).filter fun u ↦ (s.detail? u).any fun method ↦
    method.declaringType == r.typeName && method.matchesPattern pattern

/-- What can become of a part of a rule. -/
inductive Outcome where
  /-- A pattern of the rule matches the method. -/
  | hit (r : Rule) (pattern : String) (node : Nat)
  /-- No known method has the type of the rule. -/
  | unknownType (r : Rule)
  /-- No method of the type matches the pattern. -/
  | unmatched (r : Rule) (pattern : String)

namespace Outcome

/-- Does a rule of a kind match a method? -/
def isHitOf (kind : Rule → Bool) : Outcome → Bool
  | hit r _ _ => kind r
  | _ => false

def isUnknownType : Outcome → Bool
  | unknownType _ => true
  | _ => false

def isUnmatched : Outcome → Bool
  | unmatched .. => true
  | _ => false

end Outcome

/-- The state after an outcome. -/
def State.after (st : State) : Outcome → State
  | .hit r _ node => (r.strike st node).value
  | .unknownType _ => { st with counts.unresolvedTypes := st.counts.unresolvedTypes + 1 }
  | .unmatched .. => { st with counts.unresolvedMethods := st.counts.unresolvedMethods + 1 }

/-- What becomes of a pattern. -/
def patternOutcomes (r : Rule) (s : Numbering Method) (pattern : String) : List Outcome :=
  if (r.hits s pattern).isEmpty then [.unmatched r pattern]
  else (r.hits s pattern).map (.hit r pattern)

/-- What becomes of a rule. -/
def outcomes (s : Numbering Method) (r : Rule) : List Outcome :=
  if r.isKnown s then r.patterns.flatMap (r.patternOutcomes s) else [.unknownType r]

/-- A type is known if one of the known methods has it. -/
theorem methodsOf_eq_nil_iff {r : Rule} : s.methodsOf r.typeName = [] ↔ r.isKnown s = false := by
  rw [List.eq_nil_iff_forall_not_mem, isKnown, List.any_eq_false]
  constructor
  · intro h u _ hany
    obtain ⟨method, hdetail, htype⟩ := (Option.any_eq_true _ _).1 hany
    exact h (u, method) (Numbering.mem_methodsOf.2 ⟨hdetail, beq_iff_eq.1 htype⟩)
  · rintro h ⟨u, method⟩ hmem
    obtain ⟨hdetail, htype⟩ := Numbering.mem_methodsOf.1 hmem
    refine h u (List.mem_range.2 (Numbering.lt_size_of_detail? hdetail)) ?_
    exact (Option.any_eq_true _ _).2 ⟨method, hdetail, beq_iff_eq.2 htype⟩

/-- The methods of a type that match a pattern, by number. -/
theorem map_filter_methodsOf (r : Rule) (s : Numbering Method) (pattern : String) :
    ((s.methodsOf r.typeName).filter (·.2.matchesPattern pattern)).map (·.1) =
      r.hits s pattern := by
  have hascending : (((s.methodsOf r.typeName).filter (·.2.matchesPattern pattern)).map
      (·.1)).Pairwise (· < ·) :=
    List.pairwise_map.2 ((s.pairwise_resolved.filter _).filter _)
  refine hascending.eq_of_mem_iff (List.pairwise_lt_range.filter _) fun u ↦ ?_
  rw [List.mem_map, hits, List.mem_filter, Option.any_eq_true]
  constructor
  · rintro ⟨⟨u, method⟩, hmem, rfl⟩
    obtain ⟨hmethod, hmatch⟩ := List.mem_filter.1 hmem
    obtain ⟨hdetail, htype⟩ := Numbering.mem_methodsOf.1 hmethod
    refine ⟨List.mem_range.2 (Numbering.lt_size_of_detail? hdetail), method, hdetail, ?_⟩
    exact Bool.and_eq_true_iff.2 ⟨beq_iff_eq.2 htype, hmatch⟩
  · rintro ⟨-, method, hdetail, hboth⟩
    obtain ⟨htype, hmatch⟩ := Bool.and_eq_true_iff.1 hboth
    refine ⟨(u, method), List.mem_filter.2 ⟨?_, hmatch⟩, rfl⟩
    exact Numbering.mem_methodsOf.2 ⟨hdetail, beq_iff_eq.1 htype⟩

theorem hits_of_not_isKnown {r : Rule} (h : r.isKnown s = false) (pattern : String) :
    r.hits s pattern = [] := by
  rw [← map_filter_methodsOf, methodsOf_eq_nil_iff.2 h]
  rfl

/-- The innermost loop: one pattern. -/
theorem value_applyPattern (r : Rule) (s : Numbering Method) (st : State) (pattern : String) :
    (r.applyPattern (s.methodsOf r.typeName) st pattern).value =
      (r.patternOutcomes s pattern).foldl State.after st := by
  rw [patternOutcomes, ← map_filter_methodsOf, applyPattern]
  split
  next hnil =>
    rw [hnil]
    rfl
  next hcons =>
    rw [if_neg (by simpa using hcons), List.foldl_map, Logged.value_foldlM]
    rfl

/-- The loop over the patterns of a rule. -/
theorem value_apply (s : Numbering Method) (st : State) (r : Rule) :
    (apply s st r).value = (outcomes s r).foldl State.after st := by
  rw [outcomes, apply]
  split
  next hnil =>
    rw [methodsOf_eq_nil_iff.1 hnil]
    rfl
  next hcons =>
    have hknown : r.isKnown s = true :=
      Bool.of_not_eq_false fun hunknown ↦ hcons (methodsOf_eq_nil_iff.2 hunknown)
    rw [if_pos hknown, List.foldl_flatMap, Logged.value_foldlM]
    simp only [value_applyPattern]

/-- **The nested loops are one run** over what becomes of the rules. -/
theorem value_applyAll (rules : List Rule) (s : Numbering Method) (m : Marking) :
    (applyAll rules s m).value =
      (rules.flatMap (outcomes s)).foldl State.after { marking := m } := by
  show (rules.foldlM (apply s) { marking := m }).value = _
  rw [Logged.value_foldlM, List.foldl_flatMap]
  simp only [value_apply]

/-! ### Counts -/

/-- What one outcome does to a state. -/
inductive Step (st : State) : Outcome → State → Prop
  /-- An open method takes the note of the rule. -/
  | taken {r : Rule} {pattern : String} {node : Nat} {a : Note} :
      r.note? = some a → st.marking.isOpen node = true →
      Step st (.hit r pattern node)
        ⟨st.marking.put node a, { st.counts with annotated := st.counts.annotated + 1 }⟩
  /-- A method that is not open does not. -/
  | duplicate {r : Rule} {pattern : String} {node : Nat} {a : Note} :
      r.note? = some a → st.marking.isOpen node = false →
      Step st (.hit r pattern node)
        ⟨st.marking, { st.counts with duplicates := st.counts.duplicates + 1 }⟩
  /-- A rule without a note makes the method safe. -/
  | safe {r : Rule} {pattern : String} {node : Nat} :
      r.note? = none →
      Step st (.hit r pattern node)
        ⟨st.marking.markSafe node, { st.counts with safe := st.counts.safe + 1 }⟩
  | unknownType {r : Rule} :
      Step st (.unknownType r)
        { st with counts.unresolvedTypes := st.counts.unresolvedTypes + 1 }
  | unmatched {r : Rule} {pattern : String} :
      Step st (.unmatched r pattern)
        { st with counts.unresolvedMethods := st.counts.unresolvedMethods + 1 }

/-- Each outcome takes one of the five steps. -/
theorem step_after (st : State) (o : Outcome) : Step st o (st.after o) := by
  rcases o with ⟨r, pattern, node⟩ | r | ⟨r, pattern⟩
  · rw [State.after, strike]
    split
    next a hnote =>
      rw [Logged.value_bind, Marking.value_annotate]
      by_cases hopen : st.marking.isOpen node = true
      · rw [if_pos hopen]
        exact .taken hnote hopen
      · rw [if_neg hopen]
        exact .duplicate hnote (Bool.of_not_eq_true hopen)
    next hnote => exact .safe hnote
  · exact .unknownType
  · exact .unmatched

namespace Step

variable {st st' : State} {o : Outcome}

/-- Each hit of a rule with a note is a note taken or a duplicate. -/
theorem noted (h : Step st o st') :
    st'.counts.annotated + st'.counts.duplicates = st.counts.annotated + st.counts.duplicates +
      if o.isHitOf (·.note?.isSome) then 1 else 0 := by
  rcases h with ⟨hnote, -⟩ | ⟨hnote, -⟩ | hnote | _ | _
  · simp only [Outcome.isHitOf, hnote, Option.isSome_some, if_true]
    omega
  · simp only [Outcome.isHitOf, hnote, Option.isSome_some, if_true]
    omega
  · simp [Outcome.isHitOf, hnote]
  · rfl
  · rfl

theorem safe_eq (h : Step st o st') :
    st'.counts.safe = st.counts.safe + if o.isHitOf (·.note?.isNone) then 1 else 0 := by
  rcases h with ⟨hnote, -⟩ | ⟨hnote, -⟩ | hnote | _ | _
  · simp [Outcome.isHitOf, hnote]
  · simp [Outcome.isHitOf, hnote]
  · simp [Outcome.isHitOf, hnote]
  · rfl
  · rfl

theorem unresolvedTypes (h : Step st o st') :
    st'.counts.unresolvedTypes =
      st.counts.unresolvedTypes + if o.isUnknownType then 1 else 0 := by
  cases h <;> rfl

theorem unresolvedMethods (h : Step st o st') :
    st'.counts.unresolvedMethods =
      st.counts.unresolvedMethods + if o.isUnmatched then 1 else 0 := by
  cases h <;> rfl

/-- A note that is taken closes a method, and nothing else does. -/
theorem balance (h : Step st o st') :
    st'.counts.annotated + st'.marking.openCount =
      st.counts.annotated + st.marking.openCount := by
  rcases h with ⟨hnote, hopen⟩ | _ | _ | _ | _
  · obtain ⟨mark, hmark, hmarkOpen⟩ := (Option.any_eq_true _ _).1 hopen
    have hput := Marking.openCount_put hmark hmarkOpen (note?_isConfigured hnote)
    dsimp only
    omega
  · rfl
  · dsimp only
    rw [Marking.openCount_markSafe]
  · rfl
  · rfl

end Step

/-- A number that grows by one with each outcome of a kind, and with no other, has grown by their
number. -/
theorem foldl_after {f : State → Nat} {p : Outcome → Bool}
    (h : ∀ {st o st'}, Step st o st' → f st' = f st + if p o then 1 else 0) (l : List Outcome)
    (st : State) : f (l.foldl State.after st) = f st + l.countP p := by
  induction l generalizing st with
  | nil => rfl
  | cons o l ih =>
    rw [List.foldl_cons, ih, h (step_after st o), List.countP_cons]
    omega

/-- What each outcome adds, summed up over all rules. -/
theorem count_applyAll {f : State → Nat} {p : Outcome → Bool}
    (h : ∀ {st o st'}, Step st o st' → f st' = f st + if p o then 1 else 0) (rules : List Rule)
    (s : Numbering Method) (m : Marking) :
    f (applyAll rules s m).value =
      f { marking := m } + (rules.flatMap (outcomes s)).countP p := by
  rw [value_applyAll, foldl_after h]

/-! ### Which outcomes there are -/

/-- The patterns of all rules, each with its rule. -/
def spelled (rules : List Rule) : List (Rule × String) :=
  rules.flatMap fun r ↦ r.patterns.map (r, ·)

/-- A rule, a pattern of it, and a method that it matches. -/
def strikes (rules : List Rule) (s : Numbering Method) : List (Rule × String × Nat) :=
  rules.flatMap fun r ↦ r.patterns.flatMap fun pattern ↦ (r.hits s pattern).map (r, pattern, ·)

/-- The matches of rules of a kind are all hits; a rule whose type is unknown has none. -/
theorem countP_isHitOf (kind : Rule → Bool) (rules : List Rule) (s : Numbering Method) :
    (rules.flatMap (outcomes s)).countP (Outcome.isHitOf kind) =
      (strikes rules s).countP fun strike ↦ kind strike.1 := by
  refine countP_flatMap_congr (fun r ↦ ?_) rules
  rw [outcomes]
  split
  · refine countP_flatMap_congr (fun pattern ↦ ?_) r.patterns
    rw [patternOutcomes]
    split
    next hempty =>
      rw [List.isEmpty_iff.1 hempty]
      rfl
    · rw [List.countP_map, List.countP_map]
      rfl
  next hunknown =>
    simp only [hits_of_not_isKnown (Bool.of_not_eq_true hunknown), List.map_nil]
    rw [List.flatMap_eq_nil_iff.2 fun _ _ ↦ rfl]
    rfl

/-- A rule whose type is unknown is counted once, however many patterns it has. -/
theorem countP_isUnknownType (rules : List Rule) (s : Numbering Method) :
    (rules.flatMap (outcomes s)).countP Outcome.isUnknownType =
      rules.countP fun r ↦ !r.isKnown s := by
  have hrule : ∀ r : Rule, (outcomes s r).countP Outcome.isUnknownType =
      [r].countP fun r ↦ !r.isKnown s := by
    intro r
    rw [outcomes, List.countP_singleton]
    cases hknown : r.isKnown s with
    | false => rfl
    | true =>
      refine List.countP_eq_zero.2 fun o ho ↦ ?_
      obtain ⟨pattern, -, ho⟩ := List.mem_flatMap.1 ho
      rw [patternOutcomes] at ho
      split at ho
      · rw [List.mem_singleton.1 ho]
        exact Bool.false_ne_true
      · obtain ⟨node, -, rfl⟩ := List.mem_map.1 ho
        exact Bool.false_ne_true
  rw [countP_flatMap_congr hrule, List.flatMap_singleton']

/-- Patterns are counted only where the type of the rule is known. -/
theorem countP_isUnmatched (rules : List Rule) (s : Numbering Method) :
    (rules.flatMap (outcomes s)).countP Outcome.isUnmatched =
      (spelled rules).countP fun p ↦ p.1.isKnown s && (p.1.hits s p.2).isEmpty := by
  refine countP_flatMap_congr (fun r ↦ ?_) rules
  rw [outcomes]
  split
  next hknown =>
    rw [List.map_eq_flatMap]
    refine countP_flatMap_congr (fun pattern ↦ ?_) r.patterns
    rw [patternOutcomes, List.countP_singleton, hknown, Bool.true_and]
    split
    · rfl
    · rw [List.countP_map]
      exact List.countP_eq_zero.2 fun _ _ ↦ Bool.false_ne_true
  next hunknown =>
    rw [List.countP_map]
    refine Eq.symm (List.countP_eq_zero.2 fun pattern _ hboth ↦ ?_)
    exact hunknown (Bool.and_eq_true_iff.1 hboth).1

/-! ### The marking and the counts together -/

section Applied

variable (rules : List Rule) (s : Numbering Method) (m : Marking)

theorem size_applyAll : (applyAll rules s m).value.marking.size = m.size :=
  Marking.size_eq_of_marks (marks_applyAll rules s m)

/-- The methods that are open afterwards were open, and no rule has a note for them. -/
theorem isOpen_applyAll (u : Nat) :
    (applyAll rules s m).value.marking.isOpen u =
      (m.isOpen u && (firstNote? rules s u).isNone) := by
  rw [Marking.isOpen, Marking.isOpen, marks_applyAll]
  cases m.marks[u]? with
  | none => rfl
  | some mark => exact isOpen_judgeAll rules s u mark

/-- The note of each method after all rules. -/
theorem note?_applyAll (hsize : s.size ≤ m.size) (u : Nat) :
    (applyAll rules s m).value.marking.note? u =
      if (m.note? u).any Note.isConfigured then m.note? u
      else (firstNote? rules s u).or (m.note? u) := by
  rw [Marking.note?, Marking.note?, marks_applyAll]
  cases hmark : m.marks[u]? with
  | none =>
    have hout : s.size ≤ u := hsize.trans (Array.getElem?_eq_none_iff.1 hmark)
    rw [firstNote?_of_size_le hout]
    rfl
  | some mark =>
    show (judgeAll rules s u mark).note = _
    rw [note_judgeAll, Mark.isOpen]
    cases h : mark.note.any Note.isConfigured <;> simp [h]

/-- The safe methods after all rules. -/
theorem isSafe_applyAll (hsize : s.size ≤ m.size) (u : Nat) :
    (applyAll rules s m).value.marking.isSafe u =
      (m.isSafe u || rules.any fun r ↦ r.note?.isNone && r.names s u) := by
  rw [Marking.isSafe, Marking.isSafe, marks_applyAll]
  cases hmark : m.marks[u]? with
  | none =>
    have hout : s.size ≤ u := hsize.trans (Array.getElem?_eq_none_iff.1 hmark)
    simp [names_of_size_le hout]
  | some mark => exact safe_judgeAll rules s u mark

/-- Each note that is taken closes a method. -/
theorem annotated_add_openCount :
    (applyAll rules s m).value.counts.annotated + (applyAll rules s m).value.marking.openCount =
      m.openCount := by
  have hcount := count_applyAll (f := fun st ↦ st.counts.annotated + st.marking.openCount)
    (p := fun _ ↦ false) Step.balance rules s m
  simpa using hcount

/-- The notes taken are the methods that have been closed. -/
theorem annotated_applyAll :
    (applyAll rules s m).value.counts.annotated = (List.range m.size).countP fun u ↦
      m.isOpen u && !(applyAll rules s m).value.marking.isOpen u := by
  have hclosed : ∀ u, (applyAll rules s m).value.marking.isOpen u = true → m.isOpen u = true := by
    intro u hopen
    rw [isOpen_applyAll] at hopen
    exact (Bool.and_eq_true_iff.1 hopen).1
  have hbalance := annotated_add_openCount rules s m
  have hclosings := Marking.openCount_eq_add (size_applyAll rules s m) hclosed
  omega

/-- Each match of a rule with a note is a note taken or a duplicate. -/
theorem noted_applyAll :
    (applyAll rules s m).value.counts.annotated + (applyAll rules s m).value.counts.duplicates =
      (strikes rules s).countP fun strike ↦ strike.1.note?.isSome := by
  have hcount := count_applyAll (f := fun st ↦ st.counts.annotated + st.counts.duplicates)
    Step.noted rules s m
  rw [countP_isHitOf] at hcount
  exact hcount.trans (Nat.zero_add _)

theorem safe_applyAll :
    (applyAll rules s m).value.counts.safe =
      (strikes rules s).countP fun strike ↦ strike.1.note?.isNone := by
  have hcount := count_applyAll (f := fun st ↦ st.counts.safe) Step.safe_eq rules s m
  rw [countP_isHitOf] at hcount
  exact hcount.trans (Nat.zero_add _)

theorem unresolvedTypes_applyAll :
    (applyAll rules s m).value.counts.unresolvedTypes = rules.countP fun r ↦ !r.isKnown s := by
  have hcount := count_applyAll (f := fun st ↦ st.counts.unresolvedTypes) Step.unresolvedTypes
    rules s m
  rw [countP_isUnknownType] at hcount
  exact hcount.trans (Nat.zero_add _)

theorem unresolvedMethods_applyAll :
    (applyAll rules s m).value.counts.unresolvedMethods =
      (spelled rules).countP fun p ↦ p.1.isKnown s && (p.1.hits s p.2).isEmpty := by
  have hcount := count_applyAll (f := fun st ↦ st.counts.unresolvedMethods)
    Step.unresolvedMethods rules s m
  rw [countP_isUnmatched] at hcount
  exact hcount.trans (Nat.zero_add _)

/-- **Applying rules again does not change the marking.** -/
theorem applyAll_again :
    (applyAll rules s (applyAll rules s m).value.marking).value.marking =
      (applyAll rules s m).value.marking := by
  refine congrArg Marking.mk (Array.ext_getElem? fun u ↦ ?_)
  show (applyAll rules s (applyAll rules s m).value.marking).value.marking.marks[u]? =
    (applyAll rules s m).value.marking.marks[u]?
  rw [marks_applyAll, marks_applyAll, Option.map_map]
  exact congrArg (Option.map · _) (funext (judgeAll_judgeAll rules s u))

end Applied

/-- **What rules do, exactly.** A method that has a configured note keeps it. Any other method gets
the note of the first rule that names it and has one, and keeps what it had if there is none. The
safe methods are those that were safe and those that a rule without a note names. Of the counts,
`annotated` is the number of methods that have a configured note now and had none before; together
with `duplicates` it is the number of matches of rules with a note, and `safe` that of the others,
each pattern of a rule counted by itself. The other two count the rules whose type no known method
has, and the patterns that match nothing although the type is known. Applied again, the rules change
nothing and no note is taken. -/
theorem applyAll_exact (rules : List Rule) (s : Numbering Method) (m : Marking)
    (hsize : s.size ≤ m.size) :
    let st := (applyAll rules s m).value
    let again := (applyAll rules s st.marking).value
    st.marking.size = m.size ∧
    (∀ u a, m.note? u = some a → a.isConfigured = true → st.marking.note? u = some a) ∧
    (∀ u, (m.note? u).any Note.isConfigured = false →
      st.marking.note? u = (firstNote? rules s u).or (m.note? u)) ∧
    (∀ u, st.marking.isSafe u = true ↔
      m.isSafe u = true ∨ ∃ r ∈ rules, r.note? = none ∧ r.names s u = true) ∧
    st.counts.annotated = ((List.range m.size).countP fun u ↦
      !(m.note? u).any Note.isConfigured && (st.marking.note? u).any Note.isConfigured) ∧
    st.counts.annotated + st.counts.duplicates =
      ((strikes rules s).countP fun strike ↦ strike.1.note?.isSome) ∧
    st.counts.safe = ((strikes rules s).countP fun strike ↦ strike.1.note?.isNone) ∧
    st.counts.unresolvedTypes = (rules.countP fun r ↦ !r.isKnown s) ∧
    st.counts.unresolvedMethods =
      ((spelled rules).countP fun p ↦ p.1.isKnown s && (p.1.hits s p.2).isEmpty) ∧
    again.marking = st.marking ∧ again.counts.annotated = 0 := by
  intro st again
  have hsame : st.marking.size = m.size := size_applyAll rules s m
  have hnote (u : Nat) : st.marking.note? u = _ := note?_applyAll rules s m hsize u
  have hsafe (u : Nat) : st.marking.isSafe u = _ := isSafe_applyAll rules s m hsize u
  have hagain : again.marking = st.marking := applyAll_again rules s m
  refine ⟨hsame, fun u a ha hconfigured ↦ ?_, fun u hopen ↦ ?_, fun u ↦ ?_, ?_,
    noted_applyAll rules s m, safe_applyAll rules s m, unresolvedTypes_applyAll rules s m,
    unresolvedMethods_applyAll rules s m, hagain, ?_⟩
  · rw [hnote, ha]
    exact if_pos hconfigured
  · rw [hnote, hopen]
    rfl
  · rw [hsafe, Bool.or_eq_true, List.any_eq_true]
    simp only [Bool.and_eq_true, Option.isNone_iff_eq_none]
  · refine (annotated_applyAll rules s m).trans (List.countP_congr fun u hu ↦ ?_)
    have hlt : u < m.size := List.mem_range.1 hu
    rw [Marking.isOpen_of_lt hlt, Marking.isOpen_of_lt (hsame.symm ▸ hlt), Bool.not_not]
  · have hbalance : again.counts.annotated + again.marking.openCount = st.marking.openCount :=
      annotated_add_openCount rules s st.marking
    rw [hagain] at hbalance
    omega

/-- Two known methods of a type, and an id of which nothing is known. -/
def twoLoaders : Numbering Method :=
  let load : Method :=
    { id := "load", name := "Load", signature := "Load()", declaringType := "Loader" }
  let run : Method :=
    { id := "run", name := "Run", signature := "Run()", declaringType := "Loader" }
  (((Numbering.empty.declare "load" load).2.declare "run" run).2.assign "gone").2

/-- Patterns that match a method several times, rules of every kind on one method, a pattern that
matches nothing, and a type that is not there. -/
def overlapping : List Rule :=
  [⟨"Loader", ["Load", "*", "Absent"], .memberTrimming, "Trim", .suppress "reviewed", "a.json"⟩,
    ⟨"Loader", ["Load()"], .memberTrimming, "Trim", .warn "risky", "b.json"⟩,
    ⟨"Loader", ["Run", "*"], .memberTrimming, "Trim", .safe "checked", "b.json"⟩,
    ⟨"Ghost", ["*"], .memberTrimming, "Trim", .warn "risky", "b.json"⟩]

/-- The second method has a warning already. -/
def secondWarned : Marking :=
  (Marking.blank 3).put 1 (.warn ⟨"Trim", "first", .memberTrimming⟩)

/-- The warning stays; the other method gets the note of the first rule. -/
theorem applyAll_exact_overlapping :
    let st := (applyAll overlapping twoLoaders secondWarned).value
    twoLoaders.size ≤ secondWarned.size ∧
      st.marking.note? 0 = some (.suppress ⟨"Trim", "reviewed", .memberTrimming⟩) ∧
      st.marking.note? 1 = some (.warn ⟨"Trim", "first", .memberTrimming⟩) ∧
      st.marking.isSafe 1 = true ∧ st.counts.annotated = 1 ∧
      st.counts.annotated + st.counts.duplicates = 4 ∧ st.counts.safe = 3 ∧
      st.counts.unresolvedTypes = 1 ∧ st.counts.unresolvedMethods = 1 ∧
      (applyAll overlapping twoLoaders st.marking).value.marking = st.marking := by
  have hsize : twoLoaders.size ≤ secondWarned.size := by decide +kernel
  obtain ⟨-, hkept, hfirst, hsafe, htaken, hnoted, hsafeCount, htypes, hmethods, hagain, -⟩ :=
    applyAll_exact overlapping twoLoaders secondWarned hsize
  refine ⟨hsize, (hfirst 0 (by decide)).trans ?_, hkept 1 _ (by decide) (by decide),
    (hsafe 1).2 (.inr ?_), htaken.trans ?_, hnoted.trans ?_, hsafeCount.trans ?_, htypes.trans ?_,
    hmethods.trans ?_, hagain⟩
  all_goals decide +kernel

end Rule

end HazardTrace
