import HazardTrace.Proofs.Inheritance.Comparison
import HazardTrace.Proofs.Marking.Finality
import HazardTrace.Proofs.Program.Pairs

/-!
# The account of inheritance

What the counts of inheritance count, and why a second run changes nothing.

Methods are served in the order in which they came to wait. So at any time the methods served so
far, followed by those that wait, are the methods where a warning started, followed by those that
have taken one (`Ledger.queue`). A method takes a warning while it is open and is closed from then
on, and a method where a warning starts is never open. Hence no method is served twice
(`Ledger.nodup_served`), also when the overrides lead round in a circle, and each pair of overrides
is met at most once. The counts are then those of two lists without repetitions: the methods that
took a warning (`Ledger.applied`, `Ledger.overwritten`), and the pairs whose base has been served
(`Audited`).

One override either takes the warning, is a conflict, or is not there (`State.value_pass`). The
ledger is carried through a run on that (`Ledger.take`, `Audited.serve`), and at the end of the run
nothing waits (`exists_ledger_inherit`). Which methods have taken a warning is then read off the
marking before and after, because the run is exact (`Settled.isOpen_and_closed_iff`).

A second run starts from other methods than the first: a virtual method that inherited its warning
is among them. All of them have been served before, so they meet no open method (`Settled.served`).
A run that meets no open method counts conflicts and does nothing else (`Idle`).

`inherit_settles_counted` states both, for every marking, all pairs of overrides and all virtual
methods.
-/

namespace HazardTrace

/-- As many members have a property in two lists without repetitions, if they are the same ones. -/
theorem countP_eq_of_nodup {α : Type} {l l' : List α} {p q : α → Bool} (hl : l.Nodup)
    (hl' : l'.Nodup) (h : ∀ a, a ∈ l ∧ p a = true ↔ a ∈ l' ∧ q a = true) :
    l.countP p = l'.countP q := by
  rw [List.countP_eq_length_filter, List.countP_eq_length_filter]
  refine List.Perm.length_eq ?_
  rw [List.perm_ext_iff_of_nodup (hl.filter p) (hl'.filter q)]
  intro a
  rw [List.mem_filter, List.mem_filter, h]

namespace Overrides

variable {o : Overrides} {pairs : List (Nat × Nat)}

theorem nodup_of_foldl_add (pairs : List (Nat × Nat)) (h : ∀ b, (o.of b).Nodup) (b : Nat) :
    ((pairs.foldl (fun o p ↦ o.add p.1 p.2) o).of b).Nodup := by
  induction pairs generalizing o with
  | nil => exact h b
  | cons p pairs ih =>
    refine ih fun b' ↦ ?_
    rw [of_add]
    split
    next hnew => exact List.concat_eq_append ▸ (h p.1).concat hnew.2
    · exact h b'

/-- No method is listed twice for one base. -/
theorem nodup_of_ofNumbers (pairs : List (Nat × Nat)) (b : Nat) : ((ofNumbers pairs).of b).Nodup :=
  nodup_of_foldl_add pairs (fun b' ↦ by simp [of]) b

end Overrides

namespace Marking

variable {m : Marking} {isVirtual : Array Bool} {r : Remark} {u : Nat}

/-- Does the method carry a warning? -/
def isWarned (m : Marking) (u : Nat) : Bool :=
  (m.note? u).any Note.isWarn

/-- What `isWarned` decides. -/
theorem isWarned_eq_true_iff : m.isWarned u = true ↔ ∃ r, m.note? u = some (.warn r) := by
  rw [isWarned, Option.any_eq_true]
  constructor
  · rintro ⟨a, ha, hwarn⟩
    cases a with
    | warn r => exact ⟨r, ha⟩
    | suppress r | unanalyzed calls => cases hwarn
  · rintro ⟨r, hr⟩
    exact ⟨.warn r, hr, rfl⟩

theorem isWarned_of_note? (h : m.note? u = some (.warn r)) : m.isWarned u = true :=
  isWarned_eq_true_iff.2 ⟨r, h⟩

/-- An open method carries no warning. -/
theorem isWarned_of_isOpen (h : m.isOpen u = true) : m.isWarned u = false := by
  refine Bool.eq_false_iff.2 fun hwarned ↦ ?_
  obtain ⟨r, hr⟩ := isWarned_eq_true_iff.1 hwarned
  rw [isOpen_eq_false_of_note? hr rfl] at h
  cases h

/-- Where warnings start. -/
theorem mem_map_virtualWarnings : u ∈ (m.virtualWarnings isVirtual).map Prod.fst ↔
    ∃ r, m.Issues isVirtual r u := by
  simp [mem_virtualWarnings]

end Marking

namespace Inheritance

open Marking

/-! ### One override -/

/-- How often a warning has reached a method. -/
def Counts.total (c : Counts) : Nat :=
  c.applied + c.overwritten + c.conflicts

/-- Counts that a method with the given note has taken a warning. -/
def Counts.taken (c : Counts) (note : Option Note) : Counts :=
  if note.isNone then { c with applied := c.applied + 1 }
  else { c with overwritten := c.overwritten + 1 }

/-- Taking a warning is counted once, whatever the method carried. -/
theorem Counts.total_taken (c : Counts) (note : Option Note) :
    (c.taken note).total = c.total + 1 := by
  unfold taken total
  split <;> dsimp only <;> omega

namespace State

variable {st : State} {overrides : Overrides} {n : Nat}

/-- **What one override does.** An open method takes the warning, and any other that is there is a
conflict. -/
theorem value_pass (base : Nat) (r : Remark) (st : State) (o : Nat) :
    (pass base r st o).value =
      if st.marking.isOpen o then st.take o r (st.counts.taken (st.marking.note? o))
      else if o < st.marking.size then
        { st with counts := { st.counts with conflicts := st.counts.conflicts + 1 } }
      else st := by
  rw [pass]
  split
  next hnone =>
    have ho : ¬ o < st.marking.size := Nat.not_lt.2 (Array.getElem?_eq_none_iff.1 hnone)
    simp [isOpen, hnone, ho]
  next mark hmark =>
    have ho : o < st.marking.size := (Array.getElem?_eq_some_iff.1 hmark).1
    have hnote : st.marking.note? o = mark.note := by simp [Marking.note?, hmark]
    rw [hnote, if_pos ho]
    split
    next hnone => simp [isOpen, hmark, Mark.isOpen, hnone, Counts.taken]
    next calls hcalls =>
      simp [isOpen, hmark, Mark.isOpen, hcalls, Counts.taken, Note.isConfigured, Note.isUnanalyzed]
    next existing hother hexisting =>
      rcases existing with r' | r' | calls
      · simp [isOpen, hmark, Mark.isOpen, hexisting, Note.isConfigured, Note.isUnanalyzed]
      · simp [isOpen, hmark, Mark.isOpen, hexisting, Note.isConfigured, Note.isUnanalyzed]
      · exact absurd rfl (hother calls)

/-- An override is counted once, if it is there. -/
theorem total_pass (base : Nat) (r : Remark) (st : State) (o : Nat) :
    (pass base r st o).value.counts.total =
      st.counts.total + if o < st.marking.size then 1 else 0 := by
  rw [value_pass]
  split
  next hopen =>
    rw [if_pos (lt_size_of_isOpen hopen)]
    exact Counts.total_taken ..
  · split
    · unfold Counts.total
      dsimp only
      omega
    · rfl

/-- Each override that is there is counted once. -/
theorem total_passAll (base : Nat) (r : Remark) (os : List Nat) (st : State) :
    (passAll base r os st).value.counts.total =
      st.counts.total + (os.filter (· < st.marking.size)).length := by
  induction os generalizing st with
  | nil => rfl
  | cons o os ih =>
    rw [passAll_cons, ih, total_pass, (growsTo_pass base r st o).size_eq, List.filter_cons]
    by_cases ho : o < st.marking.size
    · simp only [ho, decide_true, if_true, List.length_cons]
      omega
    · simp [ho]

/-- Where no override is open, nothing happens but conflicts. -/
theorem exists_value_passAll_of_closed (base : Nat) (r : Remark) {os : List Nat}
    (h : ∀ o ∈ os, st.marking.isOpen o = false) :
    ∃ conflicts, (passAll base r os st).value =
      { st with counts := { st.counts with conflicts } } := by
  induction os generalizing st with
  | nil => exact ⟨st.counts.conflicts, rfl⟩
  | cons o os ih =>
    obtain ⟨hclosed, hrest⟩ := List.forall_mem_cons.1 h
    rw [passAll_cons, value_pass, if_neg (by simp [hclosed])]
    split
    · have hrest' : ∀ o ∈ os, ({ st with counts :=
          { st.counts with conflicts := st.counts.conflicts + 1 } } : State).marking.isOpen o =
            false :=
        hrest
      exact ih hrest'
    · exact ih hrest

end State

/-! ### The ledger of a run -/

/-- The books of a run that started from `seeds`: the methods served so far, and those that have
taken a warning, in order. -/
structure Ledger (m : Marking) (seeds served taken : List Nat) (st : State) : Prop where
  queue : served ++ st.waiting.toList.map Prod.fst = seeds ++ taken
  nodup : taken.Nodup
  mem_taken : ∀ u, u ∈ taken ↔ m.isOpen u = true ∧ st.marking.isOpen u = false
  untouched : ∀ u, st.marking.isOpen u = true → st.marking.marks[u]? = m.marks[u]?
  size_eq : st.marking.size = m.size
  applied : st.counts.applied = taken.countP fun u ↦ (m.note? u).isNone
  overwritten : st.counts.overwritten = taken.countP fun u ↦ !(m.note? u).isNone

namespace Ledger

variable {m : Marking} {seeds served taken : List Nat} {st : State} {base o : Nat} {r : Remark}

/-- Nothing has been served, and nothing taken. -/
theorem start (m : Marking) (waiting : Worklist (Nat × Remark)) :
    Ledger m (waiting.toList.map Prod.fst) [] [] { marking := m, waiting } where
  queue := by simp
  nodup := List.nodup_nil
  mem_taken u := by simp
  untouched _ _ := rfl
  size_eq := rfl
  applied := rfl
  overwritten := rfl

/-- An open method is entered when it takes a warning. -/
theorem take (h : Ledger m seeds served taken st) (hopen : st.marking.isOpen o = true)
    (r : Remark) :
    Ledger m seeds served (taken ++ [o]) (st.take o r (st.counts.taken (st.marking.note? o))) := by
  have hmark := h.untouched o hopen
  have hnote : st.marking.note? o = m.note? o := by rw [note?, hmark, ← note?]
  have hopen₀ : m.isOpen o = true := by rwa [isOpen, hmark] at hopen
  have hnew : o ∉ taken := by
    rw [h.mem_taken, hopen]
    rintro ⟨-, ⟨⟩⟩
  have hput : ∀ u, (st.marking.put o (.warn r)).isOpen u = true ↔
      st.marking.isOpen u = true ∧ o ≠ u := by
    intro u
    rw [isOpen_put_warn]
    simp
  refine ⟨?_, List.concat_eq_append ▸ h.nodup.concat hnew, fun u ↦ ?_, fun u hu ↦ ?_, ?_, ?_, ?_⟩
  · show served ++ (st.waiting.push (o, r)).toList.map Prod.fst = _
    rw [Worklist.toList_push, List.map_append, ← List.append_assoc, h.queue, List.append_assoc]
    rfl
  · rw [List.mem_append, List.mem_singleton, h.mem_taken, ← Bool.not_eq_true, ← Bool.not_eq_true]
    show _ ↔ m.isOpen u = true ∧ ¬ (st.marking.put o (.warn r)).isOpen u = true
    rw [hput]
    by_cases hu : u = o
    · simp [hu, hopen₀]
    · simp [hu, Ne.symm hu]
  · obtain ⟨hu, hne⟩ := (hput u).1 hu
    show (st.marking.put o (.warn r)).marks[u]? = _
    rw [getElem?_put, if_neg hne, h.untouched u hu]
  · exact (size_put ..).trans h.size_eq
  · rw [List.countP_append, ← h.applied, List.countP_singleton, ← hnote]
    unfold State.take Counts.taken
    cases st.marking.note? o <;> rfl
  · rw [List.countP_append, ← h.overwritten, List.countP_singleton, ← hnote]
    unfold State.take Counts.taken
    cases st.marking.note? o <;> rfl

theorem pass (h : Ledger m seeds served taken st) (base : Nat) (r : Remark) (o : Nat) :
    ∃ taken', Ledger m seeds served taken' (State.pass base r st o).value := by
  rw [State.value_pass]
  split
  next hopen => exact ⟨_, h.take hopen r⟩
  · split
    · exact ⟨taken, h.queue, h.nodup, h.mem_taken, h.untouched, h.size_eq, h.applied, h.overwritten⟩
    · exact ⟨taken, h⟩

theorem passAll (h : Ledger m seeds served taken st) (base : Nat) (r : Remark) (os : List Nat) :
    ∃ taken', Ledger m seeds served taken' (State.passAll base r os st).value := by
  induction os generalizing st taken with
  | nil => exact ⟨taken, h⟩
  | cons o os ih =>
    obtain ⟨taken', h'⟩ := h.pass base r o
    rw [State.passAll_cons]
    exact ih h'

/-- A method that is taken off the queue has been served. -/
theorem pop {rest : Worklist (Nat × Remark)} (h : Ledger m seeds served taken st)
    (hpop : st.waiting.pop? = some ((base, r), rest)) :
    Ledger m seeds (served ++ [base]) taken { st with waiting := rest } where
  queue := by
    rw [← h.queue, Worklist.toList_of_pop? hpop, List.map_cons, List.append_assoc]
    rfl
  nodup := h.nodup
  mem_taken := h.mem_taken
  untouched := h.untouched
  size_eq := h.size_eq
  applied := h.applied
  overwritten := h.overwritten

end Ledger

/-- The books are in order, and the total is that of the overrides of all methods served. -/
def Audited (m : Marking) (seeds : List Nat) (overrides : Overrides) (st : State) : Prop :=
  ∃ served taken, Ledger m seeds served taken st ∧
    st.counts.total = (served.flatMap fun b ↦ (overrides.of b).filter (· < m.size)).length

/-- The step of one method that is served. -/
theorem Audited.serve {m : Marking} {seeds : List Nat} {overrides : Overrides} {st : State}
    {base : Nat} {r : Remark} {rest : Worklist (Nat × Remark)} (h : Audited m seeds overrides st)
    (hpop : st.waiting.pop? = some ((base, r), rest)) :
    Audited m seeds overrides
      (State.passAll base r (overrides.of base) { st with waiting := rest }).value := by
  obtain ⟨served, taken, hledger, htotal⟩ := h
  obtain ⟨taken', hledger'⟩ := (hledger.pop hpop).passAll base r (overrides.of base)
  refine ⟨served ++ [base], taken', hledger', ?_⟩
  rw [State.total_passAll, List.flatMap_append, List.length_append, List.flatMap_singleton]
  show st.counts.total + ((overrides.of base).filter (· < st.marking.size)).length = _
  rw [htotal, hledger.size_eq]

/-! ### Whole runs -/

variable {m m' : Marking} {pairs : List (Nat × Nat)} {isVirtual : Array Bool}

/-- When a run is over, all have been served: the methods where a warning started, then those that
have taken one. -/
theorem exists_ledger_inherit (m : Marking) (overrides : Overrides) (isVirtual : Array Bool) :
    ∃ (taken : List Nat) (st : State),
      Ledger m ((m.virtualWarnings isVirtual).map Prod.fst)
        ((m.virtualWarnings isVirtual).map Prod.fst ++ taken) taken st ∧
      (m.inherit overrides isVirtual).value = (st.counts, st.marking) ∧
      st.counts.total = (((m.virtualWarnings isVirtual).map Prod.fst ++ taken).flatMap fun b ↦
        (overrides.of b).filter (· < m.size)).length := by
  have hstart := Ledger.start m (.ofList (m.virtualWarnings isVirtual))
  rw [Worklist.toList_ofList] at hstart
  obtain ⟨⟨served, taken, hledger, htotal⟩, hdone⟩ :=
    State.run_induction overrides (P := Audited m _ overrides) ⟨[], [], hstart, rfl⟩
      fun st base r rest h hpop ↦ h.serve hpop
  have hserved := hledger.queue
  rw [hdone, List.map_nil, List.append_nil] at hserved
  subst hserved
  exact ⟨taken, _, hledger, rfl, htotal⟩

/-- No warning starts twice at one method. -/
theorem nodup_seeds (m : Marking) (isVirtual : Array Bool) :
    ((m.virtualWarnings isVirtual).map Prod.fst).Nodup :=
  List.pairwise_map.2 ((m.pairwise_virtualWarnings isVirtual).imp Nat.ne_of_lt)

/-- No method is served twice. -/
theorem Ledger.nodup_served {served taken : List Nat} {st : State}
    (h : Ledger m ((m.virtualWarnings isVirtual).map Prod.fst) served taken st) :
    ((m.virtualWarnings isVirtual).map Prod.fst ++ taken).Nodup := by
  refine List.Nodup.append (nodup_seeds m isVirtual) h.nodup fun u hseed htaken ↦ ?_
  obtain ⟨r, hr⟩ := mem_map_virtualWarnings.1 hseed
  obtain ⟨hopen, -⟩ := (h.mem_taken u).1 htaken
  rw [hr.isOpen_eq_false] at hopen
  cases hopen

/-- A method has taken a warning if it had none and carries one now. -/
theorem Settled.isOpen_and_closed_iff (h : Settled m pairs isVirtual m') (u : Nat) :
    m.isOpen u = true ∧ m'.isOpen u = false ↔ m.isWarned u = false ∧ m'.isWarned u = true := by
  rcases h.marks u with hsame | ⟨r, k, htook⟩
  · rw [isOpen, isOpen, isWarned, isWarned, note?, note?, hsame]
    exact iff_of_false (fun h ↦ by rw [h.1] at h; cases h.2) (fun h ↦ by rw [h.1] at h; cases h.2)
  · exact iff_of_true ⟨htook.isOpen, htook.isOpen_eq_false⟩
      ⟨isWarned_of_isOpen htook.isOpen, isWarned_of_note? htook.note?⟩

/-- Once all is settled, no override of a virtual method with a warning is open: that method has
been served, whether the warning started there or was inherited. -/
theorem Settled.isOpen_override (h : Settled m pairs isVirtual m') {r : Remark} {b o : Nat}
    (hb : m'.Issues isVirtual r b) (hpair : (b, o) ∈ pairs) : m'.isOpen o = false := by
  rcases h.marks b with hsame | ⟨r', k, htook⟩
  · have hissues : m.Issues isVirtual r b := by
      refine ⟨?_, hb.isVirtual⟩
      have hnote := hb.note?
      rwa [note?, hsame] at hnote
    exact h.served r 0 b o hissues.inherits hpair
  · exact h.served r' k b o htook.nearest.inherits hpair

/-- No method of `m'` has taken a warning, and no override of a method that waits is open. -/
structure Idle (m' : Marking) (pairs : List (Nat × Nat)) (st : State) : Prop where
  counts : ∃ conflicts, st.counts = { conflicts }
  marking : st.marking = m'
  waiting : ∀ p ∈ st.waiting.toList, ∀ o, (p.1, o) ∈ pairs → m'.isOpen o = false

/-- The step of a run that meets no open method. -/
theorem Idle.serve {st : State} {base : Nat} {r : Remark} {rest : Worklist (Nat × Remark)}
    (h : Idle m' pairs st) (hpop : st.waiting.pop? = some ((base, r), rest)) :
    Idle m' pairs (State.passAll base r ((Overrides.ofNumbers pairs).of base)
      { st with waiting := rest }).value := by
  obtain ⟨⟨conflicts, hcounts⟩, rfl, hwaiting⟩ := h
  rw [Worklist.toList_of_pop? hpop] at hwaiting
  obtain ⟨hbase, hrest⟩ := List.forall_mem_cons.1 hwaiting
  have hclosed : ∀ o ∈ (Overrides.ofNumbers pairs).of base,
      ({ st with waiting := rest } : State).marking.isOpen o = false := fun o ho ↦
    hbase o (Overrides.mem_of_ofNumbers.1 ho)
  obtain ⟨conflicts', hpassed⟩ := State.exists_value_passAll_of_closed base r hclosed
  rw [hpassed]
  refine ⟨⟨conflicts', ?_⟩, rfl, hrest⟩
  show ({ st.counts with conflicts := conflicts' } : Counts) = _
  rw [hcounts]

/-- Where inheritance has settled, it leaves the marking as it is. -/
theorem Settled.inherit_eq (h : Settled m pairs isVirtual m') :
    ∃ conflicts, (m'.inherit (.ofNumbers pairs) isVirtual).value = ({ conflicts }, m') := by
  have hstart : Idle m' pairs
      { marking := m', waiting := .ofList (m'.virtualWarnings isVirtual) } := by
    refine ⟨⟨0, rfl⟩, rfl, fun p hp o hpair ↦ ?_⟩
    rw [Worklist.toList_ofList] at hp
    exact h.isOpen_override (mem_virtualWarnings.1 hp) hpair
  obtain ⟨⟨⟨conflicts, hcounts⟩, hmarking, -⟩, -⟩ :=
    State.run_induction (.ofNumbers pairs) hstart fun st base r rest hst hpop ↦ hst.serve hpop
  exact ⟨conflicts, Prod.ext hcounts hmarking⟩

/-! ### The counts -/

/-- The methods that took a warning, counted by what they carried before. -/
theorem Ledger.countP_taken {seeds served taken : List Nat} {st : State}
    (h : Ledger m seeds served taken st) (hsettled : Settled m pairs isVirtual st.marking)
    {p q : Nat → Bool} (hpq : ∀ u, m.isOpen u = true → p u = q u)
    (hq : ∀ u, q u = true → m.isWarned u = false) :
    taken.countP p = (List.range m.size).countP fun u ↦ q u && st.marking.isWarned u := by
  refine countP_eq_of_nodup h.nodup List.nodup_range fun u ↦ ?_
  rw [h.mem_taken, hsettled.isOpen_and_closed_iff, List.mem_range, Bool.and_eq_true]
  constructor
  · rintro ⟨htaken, hp⟩
    have hopen := ((hsettled.isOpen_and_closed_iff u).2 htaken).1
    exact ⟨lt_size_of_isOpen hopen, hpq u hopen ▸ hp, htaken.2⟩
  · rintro ⟨-, hqu, hwarned⟩
    have htaken : m.isWarned u = false ∧ st.marking.isWarned u = true := ⟨hq u hqu, hwarned⟩
    have hopen := ((hsettled.isOpen_and_closed_iff u).2 htaken).1
    exact ⟨htaken, (hpq u hopen).trans hqu⟩

/-- The methods that were served: where a warning started, and where one has been taken. -/
theorem Ledger.mem_served_iff {served taken : List Nat} {st : State}
    (h : Ledger m ((m.virtualWarnings isVirtual).map Prod.fst) served taken st)
    (hsettled : Settled m pairs isVirtual st.marking) (b : Nat) :
    b ∈ (m.virtualWarnings isVirtual).map Prod.fst ++ taken ↔
      (m.isWarned b && isVirtual[b]? == some true || !m.isWarned b && st.marking.isWarned b) =
        true := by
  have hissues : (∃ r, m.Issues isVirtual r b) ↔
      m.isWarned b = true ∧ isVirtual[b]? = some true := by
    rw [isWarned_eq_true_iff]
    exact ⟨fun ⟨r, hr⟩ ↦ ⟨⟨r, hr.note?⟩, hr.isVirtual⟩, fun ⟨⟨r, hr⟩, hvirtual⟩ ↦ ⟨r, hr, hvirtual⟩⟩
  rw [List.mem_append, mem_map_virtualWarnings, hissues, h.mem_taken,
    hsettled.isOpen_and_closed_iff]
  simp

/-- **Inheritance settles at once, and its counts are exact.** A second run with the same overrides
and the same virtual methods leaves the marking as it is and changes no method. Of the first run,
`applied` counts the methods that went from no note to a warning, and `overwritten` those that went
from a record of calls to a warning. All counts together are the number of different pairs of
overrides that lead to a method which is there, from a base that was virtual and carried a warning,
or that came to carry one. -/
theorem inherit_settles_counted (m : Marking) (pairs : List (Nat × Nat)) (isVirtual : Array Bool) :
    let done := (m.inherit (.ofNumbers pairs) isVirtual).value
    let again := (done.2.inherit (.ofNumbers pairs) isVirtual).value
    again.2 = done.2 ∧ again.1.changed = 0 ∧
    done.1.applied = (List.range m.size).countP (fun u ↦
      (m.note? u).isNone && done.2.isWarned u) ∧
    done.1.overwritten = (List.range m.size).countP (fun u ↦
      (m.note? u).any Note.isUnanalyzed && done.2.isWarned u) ∧
    done.1.applied + done.1.overwritten + done.1.conflicts =
      (pairs.filter fun p ↦ decide (p.2 < m.size) &&
        (m.isWarned p.1 && isVirtual[p.1]? == some true ||
          !m.isWarned p.1 && done.2.isWarned p.1)).dedup.length := by
  intro done again
  have hsettled : Settled m pairs isVirtual done.2 := settled_inherit m pairs isVirtual
  obtain ⟨conflicts, hagain⟩ := hsettled.inherit_eq
  obtain ⟨taken, st, hledger, hdone, htotal⟩ :=
    exists_ledger_inherit m (.ofNumbers pairs) isVirtual
  have hcounts : done.1 = st.counts := congrArg Prod.fst hdone
  have hmarking : done.2 = st.marking := congrArg Prod.snd hdone
  rw [hmarking] at hsettled
  have hstays : again = ({ conflicts }, done.2) := hagain
  refine ⟨by rw [hstays], by rw [hstays]; rfl, ?_, ?_, ?_⟩
  · rw [hcounts, hmarking, hledger.applied]
    refine hledger.countP_taken hsettled (fun _ _ ↦ rfl) fun u hnone ↦ ?_
    rw [isWarned, Option.isNone_iff_eq_none.1 hnone]
    rfl
  · rw [hcounts, hmarking, hledger.overwritten]
    refine hledger.countP_taken hsettled (fun u hopen ↦ ?_) fun u hcalls ↦ ?_
    · -- of an open method, a note is a record of calls
      have hfree := (isOpen_eq_true_iff.1 hopen).2
      cases hnote : m.note? u with
      | none => rfl
      | some a => simpa [hnote, Note.isConfigured] using hfree
    · obtain ⟨a, ha, hcalls⟩ := (Option.any_eq_true _ _).1 hcalls
      rw [isWarned, ha]
      cases a with
      | unanalyzed calls => rfl
      | warn r | suppress r => cases hcalls
  · rw [hcounts, hmarking]
    refine htotal.trans ?_
    -- the relation is kept by base, so its pairs are compared the other way round
    refine Eq.trans (length_flatMap_eq_of_mem_iff hledger.nodup_served
      (fun b _ ↦ (Overrides.nodup_of_ofNumbers pairs b).filter _) (fun o b ↦ ?_))
      ((length_dedup_map_eq_iff Prod.swap _).2 fun p _ q _ h ↦ Prod.swap_injective h)
    rw [hledger.mem_served_iff hsettled, List.mem_filter, Overrides.mem_of_ofNumbers,
      decide_eq_true_eq, List.mem_map]
    constructor
    · rintro ⟨hbase, hpair, ho⟩
      refine ⟨(b, o), List.mem_filter.2 ⟨hpair, ?_⟩, rfl⟩
      exact Bool.and_eq_true_iff.2 ⟨decide_eq_true ho, hbase⟩
    · rintro ⟨⟨b', o'⟩, hp, heq⟩
      obtain ⟨rfl, rfl⟩ := Prod.mk.inj heq
      obtain ⟨hpair, hp⟩ := List.mem_filter.1 hp
      obtain ⟨ho, hbase⟩ := Bool.and_eq_true_iff.1 hp
      exact ⟨hbase, hpair, of_decide_eq_true ho⟩

end Inheritance

end HazardTrace
