import HazardTrace.Inheritance
import Mathlib.Data.List.Chain

/-!
# Lines of overrides

The relation that inheritance is measured against, stated on the marking as it was before and on the
pairs of overrides alone. A warning starts at a virtual method (`Issues`), and goes down from a base
to a method that overrides it, as long as it meets open methods (`Descends`). `Inherits` joins the
two and keeps the number of steps, because of several warnings that come down to one method the
nearest is taken (`Nearest`). A method where a warning starts is not open
(`Issues.isOpen_eq_false`), so it inherits nothing but its own.

Inheritance itself does not know of lines. It meets one pair at a time, so the relation is taken
apart in the same way: a warning that has come down in `k + 1` steps came down to a base in `k`
(`Inherits.exists_base`), and from a base it goes on to each open method that overrides it
(`Inherits.step`).

The program keeps its overrides in a table and its warnings in a list. Three lemmas say that these
hold what the relation speaks of: `mem_of_ofNumbers` for the pairs, which may be listed in any order
and more than once, `mem_virtualWarnings` for the methods where a warning starts, and
`isOpen_put_warn` for what becomes of an open method that takes one.
-/

namespace HazardTrace

namespace Overrides

variable {base overriding b d : Nat}

/-- The overrides among methods that are given by number, each pair a base and a method that
overrides it. -/
def ofNumbers (pairs : List (Nat × Nat)) : Overrides :=
  pairs.foldl (fun o p ↦ o.add p.1 p.2) {}

/-- One pair more. -/
theorem mem_of_add (o : Overrides) :
    d ∈ (o.add base overriding).of b ↔ (b, d) = (base, overriding) ∨ d ∈ o.of b := by
  rw [of_add, Prod.mk.injEq]
  by_cases hb : base = b
  · subst hb
    by_cases hknown : overriding ∈ o.of base
    · rw [if_neg fun h ↦ h.2 hknown]
      exact ⟨.inr, fun h ↦ h.elim (fun heq ↦ heq.2 ▸ hknown) id⟩
    · rw [if_pos ⟨rfl, hknown⟩, List.mem_append, List.mem_singleton]
      exact ⟨fun h ↦ h.symm.imp (fun heq ↦ ⟨rfl, heq⟩) id, fun h ↦ (h.imp And.right id).symm⟩
  · rw [if_neg fun h ↦ hb h.1]
    exact ⟨.inr, fun h ↦ h.elim (fun heq ↦ absurd heq.1.symm hb) id⟩

theorem mem_of_foldl_add (pairs : List (Nat × Nat)) (o : Overrides) :
    d ∈ (pairs.foldl (fun o p ↦ o.add p.1 p.2) o).of b ↔ (b, d) ∈ pairs ∨ d ∈ o.of b := by
  induction pairs generalizing o with
  | nil => simp
  | cons p pairs ih => rw [List.foldl_cons, ih, mem_of_add, List.mem_cons, or_left_comm, or_assoc]

/-- The methods that override a base are those it was paired with. -/
theorem mem_of_ofNumbers {pairs : List (Nat × Nat)} :
    d ∈ (ofNumbers pairs).of b ↔ (b, d) ∈ pairs := by
  have hnone : d ∉ ({} : Overrides).of b := by simp [of]
  rw [ofNumbers, mem_of_foldl_add]
  exact or_iff_left hnone

end Overrides

namespace Marking

variable {m : Marking} {pairs : List (Nat × Nat)} {isVirtual : Array Bool} {a : Note} {r : Remark}
  {b c k node o : Nat}

/-! ### Open methods -/

/-- Can the method still take a note? A number that no method has is not open. -/
def isOpen (m : Marking) (node : Nat) : Bool :=
  m.marks[node]?.any Mark.isOpen

/-- A configured note closes a method. -/
theorem isOpen_eq_false_of_note? (h : m.note? node = some a) (ha : a.isConfigured = true) :
    m.isOpen node = false := by
  obtain ⟨mark, hmark, hnote⟩ := Option.bind_eq_some_iff.1 h
  simp [isOpen, hmark, Mark.isOpen, hnote, ha]

/-- A method that is there and not open has a configured note. -/
theorem exists_note?_of_isOpen_eq_false (hnode : node < m.size) (h : m.isOpen node = false) :
    ∃ a, m.note? node = some a ∧ a.isConfigured = true := by
  obtain ⟨mark, hmark⟩ : ∃ mark, m.marks[node]? = some mark := ⟨_, Array.getElem?_eq_getElem hnode⟩
  have hconfigured : mark.note.any Note.isConfigured = true := by
    simpa [isOpen, hmark, Mark.isOpen] using h
  simpa [note?, hmark] using (Option.any_eq_true _ _).1 hconfigured

/-- The mark of a method after a note has been put on one. -/
theorem getElem?_put (m : Marking) (node i : Nat) (a : Note) :
    (m.put node a).marks[i]? =
      if node = i then m.marks[i]?.map fun mark ↦ { mark with note := some a } else m.marks[i]? := by
  rw [put, Array.getElem?_modify]

/-- A method that takes a warning is closed by it, and no other is. -/
theorem isOpen_put_warn (m : Marking) (node : Nat) (r : Remark) (i : Nat) :
    (m.put node (.warn r)).isOpen i = (m.isOpen i && !decide (node = i)) := by
  rw [isOpen, getElem?_put, isOpen]
  by_cases hi : node = i
  · rw [if_pos hi, decide_eq_true hi]
    cases m.marks[i]? <;> simp [Mark.isOpen, Note.isConfigured, Note.isUnanalyzed]
  · simp [hi]

/-- An open method takes the note that is put on it. -/
theorem note?_put_self (h : m.isOpen node = true) (a : Note) :
    (m.put node a).note? node = some a := by
  obtain ⟨mark, hmark, -⟩ := (Option.any_eq_true _ _).1 h
  rw [note?, getElem?_put, if_pos rfl, hmark]
  rfl

/-- What is closed keeps its note when an open method takes one. -/
theorem note?_put_of_closed (h : m.isOpen node = true) (a : Note) (ho : m.isOpen o = false) :
    (m.put node a).note? o = m.note? o := by
  have hne : node ≠ o := by
    rintro rfl
    cases h.symm.trans ho
  rw [note?, getElem?_put, if_neg hne, note?]

/-! ### Descent -/

/-- `o` overrides `b` through `k` pairs, and every method on the way behind `b` is open, `o`
included. -/
inductive Descends (m : Marking) (pairs : List (Nat × Nat)) (b : Nat) : Nat → Nat → Prop
  | refl : Descends m pairs b 0 b
  | step {k c o : Nat} : Descends m pairs b k c → (c, o) ∈ pairs → m.isOpen o = true →
      Descends m pairs b (k + 1) o

/-- `b` is virtual and carries the warning `r`. -/
structure Issues (m : Marking) (isVirtual : Array Bool) (r : Remark) (b : Nat) : Prop where
  note? : m.note? b = some (.warn r)
  isVirtual : isVirtual[b]? = some true

/-- The warning `r` of a virtual method comes down to `o` in `k` steps. -/
def Inherits (m : Marking) (pairs : List (Nat × Nat)) (isVirtual : Array Bool) (r : Remark)
    (k o : Nat) : Prop :=
  ∃ b, m.Issues isVirtual r b ∧ m.Descends pairs b k o

/-- No warning is taken where one starts. -/
theorem Issues.isOpen_eq_false (h : m.Issues isVirtual r b) : m.isOpen b = false :=
  isOpen_eq_false_of_note? h.note? rfl

theorem Issues.inherits (h : m.Issues isVirtual r b) : m.Inherits pairs isVirtual r 0 b :=
  ⟨b, h, .refl⟩

/-- A warning goes on to an open method that overrides the one it has come to. -/
theorem Inherits.step (h : m.Inherits pairs isVirtual r k c) (hpair : (c, o) ∈ pairs)
    (hopen : m.isOpen o = true) : m.Inherits pairs isVirtual r (k + 1) o := by
  obtain ⟨b, hb, hline⟩ := h
  exact ⟨b, hb, hline.step hpair hopen⟩

theorem Inherits.issues (h : m.Inherits pairs isVirtual r 0 o) : m.Issues isVirtual r o := by
  obtain ⟨b, hb, hline⟩ := h
  cases hline
  exact hb

/-- What comes down in some steps came down to the base in one less, and stops at no closed
method. -/
theorem Inherits.exists_base (h : m.Inherits pairs isVirtual r (k + 1) o) :
    ∃ c, m.Inherits pairs isVirtual r k c ∧ (c, o) ∈ pairs ∧ m.isOpen o = true := by
  obtain ⟨b, hb, hline⟩ := h
  obtain _ | ⟨hline, hpair, hopen⟩ := hline
  exact ⟨_, ⟨b, hb, hline⟩, hpair, hopen⟩

/-- A warning comes down to `o` in `k` steps, and none does in fewer. -/
structure Nearest (m : Marking) (pairs : List (Nat × Nat)) (isVirtual : Array Bool) (r : Remark)
    (k o : Nat) : Prop where
  inherits : m.Inherits pairs isVirtual r k o
  le : ∀ r' k', m.Inherits pairs isVirtual r' k' o → k ≤ k'

/-- The virtual methods with a warning, each with its warning. -/
theorem mem_virtualWarnings : (b, r) ∈ m.virtualWarnings isVirtual ↔ m.Issues isVirtual r b := by
  have hnote : m.note? b = some (.warn r) ↔
      ∃ mark, m.marks[b]? = some mark ∧ mark.note = some (.warn r) := Option.bind_eq_some_iff
  rw [virtualWarnings, List.mem_filterMap]
  constructor
  · rintro ⟨⟨mark, i⟩, hmem, heq⟩
    have hmark : m.marks[i]? = some mark := by simpa using List.mem_zipIdx_iff_getElem?.1 hmem
    dsimp only at heq
    split at heq
    next r' hr' =>
      obtain ⟨hvirtual, heq⟩ := Option.ite_none_right_eq_some.1 heq
      obtain ⟨rfl, rfl⟩ := Prod.mk.inj (Option.some.inj heq)
      refine ⟨hnote.2 ⟨mark, hmark, hr'⟩, ?_⟩
      simpa [Option.getD_eq_iff] using hvirtual
    · cases heq
  · rintro ⟨hissue, hvirtual⟩
    obtain ⟨mark, hmark, hr⟩ := hnote.1 hissue
    refine ⟨(mark, b), List.mem_zipIdx_iff_getElem?.2 (by simpa using hmark), ?_⟩
    simp [hr, hvirtual]

end Marking

end HazardTrace
