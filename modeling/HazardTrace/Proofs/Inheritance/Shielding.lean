import HazardTrace.Proofs.Inheritance.Exactness
import Mathlib.Logic.Relation

/-!
# Where inheritance does not reach

A method that keeps a configured note of its own passes nothing on, unless it is virtual and the
note is a warning. So a suppression, or a warning on a method that is not virtual, shields the
overrides below it (`Shields`): a transitive override of a virtual method with a warning can be left
without any configured note (`not_forall_override_closed`). That is the only way. A method is left
open if and only if every line of overrides that comes down to it from a warning is shielded
somewhere in between (`left_open_iff_shielded`).

Both directions are about lines, that is lists of methods of which each overrides the one before.

* If a method has taken a warning, the warning has come down along some line on which all methods
  between the ends were open (`Inherits.exists_line`), and an open method shields nothing.
* Along a line that nothing shields a warning comes down to the end, though it need not be the one
  that set out: a method in between takes a warning or has one of its own to pass on
  (`isOpen_or_issues_of_not_shields`). The induction is therefore on the line, for all warnings at
  once (`Settled.isOpen_eq_false_of_line`).

Which warnings are there after inheritance is known from `settled_inherit`. Here only open and
closed are told apart.
-/

namespace HazardTrace

namespace Marking

variable {m : Marking} {pairs : List (Nat × Nat)} {isVirtual : Array Bool} {r : Remark}
  {b c k o : Nat}

/-- `c` has a configured note and passes no warning on. -/
def Shields (m : Marking) (isVirtual : Array Bool) (c : Nat) : Prop :=
  (∃ r, m.note? c = some (.suppress r)) ∨
    (∃ r, m.note? c = some (.warn r)) ∧ isVirtual[c]? ≠ some true

theorem Shields.isOpen_eq_false (h : m.Shields isVirtual c) : m.isOpen c = false := by
  rcases h with ⟨r, hr⟩ | ⟨⟨r, hr⟩, -⟩
  · exact isOpen_eq_false_of_note? hr rfl
  · exact isOpen_eq_false_of_note? hr rfl

/-- A method that does not shield takes a warning, or has one of its own to pass on. -/
theorem isOpen_or_issues_of_not_shields (hc : c < m.size) (h : ¬ m.Shields isVirtual c) :
    m.isOpen c = true ∨ ∃ r, m.Issues isVirtual r c := by
  by_cases hopen : m.isOpen c = true
  · exact .inl hopen
  · obtain ⟨a, ha, hconfigured⟩ :=
      exists_note?_of_isOpen_eq_false hc (Bool.eq_false_iff.2 hopen)
    refine .inr ?_
    cases a with
    | warn r =>
      by_cases hvirtual : isVirtual[c]? = some true
      · exact ⟨r, ha, hvirtual⟩
      · exact absurd (.inr ⟨⟨r, ha⟩, hvirtual⟩) h
    | suppress r => exact absurd (.inl ⟨r, ha⟩) h
    | unanalyzed calls => cases hconfigured

/-- A warning comes down along a line of open methods. -/
theorem Inherits.exists_line (h : m.Inherits pairs isVirtual r (k + 1) o) :
    ∃ b line, m.Issues isVirtual r b ∧
      (b :: (line ++ [o])).IsChain (fun c d ↦ (c, d) ∈ pairs) ∧ ∀ c ∈ line, m.isOpen c = true := by
  induction k generalizing o with
  | zero =>
    obtain ⟨c, hc, hpair, -⟩ := h.exists_base
    exact ⟨c, [], hc.issues, by simpa using hpair, by simp⟩
  | succ k ih =>
    obtain ⟨c, hc, hpair, -⟩ := h.exists_base
    obtain ⟨-, -, -, hopen⟩ := hc.exists_base
    obtain ⟨b, line, hb, hchain, hline⟩ := ih hc
    refine ⟨b, line ++ [c], hb, ?_, ?_⟩
    · have hlast : (b :: (line ++ [c])).getLast? = some c := by
        rw [← List.cons_append, List.getLast?_concat]
      rw [← List.cons_append]
      refine List.isChain_append.2 ⟨hchain, .singleton o, ?_⟩
      intro x hx y hy
      rw [hlast] at hx
      obtain rfl := Option.some.inj hx
      obtain rfl := Option.some.inj hy
      exact hpair
    · intro x hx
      rcases List.mem_append.1 hx with hx | hx
      · exact hline x hx
      · obtain rfl := List.mem_singleton.1 hx
        exact hopen

end Marking

namespace Inheritance

open Marking

variable {m m' : Marking} {pairs : List (Nat × Nat)} {isVirtual : Array Bool} {r : Remark}
  {c k o : Nat}

/-- A line that nothing shields brings a warning to each of its methods, and closes the last one. -/
theorem Settled.isOpen_eq_false_of_line (h : Settled m pairs isVirtual m')
    (hpairs : ∀ p ∈ pairs, p.1 < m.size ∧ p.2 < m.size) {line : List Nat}
    (hc : m.Inherits pairs isVirtual r k c)
    (hchain : (c :: (line ++ [o])).IsChain (fun c d ↦ (c, d) ∈ pairs))
    (hfree : ∀ x ∈ line, ¬ m.Shields isVirtual x) : m'.isOpen o = false := by
  induction line generalizing c r k with
  | nil =>
    have hpair : (c, o) ∈ pairs := by simpa using hchain
    exact h.served r k c o hc hpair
  | cons x line ih =>
    obtain ⟨hpair, hchain⟩ := List.isChain_cons_cons.1 hchain
    have hrest := fun y hy ↦ hfree y (List.mem_cons_of_mem x hy)
    rcases isOpen_or_issues_of_not_shields (hpairs _ hpair).2 (hfree x List.mem_cons_self) with
      hopen | ⟨r', hissues⟩
    · exact ih (hc.step hpair hopen) hchain hrest
    · exact ih hissues.inherits hchain hrest

/-- **A method is left open exactly if it is shielded.** After inheritance a method is without
configured note if and only if it was so before, and every line of overrides that leads to it from a
virtual method with a warning has a method in between that shields it. -/
theorem left_open_iff_shielded (m : Marking) (pairs : List (Nat × Nat)) (isVirtual : Array Bool)
    (hpairs : ∀ p ∈ pairs, p.1 < m.size ∧ p.2 < m.size) (o : Nat) :
    (m.inherit (.ofNumbers pairs) isVirtual).value.2.isOpen o = true ↔
      m.isOpen o = true ∧ ∀ b r line, m.Issues isVirtual r b →
        (b :: (line ++ [o])).IsChain (fun c d ↦ (c, d) ∈ pairs) →
          ∃ c ∈ line, m.Shields isVirtual c := by
  have hsettled := settled_inherit m pairs isVirtual
  constructor
  · intro hopen
    refine ⟨?_, fun b r line hb hchain ↦ ?_⟩
    · rcases hsettled.marks o with hsame | ⟨r, k, htook⟩
      · rwa [isOpen, hsame] at hopen
      · exact htook.isOpen
    · by_contra hnone
      have hfree : ∀ c ∈ line, ¬ m.Shields isVirtual c := fun c hc hshields ↦
        hnone ⟨c, hc, hshields⟩
      rw [hsettled.isOpen_eq_false_of_line hpairs hb.inherits hchain hfree] at hopen
      cases hopen
  · rintro ⟨hopen, hlines⟩
    rcases hsettled.marks o with hsame | ⟨r, k, htook⟩
    · rwa [isOpen, hsame]
    · -- a warning that was taken came along open methods, and these do not shield
      obtain ⟨k, rfl⟩ := Nat.exists_eq_add_of_le' htook.one_le
      obtain ⟨b, line, hb, hchain, hline⟩ := htook.nearest.inherits.exists_line
      obtain ⟨c, hc, hshields⟩ := hlines b r line hb hchain
      have hclosed := hshields.isOpen_eq_false
      rw [hline c hc] at hclosed
      cases hclosed

/-- A virtual method with a warning, a suppressed method that overrides it, and a method without
note that overrides that one. -/
def suppressedBetween : Marking :=
  ⟨#[{ note := some (.warn ⟨"Reflection", "base", .memberTrimming⟩) },
    { note := some (.suppress ⟨"Reflection", "known", .memberTrimming⟩) }, {}]⟩

/-- The last method is left open, and the suppressed one shields it. -/
theorem left_open_iff_shielded_suppressedBetween :
    (suppressedBetween.inherit (.ofNumbers [(0, 1), (1, 2)]) #[true, true, true]).value.2.isOpen 2 =
      true ∧ suppressedBetween.Shields #[true, true, true] 1 := by
  have hopen : (suppressedBetween.inherit (.ofNumbers [(0, 1), (1, 2)])
      #[true, true, true]).value.2.isOpen 2 = true := by decide +kernel
  obtain ⟨-, hlines⟩ := (left_open_iff_shielded suppressedBetween [(0, 1), (1, 2)]
    #[true, true, true] (by decide) 2).1 hopen
  obtain ⟨c, hc, hshields⟩ := hlines 0 _ [1] ⟨rfl, rfl⟩ (by simp)
  obtain rfl := List.mem_singleton.1 hc
  exact ⟨hopen, hshields⟩

/-- Not every transitive override of a virtual method with a warning ends with a configured note. -/
theorem not_forall_override_closed :
    ¬ ∀ (m : Marking) (pairs : List (Nat × Nat)) (isVirtual : Array Bool),
      (∀ p ∈ pairs, p.1 < m.size ∧ p.2 < m.size) →
        ∀ b r o, m.Issues isVirtual r b → Relation.TransGen (fun c d ↦ (c, d) ∈ pairs) b o →
          ∃ a, (m.inherit (.ofNumbers pairs) isVirtual).value.2.note? o = some a ∧
            a.isConfigured = true := by
  intro hall
  have htrans : Relation.TransGen (fun c d ↦ (c, d) ∈ [(0, 1), (1, 2)]) 0 2 :=
    .tail (.single (by simp)) (b := 1) (by simp)
  obtain ⟨a, ha, -⟩ := hall suppressedBetween [(0, 1), (1, 2)] #[true, true, true] (by decide) 0 _ 2
    ⟨rfl, rfl⟩ htrans
  have hnone : (suppressedBetween.inherit (.ofNumbers [(0, 1), (1, 2)])
      #[true, true, true]).value.2.note? 2 = none := by decide +kernel
  rw [hnone] at ha
  cases ha

end Inheritance

end HazardTrace
