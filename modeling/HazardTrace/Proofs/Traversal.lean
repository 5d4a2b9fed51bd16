import Mathlib.Data.List.Forall2

/-!
# Traversals

A list is traversed with a computation that may fail. What the traversal comes to is said member by
member: the results are those of the members, in order, or the first member that fails is the fault
of the whole (`mapM_cases`).

`mapM_eq_some_iff` and `mapM_eq_ok_iff` say when a traversal succeeds, by `List.Forall₂`: each
member has the result that stands in its place. The reading of a list of rules and that of a list of
files are traversals, and what is known of one entry is carried to the list in this way.

Two traversals of one list are compared through `List.Forall₂` as well. `forall₂_of_common` relates
their results if they are related member by member, and `exists_forall₂` makes a second list of
results where each single one can be carried over. With results that are lists themselves,
`mem_flatten_iff` says what is in their concatenation.
-/

namespace HazardTrace

variable {α β γ ε : Type} {l : List α} {bs : List β}

/-! ### Lists that are related member by member -/

section Related

variable {R : α → β → Prop} (h : List.Forall₂ R l bs)
include h

/-- A member of the first list has a partner in the second. -/
theorem exists_right_of_mem {a : α} (ha : a ∈ l) : ∃ b ∈ bs, R a b := by
  induction h with
  | nil => cases ha
  | @cons a' b l bs hab _ ih =>
    rcases List.mem_cons.1 ha with rfl | ha
    · exact ⟨b, List.mem_cons_self, hab⟩
    · obtain ⟨c, hc, hac⟩ := ih ha
      exact ⟨c, List.mem_cons_of_mem b hc, hac⟩

theorem exists_left_of_mem {b : β} (hb : b ∈ bs) : ∃ a ∈ l, R a b :=
  exists_right_of_mem h.flip hb

/-- Another relation holds between the lists if it holds between partners. -/
theorem forall₂_of_mem {S : α → β → Prop} (himp : ∀ a ∈ l, ∀ b ∈ bs, R a b → S a b) :
    List.Forall₂ S l bs := by
  induction h with
  | nil => exact .nil
  | @cons a b l bs hab _ ih =>
    exact .cons (himp a List.mem_cons_self b List.mem_cons_self hab) (ih fun a' ha' b' hb' ↦
      himp a' (List.mem_cons_of_mem a ha') b' (List.mem_cons_of_mem b hb'))

/-- Two lists that are related to one list are related to each other. -/
theorem forall₂_of_common {S : α → γ → Prop} {T : β → γ → Prop} {cs : List γ}
    (h' : List.Forall₂ S l cs) (himp : ∀ a b c, R a b → S a c → T b c) : List.Forall₂ T bs cs := by
  induction h generalizing cs with
  | nil =>
    cases h'
    exact .nil
  | cons hab _ ih =>
    cases h' with
    | cons hac hlcs => exact .cons (himp _ _ _ hab hac) (ih hlcs)

/-- Results that can be carried over one by one can be carried over as a list. -/
theorem exists_forall₂ {S : α → γ → Prop} {T : β → γ → Prop}
    (hstep : ∀ a ∈ l, ∀ b, R a b → ∃ c, S a c ∧ T b c) :
    ∃ cs, List.Forall₂ S l cs ∧ List.Forall₂ T bs cs := by
  induction h with
  | nil => exact ⟨[], .nil, .nil⟩
  | @cons a b l bs hab _ ih =>
    obtain ⟨c, hac, hbc⟩ := hstep a List.mem_cons_self b hab
    obtain ⟨cs, hlcs, hbscs⟩ := ih fun a' ha' ↦ hstep a' (List.mem_cons_of_mem a ha')
    exact ⟨c :: cs, .cons hac hlcs, .cons hbc hbscs⟩

end Related

/-! ### Traversals -/

/-- A traversal has a result if each member has one. -/
theorem mapM_eq_some_iff {f : α → Option β} :
    l.mapM f = some bs ↔ List.Forall₂ (fun a b ↦ f a = some b) l bs := by
  induction l generalizing bs with
  | nil => simp [eq_comm]
  | cons a l ih =>
    rw [List.mapM_cons, List.forall₂_cons_left_iff]
    simp only [Option.bind_eq_bind, Option.bind_eq_some_iff, Option.pure_def, Option.some.injEq, ih]
    constructor
    · rintro ⟨b, hb, bs', hbs', rfl⟩
      exact ⟨b, bs', hb, hbs', rfl⟩
    · rintro ⟨b, bs', hb, hbs', rfl⟩
      exact ⟨b, hb, bs', hbs', rfl⟩

/-- **What a traversal comes to.** It collects the results in order, or it fails as the first member
does that fails. -/
theorem mapM_cases (f : α → Except ε β) (l : List α) :
    (∃ bs, l.mapM f = .ok bs ∧ List.Forall₂ (fun a b ↦ f a = .ok b) l bs) ∨
    ∃ before a after e, l = before ++ a :: after ∧ (∀ b ∈ before, ∃ c, f b = .ok c) ∧
      f a = .error e ∧ l.mapM f = .error e := by
  induction l with
  | nil => exact .inl ⟨[], rfl, .nil⟩
  | cons a l ih =>
    rw [List.mapM_cons]
    cases ha : f a with
    | error e => exact .inr ⟨[], a, l, e, rfl, by simp, ha, rfl⟩
    | ok b =>
      rcases ih with ⟨bs, hbs, hall⟩ | ⟨before, a', after, e, rfl, hbefore, ha', herror⟩
      · exact .inl ⟨b :: bs, by rw [hbs]; rfl, .cons ha hall⟩
      · refine .inr ⟨a :: before, a', after, e, rfl, ?_, ha', by rw [herror]; rfl⟩
        exact List.forall_mem_cons.2 ⟨⟨b, ha⟩, hbefore⟩

/-- The same for computations that say how they fail. -/
theorem mapM_eq_ok_iff {f : α → Except ε β} :
    l.mapM f = .ok bs ↔ List.Forall₂ (fun a b ↦ f a = .ok b) l bs := by
  constructor
  · intro h
    rcases mapM_cases f l with ⟨bs', hbs', hall⟩ | ⟨_, _, _, e, -, -, -, herror⟩
    · rw [h] at hbs'
      cases hbs'
      exact hall
    · rw [h] at herror
      cases herror
  · intro h
    induction h with
    | nil => rfl
    | cons hab _ ih =>
      rw [List.mapM_cons, hab, ih]
      rfl

/-- What a traversal collects, if each member gives a list. -/
theorem mem_flatten_iff {f : α → Except ε (List β)} {parts : List (List β)} {b : β}
    (h : List.Forall₂ (fun a part ↦ f a = .ok part) l parts) :
    b ∈ parts.flatten ↔ ∃ a ∈ l, ∃ part, f a = .ok part ∧ b ∈ part := by
  rw [List.mem_flatten]
  constructor
  · rintro ⟨part, hpart, hb⟩
    obtain ⟨a, ha, hok⟩ := exists_left_of_mem h hpart
    exact ⟨a, ha, part, hok, hb⟩
  · rintro ⟨a, ha, part, hok, hb⟩
    obtain ⟨part', hpart', hok'⟩ := exists_right_of_mem h ha
    cases hok.symm.trans hok'
    exact ⟨part, hpart', hb⟩

end HazardTrace
