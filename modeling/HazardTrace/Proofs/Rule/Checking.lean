import HazardTrace.Proofs.Rule.Drafts

/-!
# Rule files are taken as a whole

A rule file is accepted if every draft in it is valid, and otherwise it is refused with the fault of
the first draft that is not. What is said here is said of the fields of a draft alone:

* `Draft.Valid`: what a valid draft is. It names one action, some methods and a known aspect.
* `Draft.Gives`: which rule it gives. A valid draft is not changed; only the category has a default.
* `Draft.Fails`: which of several faults counts. Actions come before methods, and methods before the
  aspect.

`Draft.check_cases` compares this with what the check of one draft does. The actions of a draft are
counted in two ways, as a list by the check and by their fields here, and `actions_cases` brings the
two together. Validity and faults exclude each other (`Fails.not_valid`), so that it is enough to
know what the check comes to.

From drafts it is carried to files by the lemmas on traversals (`parse_cases`): the check stops at
the first draft that fails, and the drafts before it are valid. `parse_exact` states the result as a
whole. Its hypothesis is that the text can be read as a list of drafts; what these drafts have to do
with the text is a part of the conclusion (`exists_written`), so that nothing is said of drafts
which are not in the file.
-/

namespace HazardTrace

open Json (listOf?)

namespace Aspect

variable {s : String} {a : Aspect}

/-- An aspect that is found by a name has this name. -/
theorem name_of_ofName? (h : ofName? s = some a) : a.name = s :=
  beq_iff_eq.1 (List.find?_some (p := fun a : Aspect ↦ a.name == s) h)

theorem name_ne_of_ofName? (h : ofName? s = none) (a : Aspect) : a.name ≠ s := by
  rintro rfl
  rw [ofName?_name] at h
  cases h

end Aspect

namespace Rule

/-- The texts under `Warn`, `Suppress` and `Safe` of a draft with this action alone. -/
def Action.texts : Action → Option String × Option String × Option String
  | .warn text => (some text, none, none)
  | .suppress text => (none, some text, none)
  | .safe text => (none, none, some text)

namespace Draft

variable {path : String} {d : Draft} {r : Rule} {fault : Fault}

/-- How many actions a draft names. -/
def actionCount (d : Draft) : Nat :=
  [d.warn, d.suppress, d.safe].countP Option.isSome

/-- A draft that names one action, some methods and a known aspect. -/
structure Valid (d : Draft) : Prop where
  action : d.actionCount = 1
  methods : d.methods ≠ none
  aspect : ∃ a : Aspect, d.aspect = some a.name

/-- The rule says what the draft does, and where it comes from. -/
structure Gives (path : String) (d : Draft) (r : Rule) : Prop where
  typeName : r.typeName = d.typeName
  methods : d.methods = some r.patterns
  aspect : d.aspect = some r.aspect.name
  category : r.category = d.category.getD Note.defaultCategory
  action : (d.warn, d.suppress, d.safe) = r.action.texts
  source : r.source = path

/-- The fault that counts: a fault of the actions before one of the methods, and this before one of
the aspect. -/
def Fails (d : Draft) : Fault → Prop
  | .severalActions => 1 < d.actionCount
  | .noAction => d.actionCount = 0
  | .noMethods => d.actionCount = 1 ∧ d.methods = none
  | .noAspect => d.actionCount = 1 ∧ d.methods ≠ none ∧ d.aspect = none
  | .unknownAspect name => d.actionCount = 1 ∧ d.methods ≠ none ∧ d.aspect = some name ∧
      ∀ a : Aspect, a.name ≠ name

/-- A draft with a fault is not valid. -/
theorem Fails.not_valid (h : d.Fails fault) : ¬ d.Valid := by
  rintro ⟨haction, hmethods, a, ha⟩
  cases fault with
  | severalActions | noAction =>
    simp only [Fails] at h
    omega
  | noMethods => exact hmethods h.2
  | noAspect =>
    rw [h.2.2] at ha
    cases ha
  | unknownAspect name =>
    rw [h.2.2.1] at ha
    exact h.2.2.2 a (Option.some.inj ha).symm

/-- A draft with the texts of one action names one. -/
theorem actionCount_of_texts {a : Action} (h : (d.warn, d.suppress, d.safe) = a.texts) :
    d.actionCount = 1 := by
  unfold actionCount
  cases a with
  | warn | suppress | safe =>
    simp only [Action.texts, Prod.mk.injEq] at h
    simp [h]

theorem Gives.valid (h : d.Gives path r) : d.Valid :=
  ⟨actionCount_of_texts h.action, by simp [h.methods], r.aspect, h.aspect⟩

/-- The actions of a draft are none, one or several. -/
theorem actions_cases (d : Draft) :
    (d.actions = [] ∧ d.actionCount = 0) ∨
    (∃ a : Action, d.actions = [a] ∧ (d.warn, d.suppress, d.safe) = a.texts) ∨
    ∃ a b l, d.actions = a :: b :: l ∧ 1 < d.actionCount := by
  unfold actions actionCount
  rcases d.warn with - | w <;> rcases d.suppress with - | s <;> rcases d.safe with - | f
  · exact .inl ⟨rfl, rfl⟩
  · exact .inr (.inl ⟨.safe f, rfl, rfl⟩)
  · exact .inr (.inl ⟨.suppress s, rfl, rfl⟩)
  · exact .inr (.inr ⟨_, _, _, rfl, by simp⟩)
  · exact .inr (.inl ⟨.warn w, rfl, rfl⟩)
  · exact .inr (.inr ⟨_, _, _, rfl, by simp⟩)
  · exact .inr (.inr ⟨_, _, _, rfl, by simp⟩)
  · exact .inr (.inr ⟨_, _, _, rfl, by simp⟩)

/-- **What the check of a draft comes to.** -/
theorem check_cases (path : String) (d : Draft) :
    (∃ r, d.check path = .ok r ∧ d.Gives path r) ∨
    ∃ fault, d.check path = .error fault ∧ d.Fails fault := by
  rcases d.actions_cases with ⟨hactions, hcount⟩ | ⟨a, hactions, htexts⟩ | ⟨a, b, l, hactions, hcount⟩
  · exact .inr ⟨.noAction, by rw [check, hactions]; rfl, hcount⟩
  · have hcount := actionCount_of_texts htexts
    cases hmethods : d.methods with
    | none => exact .inr ⟨.noMethods, by rw [check, hactions, hmethods]; rfl, hcount, hmethods⟩
    | some patterns =>
      have hsome : d.methods ≠ none := by simp [hmethods]
      cases haspect : d.aspect with
      | none =>
        exact .inr ⟨.noAspect, by rw [check, hactions, hmethods, haspect]; rfl, hcount, hsome, haspect⟩
      | some name =>
        cases hname : Aspect.ofName? name with
        | none =>
          refine .inr ⟨.unknownAspect name, ?_, hcount, hsome, haspect, Aspect.name_ne_of_ofName? hname⟩
          simp only [check, hactions, hmethods, haspect, hname]
          rfl
        | some aspect =>
          refine .inl ⟨_, by simp only [check, hactions, hmethods, haspect, hname]; rfl, ?_⟩
          exact ⟨rfl, hmethods, by rw [haspect, Aspect.name_of_ofName? hname], rfl, htexts, rfl⟩
  · exact .inr ⟨.severalActions, by rw [check, hactions]; rfl, hcount⟩

end Draft

/-! ### Files -/

section File

variable (path : String) {text : String} {drafts : List Draft}
  (h : (Json.parse? (Json.stripComments text)).bind (listOf? Draft.decode?) = some drafts)
include h

/-- The drafts of a file say what is written in it. -/
theorem exists_written : ∃ items, Json.parse? (Json.stripComments text) = some (.arr items) ∧
    List.Forall₂ Draft.Written items drafts := by
  obtain ⟨v, hv, hdrafts⟩ := Option.bind_eq_some_iff.1 h
  cases v with
  | arr items =>
    exact ⟨items, hv, (mapM_eq_some_iff.1 hdrafts).imp fun _ _ ↦ Draft.written_of_decode?⟩
  | null | bool _ | num _ | str _ | obj _ | illFormed => cases hdrafts

/-- **What becomes of a file**: each draft gives its rule, or the first that fails fails the
file. -/
theorem parse_cases :
    (∃ rules, parse path text = .ok rules ∧ List.Forall₂ (Draft.Gives path) drafts rules) ∨
    ∃ before d after fault, drafts = before ++ d :: after ∧ (∀ b ∈ before, b.Valid) ∧
      d.Fails fault ∧ parse path text = .error (.config path (fault.message d.typeName)) := by
  have hparse : parse path text = drafts.mapM fun d ↦
      (d.check path).mapError fun fault ↦ .config path (fault.message d.typeName) := by
    rw [parse, h]
  rw [hparse]
  rcases mapM_cases (fun d : Draft ↦ (d.check path).mapError fun fault ↦
      Error.config path (fault.message d.typeName)) drafts with
    ⟨rules, hrules, hall⟩ | ⟨before, d, after, e, hsplit, hbefore, hd, herror⟩
  · refine .inl ⟨rules, hrules, hall.imp fun d r hr ↦ ?_⟩
    rcases d.check_cases path with ⟨r', hcheck, hgives⟩ | ⟨fault, hcheck, -⟩
    · rw [hcheck] at hr
      cases hr
      exact hgives
    · rw [hcheck] at hr
      cases hr
  · refine .inr ⟨before, d, after, ?_⟩
    rcases d.check_cases path with ⟨r, hcheck, -⟩ | ⟨fault, hcheck, hfails⟩
    · rw [hcheck] at hd
      cases hd
    · rw [hcheck] at hd
      cases hd
      refine ⟨fault, hsplit, fun b hb ↦ ?_, hfails, herror⟩
      rcases b.check_cases path with ⟨r, -, hgives⟩ | ⟨fault', hcheck', -⟩
      · exact hgives.valid
      · obtain ⟨c, hc⟩ := hbefore b hb
        rw [hcheck'] at hc
        cases hc

end File

/-- **A file is taken as a whole.** Its drafts say what is written in it, field by field. The file
is accepted if and only if each of them names one action, some methods and a known aspect. Then each
draft gives one rule, in order. Otherwise the file is refused, and the error tells the fault of the
first draft that is not valid. -/
theorem parse_exact (path text : String) (drafts : List Draft)
    (h : (Json.parse? (Json.stripComments text)).bind (listOf? Draft.decode?) = some drafts) :
    (∃ items, Json.parse? (Json.stripComments text) = some (.arr items) ∧
      List.Forall₂ Draft.Written items drafts) ∧
    ((∃ rules, parse path text = .ok rules) ↔ ∀ d ∈ drafts, d.Valid) ∧
    (∀ rules, parse path text = .ok rules → List.Forall₂ (Draft.Gives path) drafts rules) ∧
    ((∃ d ∈ drafts, ¬ d.Valid) → ∃ before d after fault,
      drafts = before ++ d :: after ∧ (∀ b ∈ before, b.Valid) ∧ d.Fails fault ∧
      parse path text = .error (.config path (fault.message d.typeName))) := by
  refine ⟨exists_written h, ?_⟩
  rcases parse_cases path h with
    ⟨rules, hrules, hall⟩ | ⟨before, d, after, fault, hsplit, hbefore, hfails, herror⟩
  · have hvalid : ∀ d ∈ drafts, d.Valid :=
      ((List.forall₂_and_left _ _).1 (hall.imp fun d r hgives ↦ ⟨hgives.valid, hgives⟩)).1
    refine ⟨⟨fun _ ↦ hvalid, fun _ ↦ ⟨rules, hrules⟩⟩, fun rules' hrules' ↦ ?_, ?_⟩
    · cases hrules.symm.trans hrules'
      exact hall
    · rintro ⟨d, hd, hnot⟩
      exact absurd (hvalid d hd) hnot
  · refine ⟨⟨?_, fun hvalid ↦ ?_⟩, fun rules hrules ↦ ?_,
      fun _ ↦ ⟨before, d, after, fault, hsplit, hbefore, hfails, herror⟩⟩
    · rintro ⟨rules, hrules⟩
      cases hrules.symm.trans herror
    · exact absurd (hvalid d (by simp [hsplit])) hfails.not_valid
    · cases hrules.symm.trans herror

/-- Two rules with comments between them. The first is sound; the second gives two actions, one of
them null, and an aspect that is not known. -/
def secondRefused : String :=
  "[\x7b\"Type\":\"T\",\"Methods\":[\"*\"],\"Aspect\":\"SingleFile\",\"Warn\":\"w\"\x7d, // fine\n" ++
  " \x7b\"Type\":\"U\",\"Methods\":[],\"Aspect\":\"Bogus\",\"Safe\":\"s\",\"Warn\":null\x7d]"

/-- The null does not count as an action, so the aspect is what is wrong. -/
theorem parse_exact_secondRefused :
    parse "rules.json" secondRefused = .error (.config "rules.json"
      "annotation for type 'U': Invalid argument: unknown aspect 'Bogus'") := by
  obtain ⟨-, -, -, hrefused⟩ := parse_exact "rules.json" secondRefused
    [{ typeName := "T", methods := some ["*"], aspect := some "SingleFile", warn := some "w" },
      { typeName := "U", methods := some [], aspect := some "Bogus", safe := some "s" }]
    (by decide +kernel)
  have hbogus : ∀ a : Aspect, a.name ≠ "Bogus" := by
    intro a
    cases a <;> decide
  obtain ⟨before, d, after, fault, hsplit, -, hfails, herror⟩ :=
    hrefused ⟨_, List.mem_cons_of_mem _ (List.mem_singleton_self _),
      fun ⟨_, _, a, ha⟩ ↦ hbogus a (Option.some.inj ha).symm⟩
  rcases before with - | ⟨_, - | ⟨_, _⟩⟩
  · cases hsplit
    exact absurd ⟨rfl, by simp, .singleFile, rfl⟩ hfails.not_valid
  · cases hsplit
    cases fault with
    | unknownAspect name =>
      cases hfails.2.2.1
      exact herror
    | severalActions | noAction => simp [Draft.Fails, Draft.actionCount] at hfails
    | noMethods => cases hfails.2
    | noAspect => cases hfails.2.2
  · simp at hsplit

end Rule

end HazardTrace
