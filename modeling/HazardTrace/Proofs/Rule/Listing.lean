import HazardTrace.Proofs.Files.Following
import HazardTrace.Proofs.Files.Order
import HazardTrace.Proofs.Rule.Checking
import HazardTrace.Rule

/-!
# How rule files are listed

Of several rules for a method the one that is read first counts, so it matters in which order files
are read, and this should not depend on how their paths are listed. Two lists name the same paths if
one comes from the other by reordering, repeating and respelling (`Path.Relisted`). Files are
gathered, sorted and read, and the lists are compared at each of these stages.

* A path stands for one file or for those below a directory, in every spelling for the same ones
  (`expand_of_alike`). The files below a directory are found under other paths then, which are alike
  again (`FileSystem.Twin`).
* All of them together come in one order, in whatever order, number and spelling the paths are given
  (`gather_of_relisted`). Of each file one path is kept, and the two lists may keep different ones.
* The rules in a file are the same under each of its paths, except for the spelling of where they
  come from (`parse_of_components`, `loads_of_relisted`). A rule follows from its draft, which is
  where `parse_cases` is used.

`loadAll_relisted` puts this together. The length of a spelling is the one thing that is not
forgotten, since the system follows no path that is too long. So each lemma asks that the second
list is short enough or that what is looked for is found on it (`FileSystem.AllShort`), and
`not_loads_slashed` shows that this cannot be dropped: it is about a path with so many slashes that
it cannot be followed.
-/

namespace HazardTrace

/-- Two lists of paths that name the same ones, in any order, any number of times and in any
spelling. -/
structure Path.Relisted (ps qs : List String) : Prop where
  left : ∀ p ∈ ps, ∃ q ∈ qs, Path.Respells p q
  right : ∀ q ∈ qs, ∃ p ∈ ps, Path.Respells p q

/-- The two lists are on a par. -/
theorem Path.Relisted.symm {ps qs : List String} (h : Path.Relisted ps qs) :
    Path.Relisted qs ps where
  left q hq := by
    obtain ⟨p, hp, hpq⟩ := h.right q hq
    exact ⟨p, hp, hpq.symm⟩
  right p hp := by
    obtain ⟨q, hq, hpq⟩ := h.left p hp
    exact ⟨q, hq, hpq.symm⟩

/-! ### Attempts -/

section Attempts

variable {α β : Type} {b : β}

/-- An attempt that goes on after another one succeeds if both do. -/
theorem value_bind_eq_ok_iff {x : Attempt α} {f : α → Attempt β} :
    (x >>= f).run.value = .ok b ↔ ∃ a, x.run.value = .ok a ∧ (f a).run.value = .ok b := by
  have hbind : (x >>= f).run.value = (ExceptT.bindCont f x.run.value).value := rfl
  rw [hbind]
  cases x.run.value with
  | error e => simp [ExceptT.bindCont]
  | ok a => simp [ExceptT.bindCont]; rfl

/-- A traversal by attempts succeeds if each attempt does. -/
theorem value_mapM_eq_ok_iff {f : α → Attempt β} {l : List α} {bs : List β} :
    (l.mapM f).run.value = .ok bs ↔ List.Forall₂ (fun a b ↦ (f a).run.value = .ok b) l bs := by
  induction l generalizing bs with
  | nil => simp [eq_comm]
  | cons a l ih =>
    rw [List.mapM_cons, List.forall₂_cons_left_iff]
    simp only [value_bind_eq_ok_iff, ih]
    constructor
    · rintro ⟨b, hb, bs', hbs', hcons⟩
      cases hcons
      exact ⟨b, bs', hb, hbs', rfl⟩
    · rintro ⟨b, bs', hb, hbs', rfl⟩
      exact ⟨b, hb, bs', hbs', rfl⟩

end Attempts

namespace Rule

variable {fs : FileSystem} {p q : String} {ps qs files : List String} {rules : List Rule}

/-- The name of a rule file does not ask for a directory. -/
theorem trailing_of_isFileName {name : String} (h : isFileName name = true) :
    Path.trailing name = none := by
  obtain ⟨ending, hending, hsuffix⟩ := List.any_eq_true.1 h
  obtain ⟨chars, hchars⟩ := List.isSuffixOf_iff_suffix.1 hsuffix
  have hletter : ∃ c, ending.toList.getLast? = some c ∧ c ≠ '/' ∧ c ≠ '.' := by
    simp only [fileEndings, List.mem_cons, List.not_mem_nil, or_false] at hending
    rcases hending with rfl | rfl
    · exact ⟨'n', by decide +kernel, by decide, by decide⟩
    · exact ⟨'c', by decide +kernel, by decide, by decide⟩
  obtain ⟨c, hc, hslash, hdot⟩ := hletter
  refine Path.trailing_eq_none ?_ hslash hdot
  rw [← hchars, List.getLast?_append, hc]
  rfl

/-! ### Files that are gathered -/

/-- A directory stands for the rule files below it. -/
theorem expand_eq_ok_iff {place : Place} (hstat : fs.stat p = .ok (place, .directory)) :
    expand fs p = .ok files ↔ fs.filesBelow isFileName place p = some files := by
  simp only [expand, hstat]
  cases fs.filesBelow isFileName place p <;> simp

theorem exists_stat_of_expand (h : expand fs p = .ok files) :
    ∃ landing, fs.stat p = .ok landing := by
  cases hstat : fs.stat p with
  | error fault =>
    rw [expand, hstat] at h
    cases h
  | ok landing => exact ⟨landing, rfl⟩

/-- **A path stands for the same files in every spelling**, unless this leads to paths that are too
long. -/
theorem expand_of_alike (hpq : Path.Alike p q) (hmeets : fs.Meets qs q)
    (h : expand fs p = .ok files)
    (hq : fs.AllShort qs ∨ ∃ files', expand fs q = .ok files') :
    ∃ files', expand fs q = .ok files' ∧ List.Forall₂ (fs.Twin qs) files files' := by
  obtain ⟨⟨place, entry⟩, hstat⟩ := exists_stat_of_expand h
  have hstat' : fs.stat q = .ok (place, entry) :=
    FileSystem.stat_of_alike hpq hstat <|
      hq.imp (fun hshort ↦ hshort q hmeets) fun ⟨_, hq⟩ ↦ exists_stat_of_expand hq
  cases entry with
  | directory =>
    obtain ⟨files', hfiles', htwins⟩ := FileSystem.scan_of_alike
      (fun _ ↦ trailing_of_isFileName) hpq hmeets hstat' ((expand_eq_ok_iff hstat).1 h)
      (hq.imp_right fun ⟨_, hq⟩ ↦ Option.isSome_of_eq_some ((expand_eq_ok_iff hstat').1 hq))
    exact ⟨files', (expand_eq_ok_iff hstat').2 hfiles', htwins⟩
  | file bytes =>
    simp only [expand, hstat, hstat'] at h ⊢
    cases h
    have htrailing := FileSystem.trailing_of_stat hstat' nofun
    exact ⟨[q], rfl, .cons ⟨hpq, hmeets, htrailing⟩ .nil⟩
  | link _ | device =>
    simp only [expand, hstat] at h
    cases h

/-- What some paths stand for, all of it sorted. -/
theorem gather_eq_ok_iff : gather fs ps = .ok files ↔ ∃ parts,
    List.Forall₂ (fun p part ↦ expand fs p = .ok part) ps parts ∧
      Path.sorted parts.flatten = files := by
  simp only [gather, ← mapM_eq_ok_iff]
  cases ps.mapM (expand fs) <;> simp [bind, Except.bind, pure, Except.pure]

section Relisted

variable (hlist : Path.Relisted ps qs)
include hlist

/-- Two lists of the same paths stand for the same files, unless this leads to paths that are too
long. -/
theorem exists_parts_of_relisted {parts : List (List String)}
    (hparts : List.Forall₂ (fun p part ↦ expand fs p = .ok part) ps parts)
    (hq : fs.AllShort qs ∨ ∃ files', gather fs qs = .ok files') :
    ∃ parts', List.Forall₂ (fun q part ↦ expand fs q = .ok part) qs parts' ∧
      (∀ f ∈ parts.flatten, ∃ f' ∈ parts'.flatten, fs.Twin qs f f') ∧
      ∀ f' ∈ parts'.flatten, ∃ f ∈ parts.flatten, fs.Twin qs f f' := by
  have hexpand : ∀ q ∈ qs, ∀ p part, Path.Respells p q → expand fs p = .ok part →
      ∃ part', expand fs q = .ok part' ∧ List.Forall₂ (fs.Twin qs) part part' := by
    intro q hqs p part hpq hpart
    refine expand_of_alike hpq.alike (.given hqs) hpart (hq.imp_right ?_)
    rintro ⟨files', hfiles'⟩
    obtain ⟨parts', hparts', -⟩ := gather_eq_ok_iff.1 hfiles'
    obtain ⟨part', -, hpart'⟩ := exists_right_of_mem hparts' hqs
    exact ⟨part', hpart'⟩
  obtain ⟨parts', hparts'⟩ : ∃ parts',
      List.Forall₂ (fun q part ↦ expand fs q = .ok part) qs parts' := by
    rcases mapM_cases (expand fs) qs with
      ⟨parts', -, hparts'⟩ | ⟨before, q, after, e, rfl, -, he, -⟩
    · exact ⟨parts', hparts'⟩
    · have hqs : q ∈ before ++ q :: after := by simp
      obtain ⟨p, hp, hpq⟩ := hlist.right q hqs
      obtain ⟨part, -, hpart⟩ := exists_right_of_mem hparts hp
      obtain ⟨part', hpart', -⟩ := hexpand q hqs p part hpq hpart
      cases he.symm.trans hpart'
  refine ⟨parts', hparts', fun f hf ↦ ?_, fun f' hf' ↦ ?_⟩
  · obtain ⟨p, hp, part, hpart, hf⟩ := (mem_flatten_iff hparts).1 hf
    obtain ⟨q, hqs, hpq⟩ := hlist.left p hp
    obtain ⟨part', hpart', htwins⟩ := hexpand q hqs p part hpq hpart
    obtain ⟨f', hf', htwin⟩ := exists_right_of_mem htwins hf
    exact ⟨f', (mem_flatten_iff hparts').2 ⟨q, hqs, part', hpart', hf'⟩, htwin⟩
  · obtain ⟨q, hqs, part', hpart', hf'⟩ := (mem_flatten_iff hparts').1 hf'
    obtain ⟨p, hp, hpq⟩ := hlist.right q hqs
    obtain ⟨part, -, hpart⟩ := exists_right_of_mem hparts hp
    obtain ⟨part₁, hpart₁, htwins⟩ := hexpand q hqs p part hpq hpart
    cases hpart₁.symm.trans hpart'
    obtain ⟨f, hf, htwin⟩ := exists_left_of_mem htwins hf'
    exact ⟨f, (mem_flatten_iff hparts).2 ⟨p, hp, part, hpart, hf⟩, htwin⟩

/-- **The same files are gathered however the paths are listed**, unless this leads to paths that
are too long. -/
theorem gather_of_relisted (h : gather fs ps = .ok files)
    (hq : fs.AllShort qs ∨ ∃ files', gather fs qs = .ok files') :
    ∃ files', gather fs qs = .ok files' ∧ List.Forall₂ (fs.Twin qs) files files' := by
  obtain ⟨parts, hparts, rfl⟩ := gather_eq_ok_iff.1 h
  obtain ⟨parts', hparts', hleft, hright⟩ := exists_parts_of_relisted hlist hparts hq
  have hsorted : List.Forall₂ (fun f f' ↦ Path.components f = Path.components f')
      (Path.sorted parts.flatten) (Path.sorted parts'.flatten) := by
    refine Path.forall₂_sorted (fun f hf ↦ ?_) fun f' hf' ↦ ?_
    · obtain ⟨f', hf', htwin⟩ := hleft f hf
      exact ⟨f', hf', htwin.alike.components⟩
    · obtain ⟨f, hf, htwin⟩ := hright f' hf'
      exact ⟨f, hf, htwin.alike.components.symm⟩
  refine ⟨_, gather_eq_ok_iff.2 ⟨parts', hparts', rfl⟩, forall₂_of_mem hsorted ?_⟩
  -- the spellings that are kept need not be those of one path, but no file asks for a directory
  intro f hf f' hf' hcomponents
  obtain ⟨_, -, htwin⟩ := hleft f (Path.sorted_subset hf)
  obtain ⟨_, -, htwin'⟩ := hright f' (Path.sorted_subset hf')
  have htrailing : Path.trailing f = none := htwin.alike.trailing.trans htwin.trailing
  exact ⟨Path.alike_of_components hcomponents htrailing htwin'.trailing, htwin'.meets,
    htwin'.trailing⟩

end Relisted

/-! ### Rules that are loaded -/

/-- The rules say the same, and the paths of the files that they come from have the same
components. -/
structure Agrees (r r' : Rule) : Prop where
  content : { r with source := r'.source } = r'
  source : Path.components r.source = Path.components r'.source

theorem Action.texts_injective : Function.Injective Action.texts := by
  intro a b h
  cases a <;> cases b <;> simp_all [texts]

/-- One draft gives rules that agree, under all paths of its file. -/
theorem Draft.Gives.agrees {d : Draft} {r r' : Rule} (h : d.Gives p r) (h' : d.Gives q r')
    (hpq : Path.components p = Path.components q) : Agrees r r' where
  content := by
    have hpatterns : r.patterns = r'.patterns :=
      Option.some.inj (h.methods.symm.trans h'.methods)
    have haspect : r.aspect = r'.aspect := by
      have hname := Option.some.inj (h.aspect.symm.trans h'.aspect)
      rw [← Option.some.injEq, ← Aspect.ofName?_name, hname, Aspect.ofName?_name]
    have haction : r.action = r'.action := Action.texts_injective (h.action.symm.trans h'.action)
    rw [h.typeName, ← h'.typeName, hpatterns, haspect, h.category, ← h'.category, haction]
  source := by
    rw [h.source, h'.source, hpq]

/-- A file gives the same rules under each of its paths. -/
theorem parse_of_components {text : String} (h : parse p text = .ok rules)
    (hpq : Path.components p = Path.components q) :
    ∃ rules', parse q text = .ok rules' ∧ List.Forall₂ Agrees rules rules' := by
  cases hdrafts : (Json.parse? (Json.stripComments text)).bind (Json.listOf? Draft.decode?) with
  | none =>
    rw [parse, hdrafts] at h
    cases h
  | some drafts =>
    rcases parse_cases p hdrafts with ⟨_, hok, hgives⟩ | ⟨_, _, _, _, -, -, -, herror⟩
    · cases h.symm.trans hok
      rcases parse_cases q hdrafts with
        ⟨rules', hok', hgives'⟩ | ⟨before, d, after, fault, rfl, -, hfails, -⟩
      · exact ⟨rules', hok', forall₂_of_common hgives hgives' fun _ _ _ h h' ↦ h.agrees h' hpq⟩
      · obtain ⟨r, -, hr⟩ := exists_right_of_mem hgives (by simp : d ∈ before ++ d :: after)
        exact absurd hr.valid hfails.not_valid
    · cases h.symm.trans herror

/-- The rules of a file are those in its text. -/
theorem loadFile_eq_ok_iff : (loadFile fs p).run.value = .ok rules ↔
    ∃ text, fs.readText p = .ok text ∧ parse p text = .ok rules := by
  simp only [loadFile, value_bind_eq_ok_iff, ExceptT.run_mk, Logged.value_pure]
  constructor
  · rintro ⟨text, htext, _, hparse, -, -, hrules⟩
    cases hrules
    cases hread : fs.readText p with
    | error fault =>
      rw [hread] at htext
      cases htext
    | ok text' =>
      rw [hread] at htext
      cases htext
      exact ⟨text, rfl, hparse⟩
  · rintro ⟨text, htext, hparse⟩
    rw [htext]
    exact ⟨text, rfl, rules, hparse, (), rfl, rfl⟩

/-- A file is loaded under each of its paths, unless one is too long. -/
theorem loadFile_of_twin (h : (loadFile fs p).run.value = .ok rules) (htwin : fs.Twin qs p q)
    (hq : fs.AllShort qs ∨ ∃ rules', (loadFile fs q).run.value = .ok rules') :
    ∃ rules', (loadFile fs q).run.value = .ok rules' ∧ List.Forall₂ Agrees rules rules' := by
  obtain ⟨text, htext, hparse⟩ := loadFile_eq_ok_iff.1 h
  have htext' : fs.readText q = .ok text := by
    refine FileSystem.readText_of_alike htwin.alike htext
      (hq.imp (fun hshort ↦ hshort q htwin.meets) ?_)
    rintro ⟨rules', hrules'⟩
    obtain ⟨_, hread, -⟩ := loadFile_eq_ok_iff.1 hrules'
    exact FileSystem.exists_stat_of_readText hread
  obtain ⟨rules', hparse', hagrees⟩ := parse_of_components hparse htwin.alike.components
  exact ⟨rules', loadFile_eq_ok_iff.2 ⟨text, htext', hparse'⟩, hagrees⟩

/-- Loading the rules that some paths stand for succeeds, and gives these rules. -/
def Loads (fs : FileSystem) (ps : List String) (rules : List Rule) : Prop :=
  (loadAll fs ps).run.value = .ok rules

/-- Rules are loaded file by file. -/
theorem loads_iff : Loads fs ps rules ↔ ∃ files parts, gather fs ps = .ok files ∧
    List.Forall₂ (fun f part ↦ (loadFile fs f).run.value = .ok part) files parts ∧
      parts.flatten = rules := by
  simp only [Loads, loadAll, value_bind_eq_ok_iff, value_mapM_eq_ok_iff, ExceptT.run_mk,
    Logged.value_pure]
  constructor
  · rintro ⟨files, hfiles, parts, hparts, hrules⟩
    cases hrules
    exact ⟨files, parts, hfiles, hparts, rfl⟩
  · rintro ⟨files, parts, hfiles, hparts, rfl⟩
    exact ⟨files, hfiles, parts, hparts, rfl⟩

/-- **Rules are loaded however their files are listed**, unless this leads to paths that are too
long. -/
theorem loads_of_relisted (hlist : Path.Relisted ps qs) (h : Loads fs ps rules)
    (hq : fs.AllShort qs ∨ ∃ rules', Loads fs qs rules') :
    ∃ rules', Loads fs qs rules' ∧ List.Forall₂ Agrees rules rules' := by
  obtain ⟨files, parts, hfiles, hparts, rfl⟩ := loads_iff.1 h
  obtain ⟨files', hfiles', htwins⟩ := gather_of_relisted hlist hfiles <| hq.imp_right <| by
    rintro ⟨rules', hrules'⟩
    obtain ⟨files', _, hfiles', -⟩ := loads_iff.1 hrules'
    exact ⟨files', hfiles'⟩
  have hload : ∀ f' ∈ files', fs.AllShort qs ∨ ∃ part, (loadFile fs f').run.value = .ok part := by
    intro f' hf'
    refine hq.imp_right ?_
    rintro ⟨rules', hrules'⟩
    obtain ⟨files₁, parts', hfiles₁, hparts', -⟩ := loads_iff.1 hrules'
    cases hfiles₁.symm.trans hfiles'
    obtain ⟨part, -, hpart⟩ := exists_right_of_mem hparts' hf'
    exact ⟨part, hpart⟩
  have hpairs : List.Forall₂ (fun f' part ↦ ∃ f, fs.Twin qs f f' ∧
      (loadFile fs f).run.value = .ok part) files' parts :=
    forall₂_of_common htwins hparts fun f _ _ htwin hpart ↦ ⟨f, htwin, hpart⟩
  obtain ⟨parts', hparts', hagrees⟩ := exists_forall₂ hpairs fun f' hf' _ ⟨f, htwin, hpart⟩ ↦
    loadFile_of_twin hpart htwin (hload f' hf')
  exact ⟨parts'.flatten, loads_iff.2 ⟨files', parts', hfiles', hparts', rfl⟩,
    List.rel_flatten hagrees⟩

/-- **How the paths are listed does not matter.** Two lists name the same paths if one comes from
the other by reordering, repeating and respelling. Then the rules are loaded from one if they are
loaded from the other, except that the system follows no path of more than `pathLimit` bytes, and a
spelling can be longer than that. If both are loaded, the same rules come in the same order, and
only the spellings of their sources differ. The files that are gathered stand in strict order. -/
theorem loadAll_relisted (fs : FileSystem) (ps qs : List String) (h : Path.Relisted ps qs) :
    ((∃ rules, Loads fs ps rules) → fs.AllShort qs → ∃ rules, Loads fs qs rules) ∧
    ((∃ rules, Loads fs qs rules) → fs.AllShort ps → ∃ rules, Loads fs ps rules) ∧
    (∀ rules rules', Loads fs ps rules → Loads fs qs rules' → List.Forall₂ Agrees rules rules') ∧
    ∀ files, gather fs ps = .ok files → files.Pairwise Path.Precedes := by
  refine ⟨?_, ?_, ?_, ?_⟩
  · rintro ⟨rules, hrules⟩ hshort
    obtain ⟨rules', hrules', -⟩ := loads_of_relisted h hrules (.inl hshort)
    exact ⟨rules', hrules'⟩
  · rintro ⟨rules, hrules⟩ hshort
    obtain ⟨rules', hrules', -⟩ := loads_of_relisted h.symm hrules (.inl hshort)
    exact ⟨rules', hrules'⟩
  · intro rules rules' hrules hrules'
    obtain ⟨rules₁, hrules₁, hagrees⟩ := loads_of_relisted h hrules (.inr ⟨rules', hrules'⟩)
    cases hrules₁.symm.trans hrules'
    exact hagrees
  · intro files hfiles
    obtain ⟨parts, -, rfl⟩ := gather_eq_ok_iff.1 hfiles
    exact (Path.pairwise_sorted parts.flatten).imp Path.precedes_iff.2

/-! ### A rule file in a directory -/

/-- A rule, as it is written. -/
def loaderText : String :=
  "[\x7b\"Type\":\"Loader\",\"Methods\":[\"Load*\"],\"Aspect\":\"SingleFile\",\"Warn\":\"w\"\x7d]"

def loaderRule : Rule where
  typeName := "Loader"
  patterns := ["Load*"]
  aspect := .singleFile
  category := "Uncategorized"
  action := .warn "w"
  source := "rules/app.json"

def depot : FileSystem where
  entries := [(["rules"], .directory), (["rules", "app.json"], .file loaderText.toUTF8)]

theorem stat_depot :
    depot.stat "rules/app.json" = .ok (["rules", "app.json"], .file loaderText.toUTF8) := by
  have hrules : depot.entry? ([] ++ ["rules"]) = some .directory := rfl
  have hfile : depot.entry? ([] ++ ["rules"] ++ ["app.json"]) =
      some (.file loaderText.toUTF8) := rfl
  have hfollow : depot.follow false FileSystem.linkLimit [] ["rules", "app.json"] =
      .ok (.found ["rules", "app.json"] (.file loaderText.toUTF8)) := by
    rw [depot.follow_name rfl (by decide) (by decide) (by decide) hrules (by simp),
      depot.follow_name hrules (by decide) (by decide) (by decide) hfile (by simp),
      depot.follow_nil hfile]
    rfl
  have hlocate : depot.locate false "rules/app.json" =
      .ok (.found ["rules", "app.json"] (.file loaderText.toUTF8)) := by
    have hsegments : Path.segments "rules/app.json" = ["rules", "app.json"] := by decide
    have habsolute : Path.isAbsolute "rules/app.json" = false := by decide
    rw [FileSystem.locate, if_neg (by decide), if_neg (by decide), if_neg (by decide), hsegments,
      habsolute]
    exact hfollow
  rw [FileSystem.stat, hlocate]

/-- The rule file is found and read. -/
theorem loads_depot : Loads depot ["rules/app.json"] [loaderRule] := by
  have hexpand : expand depot "rules/app.json" = .ok ["rules/app.json"] := by
    rw [expand, stat_depot]
  have htext : depot.readText "rules/app.json" = .ok loaderText := by
    have hdecode : String.fromUTF8? loaderText.toUTF8 = some loaderText := by decide +kernel
    simp only [FileSystem.readText, stat_depot, hdecode]
  have hgather : gather depot ["rules/app.json"] = .ok ["rules/app.json"] :=
    gather_eq_ok_iff.2 ⟨[["rules/app.json"]], .cons hexpand .nil,
      by simp [Path.sorted, Path.dropRepeats]⟩
  have hparse : parse "rules/app.json" loaderText = .ok [loaderRule] := by
    have hoption : (parse "rules/app.json" loaderText).toOption = some [loaderRule] := by
      decide +kernel
    cases hresult : parse "rules/app.json" loaderText with
    | error e =>
      rw [hresult] at hoption
      cases hoption
    | ok rules =>
      rw [hresult] at hoption
      cases hoption
      rfl
  have hload := loadFile_eq_ok_iff.2 ⟨loaderText, htext, hparse⟩
  exact loads_iff.2 ⟨["rules/app.json"], [[loaderRule]], hgather, .cons hload .nil, rfl⟩

/-- The path of the rule file in two other spellings. -/
def respelled : List String :=
  ["rules//app.json", "rules/./app.json"]

theorem relisted_depot : Path.Relisted ["rules/app.json"] respelled := by
  have hslash : Path.Respells "rules/app.json" "rules//app.json" := .slash "rules" "app.json"
  have hdot : Path.Respells "rules/app.json" "rules/./app.json" := .dot "rules" "app.json"
  constructor
  · intro p hp
    rw [List.mem_singleton.1 hp]
    exact ⟨_, List.mem_cons_self, hslash⟩
  · intro q hq
    refine ⟨_, List.mem_singleton_self _, ?_⟩
    simp only [respelled, List.mem_cons, List.not_mem_nil, or_false] at hq
    rcases hq with rfl | rfl
    · exact hslash
    · exact hdot

/-- No path is met but the two that are given. -/
theorem allShort_depot : depot.AllShort respelled := by
  have hshort : ∀ q ∈ respelled, q.utf8ByteSize ≤ FileSystem.pathLimit := by decide
  have hmeets : ∀ q, depot.Meets respelled q → q ∈ respelled := by
    intro q hq
    induction hq with
    | given hq => exact hq
    | @inside q _ place entry _ hstat _ ih =>
      -- both spellings lead to the file, so nothing is met below them
      obtain ⟨p, hp, hpq⟩ := relisted_depot.right q ih
      obtain rfl := List.mem_singleton.1 hp
      cases hstat.symm.trans
        (FileSystem.stat_of_alike hpq.alike stat_depot (.inl (hshort q ih)))
  exact fun q hq ↦ hshort q (hmeets q hq)

/-- Under its other spellings the same rule is loaded from the file. -/
theorem loadAll_relisted_depot : Path.Relisted ["rules/app.json"] respelled ∧
    ∃ rules, Loads depot respelled rules ∧ List.Forall₂ Agrees [loaderRule] rules := by
  obtain ⟨hload, -, hagrees, -⟩ := loadAll_relisted depot _ _ relisted_depot
  obtain ⟨rules, hrules⟩ := hload ⟨_, loads_depot⟩ allShort_depot
  exact ⟨relisted_depot, rules, hrules, hagrees _ _ loads_depot hrules⟩

/-! ### Spellings that are too long -/

/-- Slashes, and the name of the rule file behind them. -/
def slashed : Nat → String
  | 0 => "app.json"
  | n + 1 => "/" ++ slashed n

theorem utf8ByteSize_slashed (n : Nat) : (slashed n).utf8ByteSize = n + 8 := by
  induction n with
  | zero => rfl
  | succ n ih =>
    have hslash : "/".utf8ByteSize = 1 := rfl
    rw [slashed, String.utf8ByteSize_append, ih, hslash]
    omega

/-- Any number of slashes can stand inside a path. -/
theorem respells_slashed (n : Nat) :
    Path.Respells "rules/app.json" ("rules" ++ slashed (n + 1)) := by
  induction n with
  | zero => exact .refl "rules/app.json"
  | succ n ih =>
    have hslash : "rules" ++ slashed (n + 1) = "rules" ++ "/" ++ slashed n := by
      rw [slashed, String.append_assoc]
    have hslashes : "rules" ++ slashed (n + 2) = "rules" ++ "//" ++ slashed n := by
      apply String.toList_injective
      simp [slashed]
    rw [hslashes]
    exact (hslash ▸ ih).trans (.slash "rules" (slashed n))

/-- **A path that loads can have a spelling that does not**, since it is too long to be followed. -/
theorem not_loads_slashed : Path.Relisted ["rules/app.json"] ["rules" ++ slashed 4096] ∧
    (∃ rules, Loads depot ["rules/app.json"] rules) ∧
    ¬ ∃ rules, Loads depot ["rules" ++ slashed 4096] rules := by
  refine ⟨?_, ⟨_, loads_depot⟩, ?_⟩
  · constructor
    · intro p hp
      rw [List.mem_singleton.1 hp]
      exact ⟨_, List.mem_singleton_self _, respells_slashed 4095⟩
    · intro q hq
      rw [List.mem_singleton.1 hq]
      exact ⟨_, List.mem_singleton_self _, respells_slashed 4095⟩
  · rintro ⟨rules, hrules⟩
    obtain ⟨files, -, hfiles, -⟩ := loads_iff.1 hrules
    obtain ⟨parts, hparts, -⟩ := gather_eq_ok_iff.1 hfiles
    obtain ⟨part, -, hpart⟩ := exists_right_of_mem hparts (List.mem_singleton_self _)
    obtain ⟨landing, hstat⟩ := exists_stat_of_expand hpart
    have hlength := FileSystem.utf8ByteSize_le_of_stat hstat
    have hdirectory : "rules".utf8ByteSize = 5 := rfl
    rw [String.utf8ByteSize_append, utf8ByteSize_slashed, hdirectory] at hlength
    exact absurd hlength (by decide)

end Rule

end HazardTrace
