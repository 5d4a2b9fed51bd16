import HazardTrace.Files.System
import HazardTrace.Proofs.Files.Spelling
import HazardTrace.Proofs.Traversal

/-!
# Paths that lead to the same place

A segment that stands for nothing is passed over, unless it is the last one (`follow_remove_void`).
So a path leads where its components do (`follow_segments`), and paths that are alike lead to the
same place (`stat_of_alike`).

Links are what makes this more than a remark: the target of a link may have such segments too, and
may lead on to other links. What one segment on the way can do is said once (`follow_cons_cases`):
it ends the search, or it leads to another place, in the case of a link with the segments of its
target still to follow. `follow_append` is the induction along a way, for any relation between two
results. It is on the number of links that may still be followed, and within that on the segments
that are left.

There is one exception: the system follows no path that is too long, and of two paths that are alike
one may be too long and the other not. What is said here of two paths that are alike therefore asks
for one of two things: that no path which the second one leads to is too long (`AllShort`), or that
what is looked for is found on the second one, too.

In a directory the paths of the files are made from the path of the directory, so `scan_of_alike`
compares what is found on two spellings file by file (`Twin`). The induction is on the depth of
directories, and one name in a directory is `scanEntry_of_alike`.
-/

namespace HazardTrace

namespace FileSystem

variable (fs : FileSystem)

/-! ### Segments on the way -/

theorem follow_nil {place : Place} {entry : FileEntry} (h : fs.entry? place = some entry)
    (links : Nat) : fs.follow false links place [] = .ok (.found place entry) := by
  rw [follow, h]

/-- A name in a directory leads to what it holds, if that is not a link. -/
theorem follow_name {place : Place} {s : String} {entry : FileEntry}
    (hplace : fs.entry? place = some .directory) (hvoid : ¬ (s = "" ∨ s = ".")) (hup : s ≠ "..")
    (hlong : ¬ nameLimit < s.utf8ByteSize) (hinner : fs.entry? (place ++ [s]) = some entry)
    (hlink : ∀ target, entry ≠ .link target) (links : Nat) (rest : List String) :
    fs.follow false links place (s :: rest) = fs.follow false links (place ++ [s]) rest := by
  rw [follow, hplace]
  cases entry with
  | link target => exact absurd rfl (hlink target)
  | file | directory | device => simp [if_neg hvoid, if_neg hup, if_neg hlong, hinner]

/-- **What one segment on the way does**: it ends the search, or it leads to another place, in the
case of a link with the segments of its target still to follow. -/
theorem follow_cons_cases (links : Nat) (place : Place) (s : String) :
    (∃ fault, ∀ rest ≠ [], fs.follow false links place (s :: rest) = .error fault) ∨
    ∃ links' place' path, (links' < links ∨ links' = links ∧ path = []) ∧
      ∀ rest ≠ [], fs.follow false links place (s :: rest) =
        fs.follow false links' place' (path ++ rest) := by
  rcases hplace : fs.entry? place with - | (bytes | - | target | -)
  case none => exact .inl ⟨.missing, fun rest _ ↦ by rw [follow, hplace]⟩
  case some.directory =>
    by_cases hvoid : s = "" ∨ s = "."
    · refine .inr ⟨links, place, [], .inr ⟨rfl, rfl⟩, fun rest _ ↦ ?_⟩
      rw [follow, hplace]
      exact if_pos hvoid
    by_cases hup : s = ".."
    · refine .inr ⟨links, place.dropLast, [], .inr ⟨rfl, rfl⟩, fun rest _ ↦ ?_⟩
      rw [follow, hplace]
      exact (if_neg hvoid).trans (if_pos hup)
    by_cases hlong : nameLimit < s.utf8ByteSize
    · refine .inl ⟨.tooLong, fun rest _ ↦ ?_⟩
      rw [follow, hplace]
      simp [if_neg hvoid, if_neg hup, if_pos hlong]
    cases hinner : fs.entry? (place ++ [s]) with
    | none =>
      refine .inl ⟨.missing, fun rest hrest ↦ ?_⟩
      rw [follow, hplace]
      simp [if_neg hvoid, if_neg hup, if_neg hlong, hinner, hrest]
    | some inner =>
      by_cases hlink : ∃ target, inner = .link target
      · obtain ⟨target, rfl⟩ := hlink
        cases links with
        | zero =>
          refine .inl ⟨.tooManyLinks, fun rest hrest ↦ ?_⟩
          rw [follow, hplace]
          simp [if_neg hvoid, if_neg hup, if_neg hlong, hinner]
        | succ links =>
          by_cases htarget : target = ""
          · refine .inl ⟨.missing, fun rest hrest ↦ ?_⟩
            rw [follow, hplace]
            simp [if_neg hvoid, if_neg hup, if_neg hlong, hinner, htarget]
          · refine .inr ⟨links, if Path.isAbsolute target then [] else place, Path.segments target,
              .inl links.lt_succ_self, fun rest hrest ↦ ?_⟩
            rw [follow, hplace]
            simp [if_neg hvoid, if_neg hup, if_neg hlong, hinner, htarget]
      · refine .inr ⟨links, place ++ [s], [], .inr ⟨rfl, rfl⟩, fun rest _ ↦ ?_⟩
        exact fs.follow_name hplace hvoid hup hlong hinner
          (fun target htarget ↦ hlink ⟨target, htarget⟩) links rest
  all_goals exact .inl ⟨.notDirectory, fun rest _ ↦ by rw [follow, hplace]⟩

/-- **What holds at the end of a way holds of the whole way**: two ways that differ only behind some
segments lead to related results, if they do from every place where their different ends may
start. -/
theorem follow_append {R : Except FileFault Landing → Except FileFault Landing → Prop}
    (hfault : ∀ fault, R (.error fault) (.error fault)) {rest rest' : List String}
    (hrest : rest ≠ []) (hrest' : rest' ≠ [])
    (h : ∀ links place, R (fs.follow false links place rest) (fs.follow false links place rest'))
    (links : Nat) (place : Place) (way : List String) :
    R (fs.follow false links place (way ++ rest)) (fs.follow false links place (way ++ rest')) := by
  -- a link gives new segments to follow, but uses up one of the links that are left
  induction links using Nat.strongRecOn generalizing place way with
  | ind links ihlinks =>
    induction way generalizing place with
    | nil => exact h links place
    | cons s way ih =>
      have hway : way ++ rest ≠ [] := by simp [hrest]
      have hway' : way ++ rest' ≠ [] := by simp [hrest']
      rw [List.cons_append, List.cons_append]
      rcases fs.follow_cons_cases links place s with
        ⟨fault, hstep⟩ | ⟨links', place', path, hless, hstep⟩
      · rw [hstep _ hway, hstep _ hway']
        exact hfault fault
      · rw [hstep _ hway, hstep _ hway']
        rcases hless with hless | ⟨rfl, rfl⟩
        · rw [← List.append_assoc, ← List.append_assoc]
          exact ihlinks links' hless place' (path ++ way)
        · exact ih place'

section Void

variable {s : String} (hs : Path.isVoid s = true)
include hs

/-- A segment that stands for nothing can be left out anywhere but at the end. -/
theorem follow_remove_void {rest : List String} (hrest : rest ≠ []) (links : Nat) (place : Place)
    (way : List String) :
    fs.follow false links place (way ++ s :: rest) = fs.follow false links place (way ++ rest) := by
  refine fs.follow_append (fun _ ↦ rfl) (List.cons_ne_nil s rest) hrest (fun links place ↦ ?_)
    links place way
  obtain ⟨step, rest, rfl⟩ := List.exists_cons_of_ne_nil hrest
  rcases hplace : fs.entry? place with - | (bytes | - | target | -)
  case some.directory =>
    rw [follow, hplace]
    exact if_pos (Path.isVoid_iff.1 hs)
  all_goals rw [follow, hplace, follow, hplace]

/-- A path that ends in a segment that stands for nothing can only lead to a directory. -/
theorem eq_directory_of_void {links : Nat} {place place' : Place} {way : List String}
    {entry : FileEntry} (h : fs.follow false links place (way ++ [s]) = .ok (.found place' entry)) :
    entry = .directory := by
  have hlast : ∀ links place, fs.follow false links place [s] = .ok (.found place' entry) →
      entry = .directory := by
    intro links place h
    rw [follow] at h
    rcases hplace : fs.entry? place with - | (bytes | - | target | -) <;> rw [hplace] at h
    case some.directory =>
      simp only [if_pos (Path.isVoid_iff.1 hs), fs.follow_nil hplace] at h
      cases h
      rfl
    all_goals cases h
  have hs : [s] ≠ [] := List.cons_ne_nil s []
  exact fs.follow_append (R := fun r _ ↦ r = .ok (.found place' entry) → entry = .directory)
    (fun _ h ↦ by cases h) hs hs hlast links place way h

end Void

/-- All segments that stand for nothing can be left out, up to the last one. -/
theorem follow_filter {rest : List String} (hrest : rest ≠ []) (links : Nat) (place : Place)
    (way : List String) :
    fs.follow false links place (way ++ rest) =
      fs.follow false links place (way.filter (!Path.isVoid ·) ++ rest) := by
  suffices h : ∀ done, fs.follow false links place (done ++ (way ++ rest)) =
      fs.follow false links place (done ++ (way.filter (!Path.isVoid ·) ++ rest)) from h []
  induction way with
  | nil => exact fun _ ↦ rfl
  | cons s way ih =>
    intro done
    by_cases hs : Path.isVoid s = true
    · rw [List.cons_append, fs.follow_remove_void hs (by simp [hrest]), ih,
        List.filter_cons_of_neg (by simp [hs])]
    · rw [List.filter_cons_of_pos (by simp [hs])]
      simpa using ih (done ++ [s])

/-! ### Paths -/

variable {fs} {p q : String} {place : Place} {entry : FileEntry}

/-- A path leads where its components do. -/
theorem follow_segments (links : Nat) (place : Place) (p : String) :
    fs.follow false links place (Path.segments p) = fs.follow false links place
      ((Path.components p).filterMap Path.Component.segment? ++ (Path.trailing p).toList) := by
  obtain ⟨way, last, hsegments⟩ :=
    (List.eq_nil_or_concat' (Path.segments p)).resolve_left (Path.segments_ne_nil p)
  rw [Path.filterMap_segment?_components, Path.trailing, hsegments, List.getLast?_concat,
    List.filter_append, fs.follow_filter (List.cons_ne_nil last [])]
  by_cases hlast : Path.isVoid last = true <;> simp [Option.filter, hlast]

/-- Paths that are alike lead to the same place, if they are not too long. -/
theorem locate_eq_of_alike (h : Path.Alike p q) (hp : p.utf8ByteSize ≤ pathLimit)
    (hq : q.utf8ByteSize ≤ pathLimit) : fs.locate false p = fs.locate false q := by
  have hnul : p.toList.contains '\x00' = q.toList.contains '\x00' := by
    have hmem : '\x00' ∈ p.toList ↔ '\x00' ∈ q.toList := by
      rw [Path.mem_toList_iff_components (by decide) (by decide), h.components,
        ← Path.mem_toList_iff_components (by decide) (by decide)]
    rw [Bool.eq_iff_iff, List.contains_iff_mem, List.contains_iff_mem, hmem]
  have habs : Path.isAbsolute p = Path.isAbsolute q := by
    rw [Bool.eq_iff_iff, ← Path.root_mem_components_iff, h.components, Path.root_mem_components_iff]
  rw [locate, locate, hnul, if_neg (Nat.not_lt.2 hp), if_neg (Nat.not_lt.2 hq), habs, follow_segments,
    follow_segments, h.components, h.trailing]
  simp only [h.eq_empty_iff]

/-- A path that leads somewhere has been followed, from one of the two places where paths start. -/
theorem follow_of_stat (h : fs.stat p = .ok (place, entry)) : p.utf8ByteSize ≤ pathLimit ∧
    ∃ start, fs.follow false linkLimit start (Path.segments p) = .ok (.found place entry) := by
  unfold stat at h
  split at h
  case h_1 place' entry' hlocate =>
    cases h
    unfold locate at hlocate
    by_cases hlong : pathLimit < p.utf8ByteSize
    · rw [if_pos hlong] at hlocate
      split_ifs at hlocate
    · rw [if_neg hlong] at hlocate
      split_ifs at hlocate
      · exact ⟨Nat.not_lt.1 hlong, _, hlocate⟩
      · exact ⟨Nat.not_lt.1 hlong, _, hlocate⟩
  all_goals cases h

theorem utf8ByteSize_le_of_stat (h : fs.stat p = .ok (place, entry)) :
    p.utf8ByteSize ≤ pathLimit :=
  (follow_of_stat h).1

/-- A path leads where a path like it does, unless it is too long to lead anywhere. -/
theorem stat_of_alike (h : Path.Alike p q) (hp : fs.stat p = .ok (place, entry))
    (hq : q.utf8ByteSize ≤ pathLimit ∨ ∃ landing, fs.stat q = .ok landing) :
    fs.stat q = .ok (place, entry) := by
  have hlength : q.utf8ByteSize ≤ pathLimit := by
    rcases hq with hq | ⟨landing, hq⟩
    · exact hq
    · exact utf8ByteSize_le_of_stat hq
  rw [stat, ← locate_eq_of_alike h (utf8ByteSize_le_of_stat hp) hlength, ← stat, hp]

theorem exists_stat_of_readText {text : String} (h : fs.readText p = .ok text) :
    ∃ landing, fs.stat p = .ok landing := by
  cases hstat : fs.stat p with
  | error fault =>
    rw [readText, hstat] at h
    cases h
  | ok landing => exact ⟨landing, rfl⟩

/-- A text is read from paths that are alike. -/
theorem readText_of_alike {text : String} (h : Path.Alike p q) (hp : fs.readText p = .ok text)
    (hq : q.utf8ByteSize ≤ pathLimit ∨ ∃ landing, fs.stat q = .ok landing) :
    fs.readText q = .ok text := by
  obtain ⟨landing, hstat⟩ := exists_stat_of_readText hp
  rw [readText, stat_of_alike h hstat hq, ← hstat, ← readText, hp]

/-- A path that leads to a file does not ask for a directory. -/
theorem trailing_of_stat (h : fs.stat p = .ok (place, entry)) (hentry : entry ≠ .directory) :
    Path.trailing p = none := by
  by_contra htrailing
  obtain ⟨s, hs⟩ := Option.ne_none_iff_exists'.1 htrailing
  obtain ⟨-, start, hfollow⟩ := follow_of_stat h
  rw [follow_segments, hs] at hfollow
  exact hentry (fs.eq_directory_of_void (Option.filter_eq_some_iff.1 hs).2 hfollow)

/-! ### Directories -/

/-- The paths that are looked at for the files at and below some paths. -/
inductive Meets (fs : FileSystem) (ps : List String) : String → Prop
  | given {p : String} (hp : p ∈ ps) : fs.Meets ps p
  | inside {p name : String} {place : Place} {entry : FileEntry} (hp : fs.Meets ps p)
      (hstat : fs.stat p = .ok (place, .directory)) (hname : (name, entry) ∈ fs.list place) :
      fs.Meets ps (Path.join p name)

/-- None of the paths that are looked at is too long to be followed. -/
def AllShort (fs : FileSystem) (ps : List String) : Prop :=
  ∀ p, fs.Meets ps p → p.utf8ByteSize ≤ pathLimit

/-- The file is met under a path like `f`, and does not ask for a directory. -/
structure Twin (fs : FileSystem) (qs : List String) (f f' : String) : Prop where
  alike : Path.Alike f f'
  meets : fs.Meets qs f'
  trailing : Path.trailing f' = none

/-- The files that a name in a directory stands for: itself, or what is below it. -/
def scanEntry (fs : FileSystem) (keep : String → Bool) (depth : Nat) (above : List Place)
    (path : String) (item : String × FileEntry) : Option (List String) :=
  let inner := Path.join path item.1
  let kept := if keep item.1 then [inner] else []
  match item.2 with
  | .file _ => some kept
  | _ =>
    match fs.stat inner with
    | .ok (target, .directory) =>
      if above.contains target then none else fs.scan keep depth above target inner
    | .ok (_, .file _) => some kept
    | .ok _ => some []
    | .error _ => none

variable {keep : String → Bool} {depth : Nat} {above : List Place} {files found : List String}
  {ps qs : List String} {name : String}

/-- Anything but a file is looked at, so its path has to lead somewhere. -/
theorem exists_stat_of_scanEntry (hentry : ∀ bytes, entry ≠ .file bytes)
    (h : fs.scanEntry keep depth above p (name, entry) = some found) :
    ∃ landing, fs.stat (Path.join p name) = .ok landing := by
  cases hstat : fs.stat (Path.join p name) with
  | error fault =>
    cases entry with
    | file bytes => exact absurd rfl (hentry bytes)
    | directory | link _ | device =>
      simp only [scanEntry, hstat] at h
      cases h
  | ok landing => exact ⟨landing, rfl⟩

theorem scan_succ_eq_some_iff :
    fs.scan keep (depth + 1) above place p = some files ↔ ∃ found,
      List.Forall₂ (fun item files ↦ fs.scanEntry keep depth (place :: above) p item = some files)
        (fs.list place) found ∧ found.flatten = files := by
  have hscan : fs.scan keep (depth + 1) above place p =
      ((fs.list place).mapM (fs.scanEntry keep depth (place :: above) p)).map List.flatten := by
    rw [scan, Option.map_eq_bind]
    rfl
  simp only [hscan, Option.map_eq_some_iff, mapM_eq_some_iff]

section Twins

variable (hkeep : ∀ name, keep name = true → Path.trailing name = none)
include hkeep

/-- One name gives the same files on paths that are alike, if directories do. -/
theorem scanEntry_of_alike (hpq : Path.Alike p q) (hmeets : fs.Meets qs (Path.join q name))
    (hscan : ∀ target files, fs.stat (Path.join q name) = .ok (target, .directory) →
      fs.scan keep depth above target (Path.join p name) = some files →
      fs.AllShort qs ∨ (fs.scan keep depth above target (Path.join q name)).isSome →
      ∃ files', fs.scan keep depth above target (Path.join q name) = some files' ∧
        List.Forall₂ (fs.Twin qs) files files')
    (h : fs.scanEntry keep depth above p (name, entry) = some found)
    (hq : fs.AllShort qs ∨ (fs.scanEntry keep depth above q (name, entry)).isSome) :
    ∃ found', fs.scanEntry keep depth above q (name, entry) = some found' ∧
      List.Forall₂ (fs.Twin qs) found found' := by
  have hinner : Path.Alike (Path.join p name) (Path.join q name) := hpq.join name
  have hkept : List.Forall₂ (fs.Twin qs) (if keep name then [Path.join p name] else [])
      (if keep name then [Path.join q name] else []) := by
    split_ifs with hname
    · exact .cons ⟨hinner, hmeets, by rw [Path.trailing_join, hkeep name hname]⟩ .nil
    · exact .nil
  cases entry with
  | file bytes =>
    cases h
    exact ⟨_, rfl, hkept⟩
  | directory | link _ | device =>
    obtain ⟨⟨target, inner⟩, hstat⟩ := exists_stat_of_scanEntry (by simp) h
    have hstat' : fs.stat (Path.join q name) = .ok (target, inner) := by
      refine stat_of_alike hinner hstat (hq.imp (fun hshort ↦ hshort _ hmeets) fun hsome ↦ ?_)
      obtain ⟨found', hfound'⟩ := Option.isSome_iff_exists.1 hsome
      exact exists_stat_of_scanEntry (by simp) hfound'
    cases inner with
    | directory =>
      simp only [scanEntry, hstat, hstat'] at h hq ⊢
      by_cases hloop : above.contains target = true
      · rw [if_pos hloop] at h
        cases h
      · rw [if_neg hloop] at h hq ⊢
        exact hscan target found hstat' h hq
    | file bytes =>
      simp only [scanEntry, hstat, hstat'] at h ⊢
      cases h
      exact ⟨_, rfl, hkept⟩
    | link _ | device =>
      simp only [scanEntry, hstat, hstat'] at h ⊢
      cases h
      exact ⟨[], rfl, .nil⟩

/-- **The files below a directory are found on every spelling of its path**, unless this leads to
paths that are too long. -/
theorem scan_of_alike (hpq : Path.Alike p q) (hmeets : fs.Meets qs q)
    (hstat : fs.stat q = .ok (place, .directory))
    (h : fs.scan keep depth above place p = some files)
    (hq : fs.AllShort qs ∨ (fs.scan keep depth above place q).isSome) :
    ∃ files', fs.scan keep depth above place q = some files' ∧
      List.Forall₂ (fs.Twin qs) files files' := by
  induction depth generalizing above place p q files with
  | zero => cases h
  | succ depth ih =>
    obtain ⟨found, hfound, rfl⟩ := scan_succ_eq_some_iff.1 h
    have hitems : ∀ item ∈ fs.list place, fs.AllShort qs ∨
        (fs.scanEntry keep depth (place :: above) q item).isSome := by
      intro item hitem
      refine hq.imp_right fun hsome ↦ ?_
      obtain ⟨files', hfiles'⟩ := Option.isSome_iff_exists.1 hsome
      obtain ⟨found', hfound', -⟩ := scan_succ_eq_some_iff.1 hfiles'
      obtain ⟨files, -, hfiles⟩ := exists_right_of_mem hfound' hitem
      exact Option.isSome_of_eq_some hfiles
    obtain ⟨found', hfound', htwins⟩ := exists_forall₂ hfound fun item hitem files hfiles ↦
      scanEntry_of_alike hkeep hpq (.inside hmeets hstat hitem)
        (fun target files htarget hfiles hq ↦
          ih (hpq.join item.1) (.inside hmeets hstat hitem) htarget hfiles hq) hfiles
        (hitems item hitem)
    exact ⟨found'.flatten, scan_succ_eq_some_iff.2 ⟨found', hfound', rfl⟩,
      List.rel_flatten htwins⟩

end Twins

end FileSystem

end HazardTrace
