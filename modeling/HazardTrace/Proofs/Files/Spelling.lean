import HazardTrace.Files.Path
import Mathlib.Data.List.Forall2

/-!
# Spellings of a path

Doubling a slash inside a path, or putting a dot between two slashes, gives another spelling of it
(`Respells`). What is the same in all spellings of a path is its components and, at the end, the
segment that stands for nothing (`Alike`, `Respells.alike`). Such a segment is no component, but it
asks for a directory, so it matters to whoever follows the path.

Paths are texts, and everything about them goes through their segments, the parts between slashes.
Three layers lead from the text to the components.

* Splitting a list of characters at slashes: when the first part is empty, which characters the
  parts have, and what the last part is.
* Segments: `segments_slash` takes a path apart at a slash, wherever that is. The first segment is
  empty in two cases only, for the empty path and for one that starts at the root
  (`first_segment_eq_empty_iff`).
* Components: a segment is a component, or it stands for nothing (`isVoid`), except that the first
  one also tells where the path starts (`components_of_segments`).

Both parts of `Alike` can be computed for a path that is taken apart at a slash (`components_slash`,
`trailing_slash`), which makes the cases of `Respells.alike` short. A file in a directory has a path
that is put together with a slash as well, so paths that are alike stay so when a name is added
(`Alike.join`).
-/

namespace HazardTrace

namespace Path

variable {p q : String}

/-! ### Characters between slashes -/

section Split

variable {c : Char}

/-- Nothing stands before the first slash. -/
theorem splitOn_head_eq_nil_iff {l part : List Char} {parts : List (List Char)}
    (h : l.splitOn '/' = part :: parts) : part = [] ↔ l = [] ∨ l.head? = some '/' := by
  cases l with
  | nil =>
    rw [List.splitOn_nil, List.cons.injEq] at h
    simp [h.1]
  | cons c l =>
    obtain ⟨part', parts', hl⟩ := List.exists_cons_of_ne_nil (List.splitOn_ne_nil '/' l)
    rw [List.splitOn_cons_eq_if_modifyHead, hl] at h
    by_cases hc : c = '/'
    · rw [if_pos (beq_iff_eq.2 hc), List.cons.injEq] at h
      simp [h.1, hc]
    · rw [if_neg (by simpa using hc), List.modifyHead_cons, List.cons.injEq] at h
      simp [← h.1, hc]

/-- Splitting loses no character but slashes. -/
theorem mem_iff_splitOn (hc : c ≠ '/') (l : List Char) :
    c ∈ l ↔ ∃ part ∈ l.splitOn '/', c ∈ part := by
  induction l with
  | nil => simp
  | cons d l ih =>
    obtain ⟨part, parts, hparts⟩ := List.exists_cons_of_ne_nil (List.splitOn_ne_nil '/' l)
    rw [List.mem_cons, ih, List.splitOn_cons_eq_if_modifyHead, hparts]
    by_cases hd : d = '/'
    · simp [hd, hc]
    · simp [hd, or_assoc]

/-- A character at the end belongs to the last part. -/
theorem splitOn_concat (hc : c ≠ '/') (l : List Char) :
    ∃ parts part, (l ++ [c]).splitOn '/' = parts ++ [part ++ [c]] := by
  induction l with
  | nil => exact ⟨[], [], by simp [List.splitOn_cons_eq_if_modifyHead, hc]⟩
  | cons d l ih =>
    obtain ⟨parts, part, h⟩ := ih
    rw [List.cons_append, List.splitOn_cons_eq_if_modifyHead, h]
    by_cases hd : d = '/'
    · exact ⟨[] :: parts, part, by simp [hd]⟩
    · cases parts with
      | nil => exact ⟨[], d :: part, by simp [hd]⟩
      | cons first parts => exact ⟨(d :: first) :: parts, part, by simp [hd]⟩

end Split

/-! ### Segments -/

theorem segments_ne_nil (p : String) : segments p ≠ [] := by
  simp [segments]

@[simp]
theorem segments_empty : segments "" = [""] := by
  decide

/-- A path is taken apart at a slash. -/
theorem segments_slash (a b : String) : segments (a ++ "/" ++ b) = segments a ++ segments b := by
  have hslash : "/".toList = ['/'] := rfl
  simp only [segments, String.toList_append, hslash, List.append_assoc, List.singleton_append,
    List.splitOn_append_cons_self, List.map_append]

/-- Does a segment behind the first stand for nothing? -/
def isVoid (s : String) : Bool :=
  s == "" || s == "."

theorem isVoid_iff {s : String} : isVoid s = true ↔ s = "" ∨ s = "." := by
  simp [isVoid]

/-- Only the empty path and the paths from the root have an empty first segment. -/
theorem first_segment_eq_empty_iff {first : String} {rest : List String}
    (h : segments p = first :: rest) : first = "" ↔ p = "" ∨ isAbsolute p = true := by
  obtain ⟨part, parts, hparts⟩ := List.exists_cons_of_ne_nil (List.splitOn_ne_nil '/' p.toList)
  rw [segments, hparts, List.map_cons, List.cons.injEq] at h
  rw [← h.1, ← String.toList_eq_nil_iff, String.toList_ofList, splitOn_head_eq_nil_iff hparts,
    String.toList_eq_nil_iff, isAbsolute, beq_iff_eq]

/-- The characters of a path are those of its segments, slashes apart. -/
theorem mem_toList_iff {c : Char} (hc : c ≠ '/') :
    c ∈ p.toList ↔ ∃ s ∈ segments p, c ∈ s.toList := by
  simp [segments, mem_iff_splitOn hc p.toList]

/-! ### Components -/

/-- The segment that a component stands for, if it is more than where a path starts. -/
def Component.segment? : Component → Option String
  | .root | .here => none
  | .up => some ".."
  | .name s => some s

/-- A segment is a component with this segment, or stands for nothing. -/
theorem component?_bind_segment? (s : String) :
    (component? s).bind Component.segment? = if isVoid s then none else some s := by
  unfold component?
  by_cases hvoid : isVoid s = true
  · rw [if_pos (isVoid_iff.1 hvoid), if_pos hvoid, Option.bind_none]
  · rw [if_neg (isVoid_iff.not.1 hvoid), if_neg hvoid]
    by_cases hup : s = ".."
    · rw [if_pos hup, hup]
      rfl
    · rw [if_neg hup]
      rfl

/-- What the first segment of a path stands for. -/
def leading (p first : String) : List Component :=
  if isAbsolute p then [.root] else if first = "." then [.here] else (component? first).toList

/-- The components of a path, from its segments. -/
theorem components_of_segments {first : String} {rest : List String}
    (h : segments p = first :: rest) :
    components p = leading p first ++ rest.filterMap component? := by
  rw [components, h]
  rfl

/-- The components of a path are its segments that stand for something, and where it starts. -/
theorem filterMap_segment?_components (p : String) :
    (components p).filterMap Component.segment? = (segments p).filter (!isVoid ·) := by
  obtain ⟨first, rest, h⟩ := List.exists_cons_of_ne_nil (segments_ne_nil p)
  have hfirst : (leading p first).filterMap Component.segment? = [first].filter (!isVoid ·) := by
    unfold leading
    split_ifs with habs hdot
    · rw [(first_segment_eq_empty_iff h).2 (.inr habs)]
      rfl
    · rw [hdot]
      rfl
    · have hbind := component?_bind_segment? first
      cases hcomp : component? first <;> by_cases hvoid : isVoid first = true <;> simp_all
  have hrest : (rest.filterMap component?).filterMap Component.segment? =
      rest.filter (!isVoid ·) := by
    rw [List.filterMap_filterMap, ← List.filterMap_eq_filter]
    refine List.filterMap_congr fun s _ ↦ ?_
    rw [component?_bind_segment? s]
    by_cases hvoid : isVoid s = true <;> simp [Option.guard, hvoid]
  rw [components_of_segments h, List.filterMap_append, hfirst, hrest, ← List.filter_append, h,
    List.singleton_append]

/-- The characters of a path are those of its components, slashes and dots apart. -/
theorem mem_toList_iff_components {c : Char} (hslash : c ≠ '/') (hdot : c ≠ '.') :
    c ∈ p.toList ↔ ∃ s ∈ (components p).filterMap Component.segment?, c ∈ s.toList := by
  have hvoid : ∀ s : String, c ∈ s.toList → isVoid s = false := by
    intro s hs
    rw [← Bool.not_eq_true, isVoid_iff]
    rintro (rfl | rfl)
    · simp at hs
    · simp [hdot] at hs
  rw [mem_toList_iff hslash, filterMap_segment?_components]
  constructor
  · rintro ⟨s, hs, hc⟩
    exact ⟨s, List.mem_filter.2 ⟨hs, by simp [hvoid s hc]⟩, hc⟩
  · rintro ⟨s, hs, hc⟩
    exact ⟨s, (List.mem_filter.1 hs).1, hc⟩

/-- The root is a component of paths that start there. -/
theorem root_mem_components_iff : Component.root ∈ components p ↔ isAbsolute p = true := by
  obtain ⟨first, rest, h⟩ := List.exists_cons_of_ne_nil (segments_ne_nil p)
  have hroot : ∀ s, component? s ≠ some .root := by
    intro s
    unfold component?
    split_ifs <;> simp
  rw [components_of_segments h, List.mem_append]
  have hrest : Component.root ∉ rest.filterMap component? := by
    simp [hroot]
  unfold leading
  split_ifs with habs hdot
  · simp [habs]
  · simp [habs, hrest]
  · simp [habs, hrest, hroot]

/-- Only the empty path has no component. -/
theorem components_eq_nil_iff : components p = [] ↔ p = "" := by
  constructor
  · intro hnil
    obtain ⟨first, rest, h⟩ := List.exists_cons_of_ne_nil (segments_ne_nil p)
    have habs : ¬ isAbsolute p = true := by
      rw [← root_mem_components_iff, hnil]
      exact List.not_mem_nil
    rw [components_of_segments h, leading, if_neg habs] at hnil
    have hfirst : first = "" := by
      unfold component? at hnil
      split_ifs at hnil <;> simp_all
    exact ((first_segment_eq_empty_iff h).1 hfirst).resolve_right habs
  · rintro rfl
    decide

/-! ### Paths put together -/

/-- Where a path starts is decided before its first slash, or by it. -/
theorem isAbsolute_slash (a b : String) : isAbsolute (a ++ "/" ++ b) = isAbsolute (a ++ "/") := by
  have hslash : "/".toList = ['/'] := rfl
  cases h : a.toList <;> simp [isAbsolute, hslash, h]

theorem segments_slash_empty (a : String) : segments (a ++ "/") = segments a ++ [""] := by
  simpa using segments_slash a ""

/-- The components of a path are those before a slash, and those behind it. -/
theorem components_slash (a b : String) :
    components (a ++ "/" ++ b) = components (a ++ "/") ++ (segments b).filterMap component? := by
  obtain ⟨first, rest, h⟩ := List.exists_cons_of_ne_nil (segments_ne_nil a)
  have hlong : segments (a ++ "/" ++ b) = first :: (rest ++ segments b) := by
    rw [segments_slash, h, List.cons_append]
  have hshort : segments (a ++ "/") = first :: (rest ++ [""]) := by
    rw [segments_slash_empty, h, List.cons_append]
  have hvoid : component? "" = none := rfl
  rw [components_of_segments hlong, components_of_segments hshort, leading, leading,
    isAbsolute_slash]
  simp [hvoid]

/-- A slash at the end is no component. -/
theorem components_slash_empty (h : p ≠ "") : components (p ++ "/") = components p := by
  obtain ⟨first, rest, hp⟩ := List.exists_cons_of_ne_nil (segments_ne_nil p)
  have hlong : segments (p ++ "/") = first :: (rest ++ [""]) := by
    rw [segments_slash_empty, hp, List.cons_append]
  have habs : isAbsolute (p ++ "/") = isAbsolute p := by
    obtain ⟨c, cs, hchars⟩ := List.exists_cons_of_ne_nil (String.toList_eq_nil_iff.not.2 h)
    simp [isAbsolute, hchars]
  have hvoid : component? "" = none := rfl
  rw [components_of_segments hlong, components_of_segments hp, leading, leading, habs]
  simp [hvoid]

/-- The segment at the end of a path, if it stands for nothing. -/
def trailing (p : String) : Option String :=
  (segments p).getLast?.filter isVoid

/-- The end of a path is the end of what stands behind a slash. -/
theorem trailing_slash (a b : String) : trailing (a ++ "/" ++ b) = trailing b := by
  rw [trailing, segments_slash, List.getLast?_append_of_ne_nil _ (segments_ne_nil b), trailing]

/-- A path that ends in a letter does not end in a segment that stands for nothing. -/
theorem trailing_eq_none {c : Char} (h : p.toList.getLast? = some c) (hslash : c ≠ '/')
    (hdot : c ≠ '.') : trailing p = none := by
  obtain ⟨l, hl⟩ := List.getLast?_eq_some_iff.1 h
  obtain ⟨parts, part, hparts⟩ := splitOn_concat hslash l
  have hvoid : ¬ isVoid (String.ofList (part ++ [c])) = true := by
    rw [isVoid_iff, ← String.toList_inj, ← String.toList_inj]
    simp [List.append_eq_cons_iff, hdot]
  rw [trailing, segments, hl, hparts, List.map_append, List.map_singleton, List.getLast?_concat]
  exact Option.filter_some_neg (Bool.eq_false_iff.2 hvoid)

/-! ### Spellings -/

/-- Two spellings of one path, that differ inside it in slashes and dots. -/
inductive Respells : String → String → Prop
  | refl (p : String) : Respells p p
  | slash (a b : String) : Respells (a ++ "/" ++ b) (a ++ "//" ++ b)
  | dot (a b : String) : Respells (a ++ "/" ++ b) (a ++ "/./" ++ b)
  | symm {p q : String} : Respells p q → Respells q p
  | trans {p q r : String} : Respells p q → Respells q r → Respells p r

/-- The two paths have the same components, and at the end the same segment that stands for
nothing. -/
structure Alike (p q : String) : Prop where
  components : components p = components q
  trailing : trailing p = trailing q

namespace Alike

variable {r : String}

theorem refl (p : String) : Alike p p :=
  ⟨rfl, rfl⟩

theorem symm (h : Alike p q) : Alike q p :=
  ⟨h.components.symm, h.trailing.symm⟩

theorem trans (hpq : Alike p q) (hqr : Alike q r) : Alike p r :=
  ⟨hpq.components.trans hqr.components, hpq.trailing.trans hqr.trailing⟩

/-- The empty path is alike to no other. -/
theorem eq_empty_iff (h : Alike p q) : p = "" ↔ q = "" := by
  rw [← components_eq_nil_iff, h.components, components_eq_nil_iff]

/-- A segment that stands for nothing can be put between two slashes. -/
theorem insert_void {v : String} (hvoid : isVoid v = true) (hv : segments v = [v]) (a b : String) :
    Alike (a ++ "/" ++ b) (a ++ "/" ++ (v ++ "/" ++ b)) where
  components := by
    have hnone : component? v = none := if_pos (isVoid_iff.1 hvoid)
    rw [components_slash, components_slash, segments_slash, hv]
    simp [hnone]
  trailing := by
    rw [trailing_slash, trailing_slash, trailing_slash]

end Alike

/-- **Spellings of a path are alike.** -/
theorem Respells.alike (h : Respells p q) : Alike p q := by
  induction h with
  | refl p => exact .refl p
  | slash a b =>
    have hslash : a ++ "//" ++ b = a ++ "/" ++ ("" ++ "/" ++ b) := by
      apply String.toList_injective
      simp
    rw [hslash]
    exact .insert_void rfl segments_empty a b
  | dot a b =>
    have hdot : a ++ "/./" ++ b = a ++ "/" ++ ("." ++ "/" ++ b) := by
      apply String.toList_injective
      simp
    rw [hdot]
    exact .insert_void rfl (by decide) a b
  | symm _ ih => exact ih.symm
  | trans _ _ ihpq ihqr => exact ihpq.trans ihqr

/-! ### Joined paths -/

variable {name : String}

theorem join_eq_right (h : isAbsolute name = true ∨ p = "") : join p name = name := by
  unfold join
  split_ifs with habs hend
  · rfl
  · rw [h.resolve_left habs, String.empty_append]
  · exact absurd (.inl (h.resolve_left habs)) hend

/-- Any other name is put behind a slash. -/
theorem exists_join_eq_slash (h : ¬ (isAbsolute name = true ∨ p = "")) :
    ∃ a, join p name = a ++ "/" ++ name ∧ components (a ++ "/") = components p := by
  obtain ⟨habs, hp⟩ := not_or.1 h
  unfold join
  rw [if_neg habs]
  split_ifs with hend
  · obtain ⟨chars, hchars⟩ := List.getLast?_eq_some_iff.1 (hend.resolve_left hp)
    have hslash : p = String.ofList chars ++ "/" := by
      apply String.toList_injective
      simp [hchars]
    exact ⟨String.ofList chars, by rw [← hslash], by rw [← hslash]⟩
  · exact ⟨p, rfl, components_slash_empty hp⟩

/-- A file asks for a directory if its name does. -/
theorem trailing_join (p name : String) : trailing (join p name) = trailing name := by
  by_cases h : isAbsolute name = true ∨ p = ""
  · rw [join_eq_right h]
  · obtain ⟨a, hjoin, -⟩ := exists_join_eq_slash h
    rw [hjoin, trailing_slash]

/-- A name that is added to paths which are alike gives such paths again. -/
theorem Alike.join (h : Alike p q) (name : String) : Alike (join p name) (join q name) where
  components := by
    by_cases hp : isAbsolute name = true ∨ p = ""
    · rw [join_eq_right hp, join_eq_right (hp.imp_right h.eq_empty_iff.1)]
    · obtain ⟨a, ha, hacomp⟩ := exists_join_eq_slash hp
      obtain ⟨b, hb, hbcomp⟩ := exists_join_eq_slash fun hq ↦ hp (hq.imp_right h.eq_empty_iff.2)
      rw [ha, hb, components_slash, components_slash, hacomp, hbcomp, h.components]
  trailing := by
    rw [trailing_join, trailing_join]

/-- Paths with the same components are alike, if neither asks for a directory. -/
theorem alike_of_components (h : components p = components q) (hp : trailing p = none)
    (hq : trailing q = none) : Alike p q :=
  ⟨h, hp.trans hq.symm⟩

end Path

end HazardTrace
