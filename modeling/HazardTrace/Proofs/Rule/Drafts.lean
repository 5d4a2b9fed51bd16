import HazardTrace.Proofs.Traversal
import HazardTrace.Rule

/-!
# Drafts as they are written

A draft is written as an object, with its fields in any order, or as an array with its fields in
their declared order. Either way a field that is missing and a field that is null are the same
(`given?`). `Draft.Written` says this of a value and a draft, without the way in which drafts are
read, and `Draft.written_of_decode?` that a draft that was read is written so.

The proof has two parts. The fields of a record are taken out of an object or an array
(`record?_fieldNames`). A field that is repeated in an object is refused there, so the first one
that is found is the only one (`find?_of_field?`). Then each field is read by itself. Six of the
seven fields may be missing or null, and these are one lemma (`nonNull?_of_withDefault?`), which is
given how a value of the field is written: as a string, or as an array of strings.
-/

namespace HazardTrace

namespace Json

variable {α : Type} {v : Json} {field : Option Json} {name : String}

/-! ### Fields that may be missing or null -/

/-- A string is written as such. -/
theorem string?_eq_some_iff {s : String} : string? v = some s ↔ v = .str s := by
  cases v <;> simp [string?]

/-- So is a list of strings, as an array. -/
theorem listOf?_string?_eq_some_iff {l : List String} :
    listOf? string? v = some l ↔ v = .arr (l.map .str) := by
  cases v with
  | arr items =>
    rw [listOf?, mapM_eq_some_iff]
    simp only [string?_eq_some_iff, arr.injEq]
    rw [← List.forall₂_map_right_iff (R := (· = ·)) (f := Json.str), List.forall₂_eq_eq_eq]
  | null | bool _ | num _ | str _ | obj _ | illFormed => simp [listOf?]

/-- A value, unless it is null. -/
def nonNull? : Json → Option Json
  | .null => none
  | v => some v

theorem nonNull?_eq_some (h : v ≠ .null) : nonNull? v = some v := by
  cases v with
  | null => exact absurd rfl h
  | bool _ | num _ | str _ | arr _ | obj _ | illFormed => rfl

theorem nullable?_of_ne (decode : Json → Option α) (h : v ≠ .null) :
    nullable? decode v = (decode v).map some := by
  cases v with
  | null => exact absurd rfl h
  | bool _ | num _ | str _ | arr _ | obj _ | illFormed => rfl

/-- A field that may be missing or null is read as what is written there. -/
theorem nonNull?_of_withDefault? {decode : Json → Option α} {encode : α → Json}
    (hdecode : ∀ v a, decode v = some a ↔ v = encode a) {o : Option α}
    (h : withDefault? (nullable? decode) none field = some o) :
    field.bind nonNull? = o.map encode := by
  cases field with
  | none =>
    obtain rfl := Option.some.inj h
    rfl
  | some v =>
    by_cases hv : v = .null
    · subst hv
      obtain rfl := Option.some.inj h
      rfl
    · rw [withDefault?, nullable?_of_ne decode hv] at h
      obtain ⟨a, ha, rfl⟩ := Option.map_eq_some_iff.1 h
      rw [Option.bind_some, nonNull?_eq_some hv, Option.map_some, (hdecode v a).1 ha]

/-- A required field is there and can be read. -/
theorem required?_eq_bind (decode : Json → Option α) (field : Option Json) :
    required? decode field = field.bind decode := by
  cases field <;> rfl

/-- A field that is not repeated has the value that is found first. -/
theorem find?_of_field? {fields : List (String × Json)} (h : field? fields name = some field) :
    (fields.find? (·.1 == name)).map Prod.snd = field := by
  rw [← List.head?_filter]
  unfold field? at h
  split at h
  next hnil =>
    rw [hnil]
    exact Option.some.inj h
  next hone =>
    rw [hone]
    exact Option.some.inj h
  · cases h

end Json

namespace Rule

namespace Draft

variable {v : Json} {d : Draft}

/-- The value of a field of a draft, by its name in an object and by its place in an array. -/
def part? (name : String) : Json → Option Json
  | .obj fields => (fields.find? (·.1 == name)).map Prod.snd
  | .arr items => items[fieldNames.idxOf name]?
  | _ => none

/-- The value of a field that is neither missing nor null. -/
def given? (v : Json) (name : String) : Option Json :=
  (part? name v).bind Json.nonNull?

/-- The fields of a draft, taken out of what is written. -/
theorem record?_fieldNames {parts : List (Option Json)}
    (h : Json.record? fieldNames v = some parts) : parts = fieldNames.map (part? · v) := by
  cases v with
  | obj fields =>
    have hparts : List.Forall₂ (fun name part ↦ part? name (.obj fields) = part) fieldNames parts :=
      (mapM_eq_some_iff.1 h).imp fun _ _ ↦ Json.find?_of_field?
    rw [← List.forall₂_map_left_iff (R := (· = ·)), List.forall₂_eq_eq_eq] at hparts
    exact hparts.symm
  | arr items =>
    rw [Json.record?] at h
    split at h
    · obtain rfl := Option.some.inj h
      rfl
    · cases h
  | null | bool _ | num _ | str _ | illFormed => cases h

/-- A draft says what is written: what it has is given, and what it lacks is missing or null. -/
structure Written (v : Json) (d : Draft) : Prop where
  typeName : given? v "Type" = some (.str d.typeName)
  methods : given? v "Methods" = d.methods.map fun l ↦ .arr (l.map .str)
  aspect : given? v "Aspect" = d.aspect.map .str
  category : given? v "Category" = d.category.map .str
  warn : given? v "Warn" = d.warn.map .str
  suppress : given? v "Suppress" = d.suppress.map .str
  safe : given? v "Safe" = d.safe.map .str

/-- **A draft that has been read says what is written.** -/
theorem written_of_decode? (h : decode? v = some d) : Written v d := by
  unfold decode? at h
  split at h
  · cases h
  split at h
  next typeName methods aspect category warn suppress safe hrecord =>
    have hparts := record?_fieldNames hrecord
    simp only [Option.bind_eq_bind, Option.bind_eq_some_iff, Option.pure_def, Option.some.injEq] at h
    obtain ⟨t, ht, m, hm, a, ha, c, hc, w, hw, s, hs, f, hf, rfl⟩ := h
    simp only [fieldNames, List.map_cons, List.map_nil, List.cons.injEq, and_true] at hparts
    obtain ⟨rfl, rfl, rfl, rfl, rfl, rfl, rfl⟩ := hparts
    have htext : ∀ v s, Json.string? v = some s ↔ v = .str s := fun _ _ ↦ Json.string?_eq_some_iff
    refine ⟨?_, Json.nonNull?_of_withDefault? (fun _ _ ↦ Json.listOf?_string?_eq_some_iff) hm,
      Json.nonNull?_of_withDefault? htext ha, Json.nonNull?_of_withDefault? htext hc,
      Json.nonNull?_of_withDefault? htext hw, Json.nonNull?_of_withDefault? htext hs,
      Json.nonNull?_of_withDefault? htext hf⟩
    obtain ⟨u, hu, ht⟩ := Option.bind_eq_some_iff.1 ((Json.required?_eq_bind ..).symm.trans ht)
    rw [given?, hu, Json.string?_eq_some_iff.1 ht]
    rfl
  · cases h

end Draft

end Rule

end HazardTrace
