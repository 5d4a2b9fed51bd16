import HazardTrace.Program
import HazardTrace.Proofs.Json.Records

/-!
# Program graphs are read back

A program graph is written with all its fields, and what has been written may have its fields in any
order. The values in question are therefore those that `Json.Reorders` relates to what `toJson`
gives. The main result is `Program.parse?_of_reorders`: every text of such a value is read as the
program graph that was written.

Three facts are put together there, and only the first two are about program graphs.

* **Decoding.** Each record of the format is decoded from every reordering of what is written for it
  (`decode?_of_reorders`, once for each record). The records are taken from the innermost one
  outwards: methods and calls first, then the reflection report, then the program. The fields are
  found by `Reorders.record?_eq`, which needs the names of a record to be different and nothing
  else. Where the fields hold no records themselves, a reordering of them is the value itself, and
  the shorter `Reorders.record?_eq_of_plain` applies.
* **Writability.** What is written for a record has a text at all (`writable_toJson`, again once for
  each record). It consists of texts, truth values and null, all of which can be spelled.
* **Texts.** A text of a value is read as this value, whatever its blanks and its escapes
  (`Json.parse?_of_isText`), and the text without blanks is one of them (`Json.isText_compact`).

The aspect of a call is written as a name, so its decoding is that of names
(`Aspect.decode?_toJson`). The category of a call may be missing: it is then written as null, and
null is read as no category (`UnresolvedCall.decode_category`).

A new field changes the two lemmas of its record. Those of the records around it stay as they are.
-/

namespace HazardTrace

open Json (Reorders Plain Writable writable_arr_map)

variable {w : Json}

/-- An aspect is read back from its name. -/
theorem Aspect.decode?_toJson (a : Aspect) : decode? a.toJson = some a :=
  ofName?_name a

namespace Method

/-- A method is decoded from its fields in any order. They are texts and truth values, so that each
of them is as it was written. -/
theorem decode?_of_reorders {m : Method} (h : Reorders m.toJson w) : decode? w = some m := by
  have hkeys : fieldNames.Nodup := by decide
  have hrecord := h.record?_eq_of_plain hkeys (by simp [Plain.str, Plain.bool])
  change Json.record? fieldNames w = _ at hrecord
  rw [decode?, hrecord]
  rfl

/-- A method can be written. -/
theorem writable_toJson (m : Method) : Writable m.toJson :=
  .obj (by simp [Writable.str, Writable.bool])

end Method

namespace ResolvedCall

/-- A resolved call is decoded from its two fields in either order. -/
theorem decode?_of_reorders {c : ResolvedCall} (h : Reorders c.toJson w) : decode? w = some c := by
  have hkeys : ["caller", "reflection_method"].Nodup := by decide
  have hrecord := h.record?_eq_of_plain hkeys (by simp [Plain.str])
  change Json.record? ["caller", "reflection_method"] w = _ at hrecord
  rw [decode?, hrecord]
  rfl

theorem writable_toJson (c : ResolvedCall) : Writable c.toJson :=
  .obj (by simp [Writable.str])

end ResolvedCall

namespace UnresolvedCall

/-- A category is a text or null, and neither can be reordered. -/
theorem plain_category (category : Option String) : Plain (.option .str category) := by
  cases category with
  | none => exact .null
  | some s => exact .str s

/-- A missing category is written as null and is missing again when it is read. -/
theorem decode_category (category : Option String) :
    Json.nullable? Json.string? (.option .str category) = some category := by
  cases category <;> rfl

/-- An unresolved call is decoded from its fields in any order. The aspect goes through its name,
and the category may be missing. -/
theorem decode?_of_reorders {c : UnresolvedCall} (h : Reorders c.toJson w) :
    decode? w = some c := by
  have hkeys : ["caller", "reflection_method", "aspect", "message", "category"].Nodup := by decide
  have hrecord := h.record?_eq_of_plain hkeys
    (by simp [Plain.str, plain_category, Aspect.toJson])
  change Json.record? ["caller", "reflection_method", "aspect", "message", "category"] w = _
    at hrecord
  rw [decode?, hrecord]
  simp [Json.required?, Json.withDefault?, Json.string?, c.aspect.decode?_toJson, decode_category]

theorem writable_toJson (c : UnresolvedCall) : Writable c.toJson :=
  .obj (by simp [Writable.str, (plain_category c.category).writable, Aspect.toJson])

end UnresolvedCall

namespace ReflectionReport

/-- A reflection report is decoded from its two lists in either order, and the calls in the lists
from any order of their own fields. The lists themselves keep their order. -/
theorem decode?_of_reorders {r : ReflectionReport} (h : Reorders r.toJson w) :
    decode? w = some r := by
  have hkeys : ["recognized", "unrecognized"].Nodup := by decide
  obtain ⟨ws, hrecord, hws⟩ := h.record?_eq hkeys
  change Json.record? ["recognized", "unrecognized"] w = _ at hrecord
  match ws, hws with
  | [_, _], .cons hrecognized (.cons hunrecognized .nil) =>
    have hrecognized := hrecognized.listOf?_eq fun _ _ ↦ ResolvedCall.decode?_of_reorders
    have hunrecognized := hunrecognized.listOf?_eq fun _ _ ↦ UnresolvedCall.decode?_of_reorders
    rw [decode?, hrecord]
    simp [Json.withDefault?, hrecognized, hunrecognized]

/-- A reflection report can be written because its calls can. -/
theorem writable_toJson (r : ReflectionReport) : Writable r.toJson :=
  .obj (by simp [writable_arr_map, ResolvedCall.writable_toJson, UnresolvedCall.writable_toJson])

end ReflectionReport

namespace Program

/-- A pair of ids is an array, so that nothing in it can be reordered. -/
theorem stringPair?_of_reorders {p : String × String} (h : Reorders (pairToJson p) w) :
    Json.stringPair? w = some p := by
  obtain ⟨ws, rfl, hws⟩ := h.items
  rw [Json.eq_of_forall_plain hws (by simp [Plain.str])]
  rfl

theorem writable_pairToJson (p : String × String) : Writable (pairToJson p) :=
  .arr (by simp [Writable.str])

/-- **A program graph is decoded from every reordering of what is written for it**, its own fields
and those of all records inside. -/
theorem decode?_of_reorders {p : Program} (h : Reorders p.toJson w) : decode? w = some p := by
  have hkeys : ["methods", "edges", "overrides", "reflection"].Nodup := by decide
  obtain ⟨ws, hrecord, hws⟩ := h.record?_eq hkeys
  change Json.record? ["methods", "edges", "overrides", "reflection"] w = _ at hrecord
  -- the values of the fields in the order of their names, each with what it is a reordering of
  match ws, hws with
  | [_, _, _, _], .cons hmethods (.cons hedges (.cons hoverrides (.cons hreflection .nil))) =>
    have hmethods := hmethods.listOf?_eq fun _ _ ↦ Method.decode?_of_reorders
    have hedges := hedges.listOf?_eq fun _ _ ↦ stringPair?_of_reorders
    have hoverrides := hoverrides.listOf?_eq fun _ _ ↦ stringPair?_of_reorders
    have hreflection := ReflectionReport.decode?_of_reorders hreflection
    rw [decode?, hrecord]
    simp [Json.withDefault?, hmethods, hedges, hoverrides, hreflection]

/-- Every program graph can be written. -/
theorem writable_toJson (p : Program) : Writable p.toJson :=
  .obj (by simp [writable_arr_map, Method.writable_toJson, writable_pairToJson,
    ReflectionReport.writable_toJson])

/-- **A program graph is read back from what is written for it.** The fields of every record may
stand in any order. The text may be the one without blanks, or any other JSON text of that value. -/
theorem parse?_of_reorders (p : Program) {v : Json} (h : Reorders p.toJson v) :
    parse? v.compact = some p ∧ ∀ text, Json.IsText text v → parse? text = some p := by
  have hparse : ∀ text, Json.IsText text v → parse? text = some p := by
    intro text htext
    rw [parse?, Json.parse?_of_isText htext]
    exact decode?_of_reorders h
  -- the text without blanks is one of the texts
  exact ⟨hparse _ (Json.isText_compact (h.writable p.writable_toJson)), hparse⟩

/-- A method whose texts hold quotes, a letter beyond ASCII and a line end. -/
def say : Method :=
  ⟨"say", "Say", "Say(\"é\")", "App", "", "app\n", true, false⟩

/-- What is written for it, with its fields backwards. -/
def sayBackwards : Json :=
  .obj [("is_virtual", .bool false), ("is_public", .bool true), ("assembly", .str "app\n"),
    ("namespace", .str ""), ("declaring_type", .str "App"), ("signature", .str "Say(\"é\")"),
    ("name", .str "Say"), ("id", .str "say")]

/-- A program with this method, a callee that has a control character for its id, and a call without
category. -/
def quoted : Program where
  methods := [say]
  edges := [("say", "\x01")]
  reflection := { unrecognized := [⟨"say", "invoke", .memberTrimming, "a\\b", none⟩] }

/-- What is written for it, with its fields and those of its method backwards. -/
def quotedBackwards : Json :=
  .obj [("reflection", quoted.reflection.toJson), ("overrides", .arr []),
    ("edges", .arr [pairToJson ("say", "\x01")]), ("methods", .arr [sayBackwards])]

theorem parse?_of_reorders_quoted :
    Reorders quoted.toJson quotedBackwards ∧ parse? quotedBackwards.compact = some quoted := by
  have hmethod : Reorders say.toJson sayBackwards :=
    .obj rfl (by simp [Reorders.refl]) (List.reverse_perm _).symm
  have hmethods : Reorders (.arr [say.toJson]) (.arr [sayBackwards]) :=
    .arr rfl (by simpa using hmethod)
  have hperm : [("methods", .arr [sayBackwards]), ("edges", .arr [pairToJson ("say", "\x01")]),
      ("overrides", .arr []), ("reflection", quoted.reflection.toJson)].Perm
        [("reflection", quoted.reflection.toJson), ("overrides", .arr []),
          ("edges", .arr [pairToJson ("say", "\x01")]), ("methods", .arr [sayBackwards])] :=
    (List.reverse_perm _).symm
  have h : Reorders quoted.toJson quotedBackwards := by
    refine .obj ?_ ?_ hperm
    · rfl
    · simp [Reorders.refl, hmethods, quoted]
  exact ⟨h, (parse?_of_reorders quoted h).1⟩

end Program

end HazardTrace
