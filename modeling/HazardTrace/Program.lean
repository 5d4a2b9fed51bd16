import HazardTrace.Files.System
import HazardTrace.Json.Basic
import HazardTrace.Json.Reader
import HazardTrace.Numbering
import HazardTrace.Reflection

/-!
# Program graphs

The description of a program that the analysis starts from: its methods, who calls whom, which
method overrides which, and what is known of reflective calls. Methods are named by ids. Calls and
verdicts may name methods that are not described. A description is kept in a file as one JSON
document.
-/

namespace HazardTrace

/-! ## Methods and relations -/

/-- A program as its methods and the relations between them. -/
structure Program where
  methods : List Method := []
  /-- Pairs of caller and callee. -/
  edges : List (String × String) := []
  /-- Pairs of base and override. -/
  overrides : List (String × String) := []
  reflection : ReflectionReport := {}
deriving DecidableEq, Repr

namespace Program

/-- The numbering of the described methods, in order of description. -/
def declared (p : Program) : Numbering Method :=
  p.methods.foldl (fun s m ↦ (s.declare m.id m).2) .empty

/-- The ids that calls and verdicts name, in order. -/
def mentioned (p : Program) : List String :=
  p.edges.flatMap (fun e ↦ [e.1, e.2]) ++
    p.reflection.recognized.flatMap (fun c ↦ [c.caller, c.target]) ++
    p.reflection.unrecognized.flatMap (fun c ↦ [c.caller, c.target])

/-- The numbering of all methods: the described ones first, then the others that are mentioned. -/
def numbering (p : Program) : Numbering Method :=
  p.mentioned.foldl (fun s id ↦ (s.assign id).2) p.declared

/-- Numbers all methods and logs how many of them are only mentioned. -/
def numberingLogged (p : Program) : Logged (Numbering Method) :=
  let extra := p.numbering.size - p.declared.size
  ⟨p.numbering,
    if extra = 0 then []
    else [Log.event .debug .program "methods referenced without metadata"
      [("unresolved", .number extra)]]⟩

/-- The calls between numbered methods. -/
def numberedEdges (p : Program) (s : Numbering Method) : List (Nat × Nat) :=
  p.edges.filterMap fun (caller, callee) ↦ do
    return (← s.number? caller, ← s.number? callee)

end Program

/-!
## Program graphs as JSON

`Program.decode?` reads a program graph from a JSON value and `Program.toJson` writes one, with all
fields in their declared order.
-/

section

open Json (string? bool? listOf? nullable? record? required? withDefault? stringPair?)

namespace Aspect

/-- An aspect is given by its name, alone or as the only key of an object with value `null`. -/
def decode? : Json → Option Aspect
  | .str s => ofName? s
  | .obj [(s, .null)] => ofName? s
  | _ => none

/-- An aspect is written as its name. -/
def toJson (a : Aspect) : Json :=
  .str a.name

end Aspect

namespace Method

/-- The fields of a method, in their declared order. -/
def fieldNames : List String :=
  ["id", "name", "signature", "declaring_type", "namespace", "assembly", "is_public", "is_virtual"]

/-- Reads a method. -/
def decode? (v : Json) : Option Method :=
  match record? fieldNames v with
  | some [id, name, signature, declaringType, ns, assembly, isPublic, isVirtual] => do
    return {
      id := ← required? string? id
      name := ← required? string? name
      signature := ← required? string? signature
      declaringType := ← required? string? declaringType
      ns := ← withDefault? string? "" ns
      assembly := ← withDefault? string? "" assembly
      isPublic := ← withDefault? bool? false isPublic
      isVirtual := ← withDefault? bool? false isVirtual }
  | _ => none

/-- Writes a method with all its fields. -/
def toJson (m : Method) : Json :=
  .obj [("id", .str m.id), ("name", .str m.name), ("signature", .str m.signature),
    ("declaring_type", .str m.declaringType), ("namespace", .str m.ns),
    ("assembly", .str m.assembly), ("is_public", .bool m.isPublic),
    ("is_virtual", .bool m.isVirtual)]

end Method

namespace ResolvedCall

/-- Reads a resolved reflective call. -/
def decode? (v : Json) : Option ResolvedCall :=
  match record? ["caller", "reflection_method"] v with
  | some [caller, target] => do
    return { caller := ← required? string? caller, target := ← required? string? target }
  | _ => none

/-- Writes a resolved reflective call. -/
def toJson (c : ResolvedCall) : Json :=
  .obj [("caller", .str c.caller), ("reflection_method", .str c.target)]

end ResolvedCall

namespace UnresolvedCall

/-- Reads an unresolved reflective call. -/
def decode? (v : Json) : Option UnresolvedCall :=
  match record? ["caller", "reflection_method", "aspect", "message", "category"] v with
  | some [caller, target, aspect, message, category] => do
    return {
      caller := ← required? string? caller
      target := ← required? string? target
      aspect := ← required? Aspect.decode? aspect
      message := ← required? string? message
      category := ← withDefault? (nullable? string?) none category }
  | _ => none

/-- Writes an unresolved reflective call; a missing category is null. -/
def toJson (c : UnresolvedCall) : Json :=
  .obj [("caller", .str c.caller), ("reflection_method", .str c.target),
    ("aspect", c.aspect.toJson), ("message", .str c.message),
    ("category", .option .str c.category)]

end UnresolvedCall

namespace ReflectionReport

/-- Reads the reflective calls of a program. -/
def decode? (v : Json) : Option ReflectionReport :=
  match record? ["recognized", "unrecognized"] v with
  | some [recognized, unrecognized] => do
    return {
      recognized := ← withDefault? (listOf? ResolvedCall.decode?) [] recognized
      unrecognized := ← withDefault? (listOf? UnresolvedCall.decode?) [] unrecognized }
  | _ => none

/-- Writes the reflective calls of a program. -/
def toJson (r : ReflectionReport) : Json :=
  .obj [("recognized", .arr (r.recognized.map ResolvedCall.toJson)),
    ("unrecognized", .arr (r.unrecognized.map UnresolvedCall.toJson))]

end ReflectionReport

namespace Program

/-- Writes a pair of ids. -/
def pairToJson (p : String × String) : Json :=
  .arr [.str p.1, .str p.2]

/-- Reads a program graph. Every field may be left out. -/
def decode? (v : Json) : Option Program :=
  match record? ["methods", "edges", "overrides", "reflection"] v with
  | some [methods, edges, overrides, reflection] => do
    return {
      methods := ← withDefault? (listOf? Method.decode?) [] methods
      edges := ← withDefault? (listOf? stringPair?) [] edges
      overrides := ← withDefault? (listOf? stringPair?) [] overrides
      reflection := ← withDefault? ReflectionReport.decode? {} reflection }
  | _ => none

/-- Writes a program graph with all its fields. -/
def toJson (p : Program) : Json :=
  .obj [("methods", .arr (p.methods.map Method.toJson)), ("edges", .arr (p.edges.map pairToJson)),
    ("overrides", .arr (p.overrides.map pairToJson)), ("reflection", p.reflection.toJson)]

/-- Reads a program graph from the text of a JSON document. -/
def parse? (text : String) : Option Program :=
  (Json.parse? text).bind decode?

end Program

end

/-!
## Program files

A program graph is loaded from a file that holds one JSON document.
-/

namespace Program

/-- Loads a program graph, and logs how large it is. -/
def load (fs : FileSystem) (path : String) : Attempt Program := do
  let text ← ExceptT.mk (pure ((fs.readText path).mapError fun fault ↦ .file path fault.message))
  match parse? text with
  | none => throw (.input path "not a program graph")
  | some p => do
    ExceptT.lift <| Logged.log <| Log.event .info .program "loaded program graph"
      [("path", .text path), ("methods", .number p.methods.length),
        ("edges", .number p.edges.length), ("overrides", .number p.overrides.length)]
    return p

end Program

end HazardTrace
