import HazardTrace.Note
import HazardTrace.Numbering

/-!
# Chains

A chain leads from a dangerous method through its callers to an entry method. Two chains are the
same for the report when they have the same key: the same methods, the same category, and the same
note as printed. Chains have a category, by which they are counted, and may be arranged in groups.
-/

namespace HazardTrace

/-! ## Chains and their keys -/

/-- The paths that one search found, each of them from the start to a destination. -/
structure Finding where
  source : Nat
  paths : List (List Nat)
deriving DecidableEq, Repr

/-- A reportable chain. -/
structure Chain where
  /-- The methods, dangerous end first. -/
  nodes : List Nat := []
  /-- The printed form of those methods that are known, in the same order. -/
  frames : List String := []
  category : String := ""
  note : Note
deriving DecidableEq, Repr

namespace Chain

/-- The identity of a chain in the report. -/
structure Key where
  nodes : List Nat
  category : String
  note : String
deriving DecidableEq, Repr

/-- Keys by methods, then by category, then by note. -/
def Key.le (a b : Key) : Bool :=
  if a.nodes = b.nodes then
    if a.category = b.category then decide (a.note ≤ b.note)
    else decide (a.category < b.category)
  else decide (a.nodes < b.nodes)

/-- The key of a chain. -/
def key (c : Chain) : Key :=
  ⟨c.nodes, c.category, c.note.text⟩

/-- Do two chains have the same key? -/
def sameKey (a b : Chain) : Bool :=
  a.nodes == b.nodes && a.category == b.category && a.note.text == b.note.text

/-- The dangerous method. -/
def source? (c : Chain) : Option Nat :=
  c.nodes.head?

/-- The entry method. -/
def entry? (c : Chain) : Option Nat :=
  c.nodes.getLast?

/-- The line above the frames of a chain. -/
def header (c : Chain) : String :=
  "---------- (" ++ c.note.text ++ ")"

theorem sameKey_iff {a b : Chain} : a.sameKey b = true ↔ a.key = b.key := by
  simp [sameKey, key, and_assoc]

end Chain

/-!
## Categories of chains

A chain belongs to the category of the first signature it bears, and otherwise to the namespace of
its dangerous method, or to that method's type when the namespace is global.
-/

namespace Category

/-- The category of a chain whose dangerous method is unknown. -/
def unresolved : String := "resolution failure"

/-- A family of chains with a category of its own: every needle occurs in some frame. -/
structure Signature where
  category : String
  needles : List String
deriving DecidableEq, Repr

/-- The well-known families, which would otherwise swamp their namespace. -/
def wellKnown : List Signature :=
  [ ⟨"eventsource_customattributehelper",
      ["System.Diagnostics.Tracing.EventSource::GetCustomAttributeHelper"]⟩,
    ⟨"eventsource_traceloggingeventtypes",
      ["EventSource::WriteEventWithRelatedActivityIdCore",
        "TraceLoggingEventTypes::.ctor(System.String"]⟩ ]

/-- Does `needle` occur in a text? -/
def occurs (needle : List Char) : List Char → Bool
  | [] => needle.isEmpty
  | c :: rest => needle.isPrefixOf (c :: rest) || occurs needle rest

/-- Do the frames of a chain bear the signature? -/
def Signature.isBorneBy (s : Signature) (frames : List String) : Bool :=
  s.needles.all fun needle ↦ frames.any fun frame ↦ occurs needle.toList frame.toList

/-- The category of a chain with the given methods and frames. -/
def classify (signatures : List Signature) (s : Numbering Method) (nodes : List Nat)
    (frames : List String) : String :=
  match nodes.head?.bind s.detail? with
  | none => unresolved
  | some source =>
    match signatures.find? (·.isBorneBy frames) with
    | some signature => signature.category
    | none => if source.ns = "" then source.declaringType else source.ns

end Category

/-!
## Grouping of chains

A grouping is a list of levels, outermost first. Each level has a kind and gives every chain a
label.
-/

/-- What the label of a group names. -/
inductive GroupKind where
  | method
  | assembly
  | category
  | dependency
deriving DecidableEq, Repr

/-- The name of a kind of group. -/
def GroupKind.name : GroupKind → String
  | .method => "method"
  | .assembly => "assembly"
  | .category => "category"
  | .dependency => "dependency"

/-- How the chains of a report are arranged. -/
inductive Grouping where
  /-- Not at all: chains are reported as they are found. -/
  | none
  /-- By entry method. -/
  | caller
  /-- By assembly of the immediate caller, then by category of the note, then by the pair of
  immediate caller and dangerous method. -/
  | immediateCaller
  /-- By dangerous method. -/
  | callee
deriving DecidableEq, Repr

/-- How a method is named in a label: in full when it is known, else by its id. -/
def Numbering.label (s : Numbering Method) : Option Nat → String
  | .none => "<none>"
  | some node =>
    match s.detail? node with
    | some m => m.fullName
    | .none => (s.id? node).getD ("<node " ++ toString node ++ ">")

namespace Grouping

/-- All groupings. -/
def all : List Grouping :=
  [.none, .caller, .immediateCaller, .callee]

/-- The name of a grouping. -/
def name : Grouping → String
  | .none => "none"
  | .caller => "caller"
  | .immediateCaller => "immediate-caller"
  | .callee => "callee"

/-- The grouping with a given name. Letter case does not count, and the two words of a name may be
joined in three ways. -/
def parse (s : String) : Except Error Grouping :=
  let lower := s.map Char.toLower
  if lower = "none" then .ok .none
  else if lower = "caller" then .ok .caller
  else if lower ∈ ["immediate-caller", "immediatecaller", "immediate_caller"] then
    .ok .immediateCaller
  else if lower = "callee" then .ok .callee
  else .error (.argument ("unknown grouping '" ++ lower ++
    "' (expected none, caller, immediate-caller or callee)"))

/-- Are chains arranged at all? -/
def isGrouped (g : Grouping) : Bool :=
  g != .none

/-- The method that calls the dangerous method, or the dangerous method if it stands alone. -/
def immediateCaller? (c : Chain) : Option Nat :=
  c.nodes[1]? <|> c.nodes.head?

/-- One level: its kind, and the label of each chain. -/
structure Level where
  kind : GroupKind
  label : Chain → String

/-- The levels of a grouping, outermost first. -/
def levels (s : Numbering Method) : Grouping → List Level
  | .none => []
  | .callee => [⟨.method, fun c ↦ s.label c.source?⟩]
  | .caller => [⟨.method, fun c ↦ s.label c.entry?⟩]
  | .immediateCaller =>
    [ ⟨.assembly, fun c ↦
        (((immediateCaller? c).bind s.detail?).map Method.assembly).getD ""⟩,
      ⟨.category, fun c ↦ c.note.category⟩,
      ⟨.dependency, fun c ↦
        s.label (immediateCaller? c) ++ " depends on " ++ s.label c.source?⟩ ]

/-- The groups that a chain belongs to, outermost first. -/
def path (g : Grouping) (s : Numbering Method) (c : Chain) : List (GroupKind × String) :=
  (g.levels s).map fun level ↦ (level.kind, level.label c)

end Grouping

end HazardTrace
