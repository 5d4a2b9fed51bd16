/-!
# Log events and errors

What a step of the analysis tells apart from its result: events for the operator, which it may leave
at any time, and the error that stops a run.
-/

namespace HazardTrace

/-!
## Log events

A step of the analysis may leave remarks for the operator: a rule that names no known method, a note
that found its place taken, how much was loaded. They are data, collected beside the value that the
step computes. `Logged α` pairs the two, and its `bind` appends the events in order, so the
value of a logged computation can be studied with the events left aside: `value_bind` and
`value_foldlM` say that the value never depends on them.
-/

namespace Log

/-- How serious an event is. -/
inductive Level where
  | error
  | warn
  | info
  | debug
deriving DecidableEq, Repr

/-- The name of a level in a log line. -/
def Level.name : Level → String
  | .error => "ERROR"
  | .warn => "WARN"
  | .info => "INFO"
  | .debug => "DEBUG"

/-- Levels by detail: a filter that lets a level through lets through all levels below it. -/
def Level.detail : Level → Nat
  | .error => 1
  | .warn => 2
  | .info => 3
  | .debug => 4

/-- The part of the program that reports an event. -/
inductive Component where
  | program
  | rules
  | marking
  | overrides
  | reflection
  | graph
  | search
  | collector
  | analysis
  | command
deriving DecidableEq, Repr

/-- The target under which a component's events are filtered and printed. -/
def Component.target : Component → String
  | .program => "trimreach_core::input"
  | .rules => "trimreach_core::annotations::loader"
  | .marking => "trimreach_core::annotations::model"
  | .overrides => "trimreach_core::overrides"
  | .reflection => "trimreach_core::reflection"
  | .graph => "trimreach_core::callgraph::graph"
  | .search => "trimreach_core::callgraph::search"
  | .collector => "trimreach_core::pipeline::worker"
  | .analysis => "trimreach_core::analyzer"
  | .command => "trimreach_core::logging"

/-- The thread of a run on which an event arises: the caller's own, the one that searches, or the
one that collects findings. -/
inductive Thread where
  | caller
  | searcher
  | collector
deriving DecidableEq, Repr

/-- A field of an event is a count or a text. -/
inductive Value where
  | number (n : Nat)
  | text (s : String)
deriving DecidableEq, Repr

/-- One log event. -/
structure Event where
  level : Level
  component : Component
  fields : List (String × Value)
  thread : Thread := .caller
deriving DecidableEq, Repr

/-- An event with a message and further fields. -/
def event (level : Level) (component : Component) (message : String)
    (fields : List (String × Value)) (thread : Thread := .caller) : Event :=
  { level, component, fields := ("message", .text message) :: fields, thread }

end Log

/-- A value together with the events that arose while it was computed, oldest first. -/
structure Logged (α : Type) where
  value : α
  events : List Log.Event := []

namespace Logged

/-- The events `events` happen before the computation `x`. -/
def after {α : Type} (events : List Log.Event) (x : Logged α) : Logged α :=
  ⟨x.value, events ++ x.events⟩

/-- Only an event, with nothing to compute. -/
def log (event : Log.Event) : Logged Unit :=
  ⟨(), [event]⟩

instance : Monad Logged where
  pure a := ⟨a, []⟩
  bind x f := after x.events (f x.value)

@[simp]
theorem value_pure {α : Type} (a : α) : (pure a : Logged α).value = a := rfl

@[simp]
theorem events_pure {α : Type} (a : α) : (pure a : Logged α).events = [] := rfl

@[simp]
theorem value_after {α : Type} (events : List Log.Event) (x : Logged α) :
    (after events x).value = x.value := rfl

@[simp]
theorem value_bind {α β : Type} (x : Logged α) (f : α → Logged β) :
    (x >>= f).value = (f x.value).value := rfl

@[simp]
theorem events_bind {α β : Type} (x : Logged α) (f : α → Logged β) :
    (x >>= f).events = x.events ++ (f x.value).events := rfl

/-- Two computations that agree in their first events and go on alike are the same. -/
theorem bind_congr {α β : Type} {x y : Logged α} {f g : α → Logged β}
    (hevents : x.events = y.events) (h : f x.value = g y.value) : x >>= f = y >>= g := by
  show after x.events (f x.value) = after y.events (g y.value)
  rw [hevents, h]

instance : LawfulMonad Logged :=
  LawfulMonad.mk' Logged
    (fun x ↦ by cases x; simp [Functor.map, after])
    (fun a f ↦ by simp [bind, after, pure])
    (fun x f g ↦ by simp [bind, after, List.append_assoc])

@[simp]
theorem value_map {α β : Type} (f : α → β) (x : Logged α) : (f <$> x).value = f x.value := rfl

/-- The value of a logged fold is the fold of the values. -/
theorem value_foldlM {α β : Type} (f : β → α → Logged β) (init : β) (xs : List α) :
    (xs.foldlM f init).value = xs.foldl (fun b a ↦ (f b a).value) init := by
  induction xs generalizing init with
  | nil => rfl
  | cons a as ih => simp [List.foldlM_cons, ih]

end Logged

/-!
## Errors of a run

Only what stops a run is an error. A rule that matches nothing or a warning that meets an existing
note is logged and skipped where it arises. `Error.message` is the only place where the wording of
an error is fixed.
-/

/-- Why a run, or a part of it, failed. -/
inductive Error where
  /-- A file could not be read. -/
  | file (path fault : String)
  /-- A rule file is malformed or missing. -/
  | config (path fault : String)
  /-- A program graph could not be decoded. -/
  | input (path fault : String)
  /-- A value given by the caller names nothing known. -/
  | argument (fault : String)
  /-- The report could not be written. -/
  | output (fault : String)
  /-- The run was asked to stop. -/
  | cancelled
  /-- The parts of the program disagree with each other. -/
  | internal (fault : String)
deriving DecidableEq, Repr

namespace Error

/-- The wording of an error. -/
def message : Error → String
  | .file path fault => "I/O error at " ++ path ++ ": " ++ fault
  | .config path fault => "Config error at " ++ path ++ ": " ++ fault
  | .input path fault => "Input error at " ++ path ++ ": " ++ fault
  | .argument fault => "Invalid argument: " ++ fault
  | .output fault => "Output error: " ++ fault
  | .cancelled => "Analysis cancelled"
  | .internal fault => "Internal error: " ++ fault

/-- The file an error is about. -/
def path? : Error → Option String
  | .file path _ | .config path _ | .input path _ => some path
  | _ => none

/-- The messages of an error and of what caused it, outermost first. Only a file error has a cause
of its own, the fault that the system reported. -/
def chain : Error → List String
  | .file path fault => [message (.file path fault), fault]
  | e => [e.message]

end Error

/-- A computation that may fail, with the events that arose up to its end or its failure. -/
abbrev Attempt (α : Type) := ExceptT Error Logged α

end HazardTrace
