import HazardTrace.Log

/-!
# Notes

A note is a judgment on a method: a warning, a suppression, or the record of the reflective calls in
it whose target is unknown.
-/

namespace HazardTrace

/-- The readiness dimension that a note is about. -/
inductive Aspect where
  | assemblyTrimming
  | typeTrimming
  | memberTrimming
  | singleFile
deriving DecidableEq, Repr

namespace Aspect

/-- All aspects. -/
def all : List Aspect :=
  [assemblyTrimming, typeTrimming, memberTrimming, singleFile]

/-- The name by which an aspect is written. -/
def name : Aspect → String
  | assemblyTrimming => "AssemblyTrimming"
  | typeTrimming => "TypeTrimming"
  | memberTrimming => "MemberTrimming"
  | singleFile => "SingleFile"

/-- The aspect with a given name. -/
def ofName? (s : String) : Option Aspect :=
  all.find? (·.name == s)

/-- The aspect with a given name; any other name is an error. -/
def parse (s : String) : Except Error Aspect :=
  match ofName? s with
  | some a => .ok a
  | none => .error (.argument ("unknown aspect '" ++ s ++ "'"))

theorem ofName?_name (a : Aspect) : ofName? a.name = some a := by
  cases a <;> decide

end Aspect

/-- What a rule says about a method. -/
structure Remark where
  category : String
  text : String
  aspect : Aspect
deriving DecidableEq, Repr

/-- A reflective call whose target could not be resolved. -/
structure ReflectiveCall where
  /-- Number of the reflection method that is called. -/
  target : Nat
  remark : Remark
deriving DecidableEq, Repr

/-- The judgment attached to a method. -/
inductive Note where
  /-- Dangerous; chains to it are reported with the remark. -/
  | warn (remark : Remark)
  /-- Dangerous and reviewed; chains to it are counted and not reported. -/
  | suppress (remark : Remark)
  /-- The unresolved reflective calls of the method, in order of arrival. -/
  | unanalyzed (calls : List ReflectiveCall)
deriving DecidableEq, Repr

namespace Note

/-- The category of a rule that names none. -/
def defaultCategory : String := "Uncategorized"

/-- The category of an unresolved reflective call that has none. -/
def unanalyzedCategory : String := "LinkerUnanalyzed"

/-- The category of a note; that of its first call for a record of calls. -/
def category : Note → String
  | .warn r | .suppress r => r.category
  | .unanalyzed calls => (calls.head?.map (·.remark.category)).getD unanalyzedCategory

/-- The aspect of a note; that of its first call for a record of calls. -/
def aspect : Note → Aspect
  | .warn r | .suppress r => r.aspect
  | .unanalyzed calls => (calls.head?.map (·.remark.aspect)).getD .memberTrimming

/-- The note as it is printed: category, then message. The messages of a record of calls are
separated by bars. -/
def text (a : Note) : String :=
  a.category ++ ": " ++
    match a with
    | .warn r | .suppress r => r.text
    | .unanalyzed calls => " | ".intercalate (calls.map (·.remark.text))

/-- Is this a warning? -/
def isWarn : Note → Bool
  | .warn _ => true
  | _ => false

/-- Is this a suppression? -/
def isSuppress : Note → Bool
  | .suppress _ => true
  | _ => false

/-- Is this a record of unresolved calls? -/
def isUnanalyzed : Note → Bool
  | .unanalyzed _ => true
  | _ => false

/-- Warnings and suppressions are configured; a record of calls gives way to them. -/
def isConfigured (a : Note) : Bool :=
  !a.isUnanalyzed

end Note

end HazardTrace
