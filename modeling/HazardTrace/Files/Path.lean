/-!
# Paths

A path is kept as it is spelled. Two spellings of a path are the same when they have the same
components: repeated and trailing slashes do not count, nor does a dot, except one at the start.
Paths are ordered by their components, so a directory comes right before what is in it.
-/

namespace HazardTrace

namespace Path

/-- The parts between slashes. -/
def segments (p : String) : List String :=
  (p.toList.splitOn '/').map .ofList

/-- Does the path start at the root? -/
def isAbsolute (p : String) : Bool :=
  p.toList.head? == some '/'

/-- A component of a path. -/
inductive Component where
  | root
  | here
  | up
  | name (s : String)
deriving DecidableEq, Repr

/-- The place of a kind of component in the order of components. -/
def Component.rank : Component → Nat
  | .root => 0
  | .here => 1
  | .up => 2
  | .name _ => 3

/-- The text of a component that is a name. -/
def Component.text : Component → String
  | .name s => s
  | _ => ""

/-- Components by kind, and names by their text. -/
def Component.lt (a b : Component) : Bool :=
  decide (a.rank < b.rank) || (a.rank == b.rank && decide (a.text < b.text))

/-- What a segment behind the first stands for; a dot and an empty segment stand for nothing. -/
def component? (s : String) : Option Component :=
  if s = "" ∨ s = "." then none else if s = ".." then some .up else some (.name s)

/-- The components of a path. -/
def components (p : String) : List Component :=
  match segments p with
  | [] => []
  | first :: rest =>
    let start :=
      if isAbsolute p then [.root] else if first = "." then [.here] else (component? first).toList
    start ++ rest.filterMap component?

/-- Lists of components in lexicographic order. -/
def componentsLe : List Component → List Component → Bool
  | [], _ => true
  | _ :: _, [] => false
  | a :: as, b :: bs => if a = b then componentsLe as bs else a.lt b

/-- Paths by their components. -/
def le (p q : String) : Bool :=
  componentsLe (components p) (components q)

/-- Are two spellings those of one path? -/
def same (p q : String) : Bool :=
  components p == components q

/-- Keeps the first of each run of equal paths. -/
def dropRepeats : List String → List String
  | [] => []
  | p :: ps => p :: (dropRepeats ps).dropWhile (same p)

/-- Paths in order, each of them once, in the spelling that came first. -/
def sorted (ps : List String) : List String :=
  dropRepeats (ps.mergeSort le)

/-- A path that starts at `base`, unless it starts at the root. -/
def join (base p : String) : String :=
  if isAbsolute p then p
  else if base = "" ∨ base.toList.getLast? = some '/' then base ++ p
  else base ++ "/" ++ p

/-- Drops segments at the end that stand for nothing; the first segment stays. -/
def trimEnd (segs : List String) : List String :=
  match segs with
  | [] => []
  | first :: rest =>
    first :: (rest.reverse.dropWhile fun s ↦ s == "" || s == ".").reverse

/-- The path of the directory that a path lies in; `none` for the root and the empty path. -/
def parent? (p : String) : Option String :=
  let segs := trimEnd (segments p)
  let up := trimEnd segs.dropLast
  match components p with
  | [] | [.root] => none
  | _ => if isAbsolute p ∧ up = [""] then some "/" else some ("/".intercalate up)

end Path

end HazardTrace
