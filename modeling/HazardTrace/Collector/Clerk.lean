import HazardTrace.Collector

/-!
# Counting along the way

A collector that keeps no list of chains. Whatever the summary says is counted when a chain is
taken: the chains of each category, the types of each namespace that were hit, and the chains of
each group at each level. With grouping the chains themselves are kept in a tree of groups, from
which they are delivered at the end; without, only their keys are kept.

All accounts are tables in order of their keys, changed by `Table.update` one entry at a time.
-/

namespace HazardTrace

/-! ## Tables -/

namespace Table

variable {α β : Type} [LT α] [DecidableLT α] [DecidableEq α]

/-- Changes the entry of a key. One that is missing is put in its place. -/
def update (a : α) (f : Option β → β) : List (α × β) → List (α × β)
  | [] => [(a, f none)]
  | (b, v) :: t =>
    if a = b then (b, f (some v)) :: t
    else if a < b then (a, f none) :: (b, v) :: t
    else (b, v) :: update a f t

/-- The entry of a key. -/
def get? (a : α) : List (α × β) → Option β
  | [] => none
  | (b, v) :: t => if a = b then some v else get? a t

/-- Counts one more for a key. -/
def count (a : α) (t : List (α × Nat)) : List (α × Nat) :=
  update a (fun n ↦ n.getD 0 + 1) t

/-- Adds a key to a table that is a set. -/
def add (a : α) (t : List (α × Unit)) : List (α × Unit) :=
  update a (fun _ ↦ ()) t

end Table

instance : LE Chain.Key := ⟨fun a b ↦ a.le b = true⟩

instance : DecidableLE Chain.Key := fun a b ↦ inferInstanceAs (Decidable (a.le b = true))

instance : LT Chain.Key := ⟨fun a b ↦ a ≤ b ∧ ¬ b ≤ a⟩

instance : DecidableLT Chain.Key := fun a b ↦ inferInstanceAs (Decidable (a ≤ b ∧ ¬ b ≤ a))

/-! ## Groups -/

/-- A group of chains: how many there are, those that are in no smaller group, and the smaller
groups by label. -/
structure Group where
  kind : Option GroupKind := none
  count : Nat := 0
  chains : List (Chain.Key × Chain) := []
  children : List (String × Group) := []

namespace Group

/-- Puts a chain into the group that a path leads to, and counts it on the way. -/
def insert (c : Chain) : List (GroupKind × String) → Group → Group
  | [], g =>
    { g with count := g.count + 1, chains := Table.update c.key (fun _ ↦ c) g.chains }
  | (kind, label) :: path, g =>
    { g with
      count := g.count + 1
      children := Table.update label
        (fun child ↦ insert c path { child.getD {} with kind := some kind }) g.children }

/-- The smaller groups, larger ones first and groups of one size by label. -/
def ordered (g : Group) : List (String × Group) :=
  g.children.mergeSort fun a b ↦
    decide (b.2.count < a.2.count) || (a.2.count == b.2.count && decide (a.1 ≤ b.1))

theorem sizeOf_lt_of_mem_ordered {g : Group} {p : String × Group} (h : p ∈ g.ordered) :
    sizeOf p.2 < sizeOf g := by
  obtain ⟨kind, count, chains, children⟩ := g
  have hlt := List.sizeOf_lt_of_mem (List.mem_mergeSort.1 h)
  obtain ⟨label, child⟩ := p
  simp only [Prod.mk.sizeOf_spec, mk.sizeOf_spec] at hlt ⊢
  omega

/-- The deliveries of a group. -/
def emit (g : Group) : List Delivery :=
  g.chains.map (fun p ↦ .chain p.2) ++ g.ordered.attach.flatMap fun ⟨(label, child), _⟩ ↦
    .openGroup (child.kind.getD .method) label child.count :: (child.emit ++ [.closeGroup])
termination_by sizeOf g
decreasing_by exact sizeOf_lt_of_mem_ordered ‹_›

end Group

/-! ## Hit types -/

namespace Coverage

/-- For each namespace, the types that declare a method on record. -/
abbrev Tracker := List (String × List (String × Unit))

namespace Tracker

/-- Records the type that declares a method. The global namespace is left out. -/
def record (m : Method) (t : Tracker) : Tracker :=
  if m.ns = "" then t else Table.update m.ns (fun types ↦ Table.add m.declaringType (types.getD [])) t

/-- The coverage of all namespaces, given the types that were hit. -/
def summarize (s : Numbering Method) (hits : Tracker) : List Line :=
  let totals := s.resolved.foldl (fun t p ↦ Tracker.record p.2 t) []
  let hit := hits.map fun (ns, types) ↦
    { ns, hitTypes := types.length,
      totalTypes := ((Table.get? ns totals).map List.length).getD types.length }
  hit.mergeSort Line.le ++
    (totals.filter fun p ↦ (Table.get? p.1 hits).isNone).map fun (ns, types) ↦
      { ns, hitTypes := 0, totalTypes := types.length }

end Tracker

end Coverage

/-! ## Clerks -/

/-- A collector that counts along the way, with the receiver of its report. -/
structure Clerk (σ : Type) where
  receiver : σ
  /-- The keys of the chains taken so far. -/
  seen : List (Chain.Key × Unit) := []
  /-- All chains, if they are grouped. -/
  groups : Group := {}
  /-- The hazards seen to be entries. -/
  exposed : List (Nat × Unit) := []
  /-- The types that declare the entry of a chain. -/
  hits : Coverage.Tracker := []
  chains : Nat := 0
  duplicates : Nat := 0
  suppressed : Nat := 0
  findings : Nat := 0
  perAnnotationCategory : List (String × Nat) := []
  perCategory : List (String × Nat) := []

namespace Clerk

open Collector (Context Observation Summary Message observations)

variable {σ : Type} [Receiver σ]

/-- Enters a new chain in all accounts. -/
def enter (ctx : Context) (c : Chain) (clerk : Clerk σ) : Clerk σ :=
  { clerk with
    seen := Table.add c.key clerk.seen
    chains := clerk.chains + 1
    perAnnotationCategory := Table.count c.note.category clerk.perAnnotationCategory
    perCategory := Table.count c.category clerk.perCategory
    hits := (c.entry?.bind ctx.numbering.detail?).elim clerk.hits (Coverage.Tracker.record · clerk.hits)
    groups :=
      if ctx.grouping.isGrouped then clerk.groups.insert c (ctx.grouping.path ctx.numbering c)
      else clerk.groups }

/-- Hands a delivery to the receiver. -/
def deliver (clerk : Clerk σ) (d : Delivery) : Clerk σ × Except Error Unit :=
  let (receiver, result) := Receiver.receive clerk.receiver d
  ({ clerk with receiver }, result)

/-- Takes a chain. -/
def take (ctx : Context) (clerk : Clerk σ) (c : Chain) : Clerk σ × Except Error Unit :=
  if (Table.get? c.key clerk.seen).isSome then
    ({ clerk with duplicates := clerk.duplicates + 1 }, .ok ())
  else if ctx.grouping.isGrouped then (clerk.enter ctx c, .ok ())
  else (clerk.enter ctx c).deliver (.chain c)

/-- Takes one observation about `source`. -/
def observe (ctx : Context) (source : Nat) (clerk : Clerk σ) :
    Observation → Clerk σ × Except Error Unit
  | .exposed => ({ clerk with exposed := Table.add source clerk.exposed }, .ok ())
  | .suppressed => ({ clerk with suppressed := clerk.suppressed + 1 }, .ok ())
  | .chain nodes note => clerk.take ctx (ctx.chain nodes note)

/-- Takes observations in order, up to the first whose delivery fails. -/
def observeAll (ctx : Context) (source : Nat) (clerk : Clerk σ) :
    List Observation → Clerk σ × Except Error Unit
  | [] => (clerk, .ok ())
  | o :: os =>
    match clerk.observe ctx source o with
    | (clerk, .ok ()) => clerk.observeAll ctx source os
    | (clerk, .error e) => (clerk, .error e)

/-- Takes the finding of one search. -/
def process (ctx : Context) (clerk : Clerk σ) (f : Finding) : Clerk σ × Except Error Unit :=
  let clerk := { clerk with findings := clerk.findings + 1 }
  match ctx.marking.note? f.source with
  | none => (clerk, .ok ())
  | some a => clerk.observeAll ctx f.source (observations a f)

/-- The summary of what has been counted. -/
def summary (ctx : Context) (clerk : Clerk σ) : Summary where
  chains := clerk.chains
  duplicates := clerk.duplicates
  suppressed := clerk.suppressed
  findings := clerk.findings
  perAnnotationCategory := clerk.perAnnotationCategory
  perCategory := clerk.perCategory
  groups :=
    if ctx.grouping.isGrouped then clerk.groups.ordered.map fun p ↦ (p.1, p.2.count) else []
  exposedSources := clerk.exposed.map fun p ↦ ctx.numbering.label (some p.1)
  coverage := Coverage.Tracker.summarize ctx.numbering clerk.hits

/-- Delivers the groups, if there are any, and ends the report. -/
def finish (ctx : Context) (clerk : Clerk σ) : Clerk σ × Except Error Summary :=
  let closing := (if ctx.grouping.isGrouped then clerk.groups.emit else []) ++ [.finish]
  let (receiver, result) := Receiver.receiveAll clerk.receiver closing
  ({ clerk with receiver }, result.map fun _ ↦ clerk.summary ctx)

end Clerk

end HazardTrace
