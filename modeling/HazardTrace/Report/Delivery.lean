import HazardTrace.Chain
import HazardTrace.Collections

/-!
# Deliveries

A report reaches its receiver as a sequence of deliveries: chains, enclosed by the groups they
belong to, and a finish at the end. `outline` arranges chains in groups: larger groups come first,
groups of one size by label, and the chains of an innermost group by key.
-/

namespace HazardTrace

/-! ## Deliveries and their order -/

/-- One step in the handing over of a report. -/
inductive Delivery where
  | openGroup (kind : GroupKind) (label : String) (count : Nat)
  | chain (c : Chain)
  | closeGroup
  | finish
deriving DecidableEq, Repr

/-- A state that takes deliveries. A delivery may fail and leave the state changed all the same. A
receiver may also ask for the run to be cancelled. -/
class Receiver (σ : Type) where
  receive : σ → Delivery → σ × Except Error Unit
  cancels : σ → Bool := fun _ ↦ false

namespace Receiver

variable {σ : Type} [Receiver σ]

/-- Hands over deliveries in order, up to the first that fails. -/
def receiveAll (s : σ) : List Delivery → σ × Except Error Unit
  | [] => (s, .ok ())
  | d :: ds =>
    match receive s d with
    | (s', .ok ()) => receiveAll s' ds
    | (s', .error e) => (s', .error e)

end Receiver

/-- The labels of a level with the number of chains that bear them, larger groups first. -/
def Grouping.Level.groups (level : Grouping.Level) (chains : List Chain) : List (String × Nat) :=
  byCount (tally (chains.map level.label))

/-- The chains arranged by the given levels. -/
def outline : List Grouping.Level → List Chain → List Delivery
  | [], chains => (chains.mergeSort fun a b ↦ a.key.le b.key).map .chain
  | level :: levels, chains =>
    (level.groups chains).flatMap fun (label, count) ↦
      .openGroup level.kind label count ::
        (outline levels (chains.filter (level.label · == label)) ++ [.closeGroup])

/-!
## Transcripts

Two receivers that never fail: one keeps what it gets, and one only counts.
-/

/-- A group as it was opened. -/
structure OpenedGroup where
  depth : Nat
  kind : GroupKind
  label : String
  count : Nat
deriving DecidableEq, Repr

/-- What has been delivered. -/
structure Transcript where
  chains : List Chain := []
  groups : List OpenedGroup := []
  depth : Nat := 0
  finished : Bool := false
deriving DecidableEq, Repr

namespace Transcript

/-- Notes a delivery. -/
def record (t : Transcript) : Delivery → Transcript
  | .openGroup kind label count =>
    { t with groups := t.groups ++ [⟨t.depth, kind, label, count⟩], depth := t.depth + 1 }
  | .chain c => { t with chains := t.chains ++ [c] }
  | .closeGroup => { t with depth := t.depth - 1 }
  | .finish => { t with finished := true }

instance : Receiver Transcript where
  receive t d := (t.record d, .ok ())

end Transcript

/-- A receiver that keeps nothing and asks for cancellation when it gets a chain and has then got at
least `limit` of them. -/
structure Stopper where
  limit : Nat
  seen : Nat := 0
deriving DecidableEq, Repr

namespace Stopper

/-- Counts chains. -/
def record (t : Stopper) : Delivery → Stopper
  | .chain _ => { t with seen := t.seen + 1 }
  | _ => t

instance : Receiver Stopper where
  receive t d := (t.record d, .ok ())
  cancels t := 0 < t.seen && t.limit ≤ t.seen

end Stopper

end HazardTrace
