import HazardTrace.Proofs.Analysis.Graph
import HazardTrace.Proofs.Program.Pairs

/-!
# The verdicts of a report

A report names methods by id, and a verdict that names an unknown one is dropped. Where all ids have
numbers nothing is dropped or logged (`events_ofReport`), and the verdicts can be read off the
report.

* **Unresolved calls.** Those of a method are the ones that the report lists for it, in its order
  (`map_unresolvedCalls_ofReport`). They are appended one by one (`unresolvedCalls_addUnresolved`),
  so after the loop a method has the calls that were meant for it (`unresolvedCalls_foldl`); the
  rest is going from numbers back to ids, which are one to one.
* **Resolved calls.** As many are counted as the report has different ones
  (`resolvedCount_ofReport`). Callers are kept per target and without repetition
  (`nodup_resolvedCallers_ofResolved`), so that they are as many as the pairs of numbers
  (`length_flatMap_eq_of_mem_iff`), and these are as many as the pairs of ids.

The two kinds do not mix. The report is read in two loops, first over the resolved and then over the
unresolved calls, and each loop leaves the verdicts of the other kind as they are
(`unresolved_foldl_addResolved` and its counterpart for resolved calls). `value_ofReport` writes the
two loops out over lists of numbers. Of the resolved calls only the pairs matter, not their order or
repetition.
-/

namespace HazardTrace

/-- Both ends of a resolved call. -/
def ResolvedCall.ends (c : ResolvedCall) : String × String :=
  (c.caller, c.target)

/-- A resolved call has nothing but its ends. -/
theorem ResolvedCall.ends_injective : Function.Injective ResolvedCall.ends := by
  rintro ⟨caller, target⟩ ⟨caller', target'⟩ h
  obtain ⟨rfl, rfl⟩ := Prod.mk.inj h
  rfl

namespace UnresolvedCall

/-- Both ends of an unresolved call. -/
def ends (c : UnresolvedCall) : String × String :=
  (c.caller, c.target)

/-- What a report says about an unresolved call. -/
def remark (c : UnresolvedCall) : Remark :=
  ⟨c.category.getD Note.unanalyzedCategory, c.message, c.aspect⟩

end UnresolvedCall

namespace ReflectionReport

variable {α : Type} (r : ReflectionReport) (s : Numbering α)

/-- The resolved calls by number. -/
def numberedResolved : List (Nat × Nat) :=
  (r.recognized.map ResolvedCall.ends).filterMap s.numberBoth?

/-- The caller of an unresolved call and the call itself, by number. -/
def numberedCall? (c : UnresolvedCall) : Option (Nat × ReflectiveCall) :=
  (s.numberBoth? c.ends).map fun q ↦ (q.1, ⟨q.2, c.remark⟩)

/-- The unresolved calls by number. -/
def numberedUnresolved : List (Nat × ReflectiveCall) :=
  r.unrecognized.filterMap (numberedCall? s)

end ReflectionReport

namespace Verdicts

open ReflectionReport

variable {α : Type} {r : ReflectionReport} {s : Numbering α} {u : Nat}

/-! ### Two kinds of verdicts -/

/-- The verdicts on resolved calls alone. -/
def ofResolved (pairs : List (Nat × Nat)) : Verdicts :=
  pairs.foldl (fun v p ↦ v.addResolved p.1 p.2) {}

theorem recognized_filterMap (r : ReflectionReport) (s : Numbering α) :
    (r.recognized.filterMap fun c ↦ do
      return (← s.number? c.caller, ← s.number? c.target)) = r.numberedResolved s := by
  rw [numberedResolved, List.filterMap_map]
  rfl

theorem unrecognized_filterMap (r : ReflectionReport) (s : Numbering α) :
    (r.unrecognized.filterMap fun c ↦ do
      let caller ← s.number? c.caller
      return (caller, callSite (← s.number? c.target) c.aspect c.message c.category)) =
        r.numberedUnresolved s := by
  refine List.filterMap_congr fun c _ ↦ ?_
  rw [numberedCall?, Numbering.numberBoth?, UnresolvedCall.ends]
  cases s.number? c.caller <;> cases s.number? c.target <;> rfl

/-- The verdicts are those of two loops, over the calls that have numbers. -/
theorem value_ofReport (r : ReflectionReport) (s : Numbering α) :
    (ofReport r s).value = (r.numberedUnresolved s).foldl (fun v p ↦ v.addUnresolved p.1 p.2)
      (ofResolved (r.numberedResolved s)) := by
  rw [← recognized_filterMap, ← unrecognized_filterMap]
  rfl

theorem resolved_ofReport (r : ReflectionReport) (s : Numbering α) :
    (ofReport r s).value.resolved = (ofResolved (r.numberedResolved s)).resolved := by
  rw [value_ofReport, resolved_foldl_addUnresolved]

/-- Resolved calls leave the unresolved ones as they are. -/
theorem unresolved_foldl_addResolved (v : Verdicts) (pairs : List (Nat × Nat)) :
    (pairs.foldl (fun v p ↦ v.addResolved p.1 p.2) v).unresolved = v.unresolved := by
  induction pairs generalizing v with
  | nil => rfl
  | cons p pairs ih =>
    rw [List.foldl_cons, ih, addResolved]
    split <;> rfl

/-- The unresolved calls are recorded without a look at the resolved ones. -/
theorem unresolved_foldl_addUnresolved {v v' : Verdicts} (h : v.unresolved = v'.unresolved)
    (calls : List (Nat × ReflectiveCall)) :
    (calls.foldl (fun v p ↦ v.addUnresolved p.1 p.2) v).unresolved =
      (calls.foldl (fun v p ↦ v.addUnresolved p.1 p.2) v').unresolved := by
  induction calls generalizing v v' with
  | nil => exact h
  | cons p calls ih =>
    refine ih ?_
    show v.unresolved.insert p.1 (v.unresolved.getD p.1 [] ++ [p.2]) =
      v'.unresolved.insert p.1 (v'.unresolved.getD p.1 [] ++ [p.2])
    rw [h]

theorem unresolved_ofReport (r : ReflectionReport) (s : Numbering α) :
    (ofReport r s).value.unresolved =
      ((r.numberedUnresolved s).foldl (fun (v : Verdicts) p ↦ v.addUnresolved p.1 p.2)
        {}).unresolved := by
  rw [value_ofReport]
  exact unresolved_foldl_addUnresolved (unresolved_foldl_addResolved ..) _

/-- **Nothing is dropped** if all ids have numbers. -/
theorem events_ofReport (hresolved : s.Knows (r.recognized.map ResolvedCall.ends))
    (hunresolved : s.Knows (r.unrecognized.map UnresolvedCall.ends)) :
    (ofReport r s).events = [] := by
  have hlength : (r.numberedResolved s).length = r.recognized.length :=
    (Numbering.length_filterMap_numberBoth? hresolved).trans (List.length_map ..)
  have hlength' : (r.numberedUnresolved s).length = r.unrecognized.length := by
    refine List.filterMap_length_eq_length.2 fun c hc ↦ ?_
    obtain ⟨q, hq⟩ := hunresolved.exists_numberBoth? (List.mem_map_of_mem hc)
    rw [numberedCall?, hq]
    rfl
  rw [ofReport]
  simp only [recognized_filterMap, unrecognized_filterMap, hlength, hlength', Nat.sub_self, if_true]

/-! ### Unresolved calls -/

/-- One unresolved call is put behind those of its caller. -/
theorem unresolvedCalls_addUnresolved (v : Verdicts) (caller : Nat) (call : ReflectiveCall) :
    (v.addUnresolved caller call).unresolvedCalls u =
      v.unresolvedCalls u ++ if caller = u then [call] else [] := by
  show (v.unresolved.insert caller _).getD u [] = _
  rw [Std.TreeMap.getD_insert]
  by_cases hu : caller = u
  · subst hu
    simp
  · rw [if_neg (by simpa using hu), if_neg hu, List.append_nil]
    rfl

/-- The calls of a method are recorded in order of arrival. -/
theorem unresolvedCalls_foldl (v : Verdicts) (calls : List (Nat × ReflectiveCall)) :
    (calls.foldl (fun v p ↦ v.addUnresolved p.1 p.2) v).unresolvedCalls u =
      v.unresolvedCalls u ++ (calls.filter (·.1 == u)).map (·.2) := by
  induction calls generalizing v with
  | nil => simp
  | cons p calls ih =>
    rw [List.foldl_cons, ih, unresolvedCalls_addUnresolved, List.append_assoc]
    by_cases hu : p.1 = u <;> simp [hu]

/-- The unresolved calls of a method by number. -/
theorem unresolvedCalls_ofReport :
    (ofReport r s).value.unresolvedCalls u =
      ((r.numberedUnresolved s).filter (·.1 == u)).map (·.2) := by
  rw [unresolvedCalls, unresolved_ofReport]
  exact (unresolvedCalls_foldl ..).trans rfl

/-- **The unresolved calls of a method are those that the report lists for it**, in its order. -/
theorem map_unresolvedCalls_ofReport {id : String} (hu : s.id? u = some id)
    (hknown : s.Knows (r.unrecognized.map UnresolvedCall.ends)) :
    ((ofReport r s).value.unresolvedCalls u).map (fun call ↦ (s.id? call.target, call.remark)) =
      (r.unrecognized.filter (·.caller == id)).map fun c ↦ (some c.target, c.remark) := by
  rw [unresolvedCalls_ofReport, numberedUnresolved]
  generalize r.unrecognized = calls at hknown
  induction calls with
  | nil => rfl
  | cons c calls ih =>
    rw [List.map_cons, Numbering.Knows, List.forall_mem_cons] at hknown
    obtain ⟨i, hi⟩ := Numbering.mem_ids.1 hknown.1.1
    obtain ⟨j, hj⟩ := Numbering.mem_ids.1 hknown.1.2
    have hnumbered : numberedCall? s c = some (i, ⟨j, c.remark⟩) := by
      rw [numberedCall?, Numbering.numberBoth?_eq_some_iff (q := (i, j)) |>.2 ⟨hi, hj⟩]
      rfl
    have hiff : i = u ↔ c.caller = id := by
      rw [Numbering.number?_eq_some_iff] at hi
      constructor
      · rintro rfl
        exact Option.some.inj (hi.symm.trans hu)
      · rintro rfl
        exact Numbering.eq_of_id? hi hu
    rw [List.filterMap_cons_some hnumbered]
    by_cases hcaller : c.caller = id
    · simp [hcaller, hiff.2 hcaller, ih hknown.2, Numbering.number?_eq_some_iff.1 hj,
        UnresolvedCall.ends]
    · simp [hcaller, mt hiff.1 hcaller, ih hknown.2]

/-! ### Resolved calls -/

/-- A caller that is on the list is not put there again. -/
theorem nodup_resolvedCallers_addResolved {v : Verdicts} (h : ∀ u, (v.resolvedCallers u).Nodup)
    (caller target : Nat) : ∀ u, ((v.addResolved caller target).resolvedCallers u).Nodup := by
  intro u
  rw [addResolved]
  split
  · exact h u
  next hnew =>
    show ((v.resolved.insert target _).getD u []).Nodup
    rw [Std.TreeMap.getD_insert]
    split
    · rw [← List.concat_eq_append]
      exact (h target).concat hnew
    · exact h u

theorem nodup_resolvedCallers_ofResolved (pairs : List (Nat × Nat)) :
    ∀ u, ((ofResolved pairs).resolvedCallers u).Nodup :=
  List.foldlRecOn pairs _ (motive := fun v : Verdicts ↦ ∀ u, (v.resolvedCallers u).Nodup)
    (fun _ ↦ List.nodup_nil) fun _ hv p _ ↦ nodup_resolvedCallers_addResolved hv p.1 p.2

/-- The callers of a target are those of the pairs. -/
theorem mem_resolvedCallers_ofResolved {pairs : List (Nat × Nat)} {v : Nat} :
    v ∈ (ofResolved pairs).resolvedCallers u ↔ (v, u) ∈ pairs := by
  rw [ofResolved, mem_resolvedCallers_foldl]
  exact or_iff_left (List.not_mem_nil)

theorem toList_resolved (v : Verdicts) :
    v.resolved.toList = v.resolved.keys.map fun u ↦ (u, v.resolvedCallers u) := by
  rw [← Std.TreeMap.map_fst_toList_eq_keys, List.map_map]
  refine (List.map_id _).symm.trans (List.map_congr_left ?_)
  rintro ⟨u, callers⟩ hmem
  have hcallers := Std.TreeMap.mem_toList_iff_getElem?_eq_some.1 hmem
  show (u, callers) = (u, v.resolved.getD u [])
  rw [Std.TreeMap.getD_eq_getD_getElem?, hcallers]
  rfl

/-- A target that has callers is listed. -/
theorem mem_keys_of_mem_resolvedCallers {v : Verdicts} {caller : Nat}
    (h : caller ∈ v.resolvedCallers u) : u ∈ v.resolved.keys := by
  rw [Std.TreeMap.mem_keys, Std.TreeMap.mem_iff_isSome_getElem?]
  rw [resolvedCallers, Std.TreeMap.getD_eq_getD_getElem?] at h
  cases hu : v.resolved[u]? with
  | none => simp [hu] at h
  | some callers => rfl

/-- As many callers are kept as there are different pairs. -/
theorem resolvedCount_ofResolved (pairs : List (Nat × Nat)) :
    (ofResolved pairs).resolvedCount = pairs.dedup.length := by
  rw [resolvedCount, toList_resolved, List.flatMap_map]
  refine length_flatMap_eq_of_mem_iff Std.TreeMap.nodup_keys
    (fun u _ ↦ nodup_resolvedCallers_ofResolved pairs u) fun v u ↦ ?_
  rw [← mem_resolvedCallers_ofResolved]
  exact and_iff_right_of_imp mem_keys_of_mem_resolvedCallers

/-- **As many resolved calls are counted as the report has different ones.** -/
theorem resolvedCount_ofReport (h : s.Knows (r.recognized.map ResolvedCall.ends)) :
    (ofReport r s).value.resolvedCount = r.recognized.dedup.length := by
  rw [resolvedCount, resolved_ofReport]
  calc (ofResolved (r.numberedResolved s)).resolvedCount
      = (r.numberedResolved s).dedup.length := resolvedCount_ofResolved _
    _ = (r.recognized.map ResolvedCall.ends).dedup.length := Numbering.length_dedup_filterMap h
    _ = r.recognized.dedup.length :=
        (length_dedup_map_eq_iff ..).2 fun _ _ _ _ hends ↦ ResolvedCall.ends_injective hends

end Verdicts

end HazardTrace
