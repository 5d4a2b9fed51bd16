import HazardTrace.Proofs.Analysis.Findings
import HazardTrace.Proofs.Collector.Handed

/-!
# Unresolved calls along one path

The unresolved calls of a method give one record each along a path, and records are compared by key.
A key holds the note as it is printed, category and message with a colon and a blank between them,
so two calls of one target are taken for one exactly if they print alike.

Beside equal categories and messages there is one way for this to happen
(`Remark.text_warn_eq_iff`): the category of one call runs on, over a separator, into what is the
message of the other (`Remark.SplitsLater`). The proof goes letter by letter. Two ways to split one
text at a separator are the same, or the second separator stands further on, and then the first
message begins with what is between them (`cons_separator_eq_append`).

Three statements follow for the calls of one method.

* `Context.keys_chainsOf_calls`: along one path there is one chain for each key of a call.
* `length_dedup_shown_eq_iff`: calls among which `SplitsLater` does not occur are all kept, and only
  those.
* `calls_kept_by_shown`: what a receiver is handed, in these terms. There are never more chains than
  calls that differ in target, category or message (`ReflectiveCall.identity`), and there are as
  many exactly under that condition.

`not_forall_calls_kept` shows that the condition cannot be left out: two calls of one target with
different categories and messages, of which one chain is handed over.
-/

namespace HazardTrace

/-! ### Remarks that print alike -/

/-- A printed remark is read from one separator on: the next separator that splits it is the same,
or stands further on. -/
theorem cons_separator_eq_append {b d x : List Char}
    (h : ':' :: ' ' :: b = x ++ ':' :: ' ' :: d) :
    (x = [] ∧ b = d) ∨ ∃ y, x = ':' :: ' ' :: y ∧ b = y ++ ':' :: ' ' :: d := by
  rcases x with _ | ⟨c, _ | ⟨c', y⟩⟩
  · exact .inl ⟨rfl, by simpa using h⟩
  · -- separators do not overlap
    simp at h
  · obtain ⟨rfl, rfl, hb⟩ : ':' = c ∧ ' ' = c' ∧ b = y ++ ':' :: ' ' :: d := by simpa using h
    exact .inr ⟨y, rfl, hb⟩

namespace Remark

/-- `r'` prints as `r` does, and its category ends at a later separator. -/
def SplitsLater (r r' : Remark) : Prop :=
  ∃ x : String, r'.category = r.category ++ ": " ++ x ∧ r.text = x ++ ": " ++ r'.text

variable {r r' : Remark}

/-- The note of a remark, letter by letter. -/
theorem toList_text_warn (r : Remark) :
    (Note.warn r).text.toList = r.category.toList ++ ':' :: ' ' :: r.text.toList := by
  show (r.category ++ ": " ++ r.text).toList = _
  rw [String.toList_append, String.toList_append, List.append_assoc]
  rfl

/-- The same, letter by letter. -/
theorem splitsLater_iff : r.SplitsLater r' ↔ ∃ y : List Char,
    r'.category.toList = r.category.toList ++ ':' :: ' ' :: y ∧
    r.text.toList = y ++ ':' :: ' ' :: r'.text.toList := by
  have htoList : ∀ a x b : String,
      a = x ++ ": " ++ b ↔ a.toList = x.toList ++ ':' :: ' ' :: b.toList := by
    intro a x b
    rw [← String.toList_inj, String.toList_append, String.toList_append, List.append_assoc]
    rfl
  constructor
  · rintro ⟨x, hcategory, htext⟩
    exact ⟨x.toList, (htoList ..).1 hcategory, (htoList ..).1 htext⟩
  · rintro ⟨y, hcategory, htext⟩
    refine ⟨String.ofList y, (htoList ..).2 ?_, (htoList ..).2 ?_⟩
    · rw [String.toList_ofList, hcategory]
    · rw [String.toList_ofList, htext]

/-- Remarks of which one splits later print alike. -/
theorem SplitsLater.text_eq (h : r.SplitsLater r') : (Note.warn r).text = (Note.warn r').text := by
  obtain ⟨y, hcategory, htext⟩ := splitsLater_iff.1 h
  rw [← String.toList_inj, toList_text_warn, toList_text_warn, hcategory, htext, List.append_assoc]
  rfl

/-- The later category is longer. -/
theorem SplitsLater.category_ne (h : r.SplitsLater r') : r.category ≠ r'.category := by
  intro heq
  obtain ⟨y, hcategory, -⟩ := splitsLater_iff.1 h
  have hlength := congrArg List.length (heq ▸ hcategory)
  simp at hlength

/-- Of two remarks that print alike, if the category of one goes on as that of the other, they are
equal or split the text at different separators. -/
theorem eq_or_splitsLater {x : List Char} (hcategory : r'.category.toList = r.category.toList ++ x)
    (hrest : ':' :: ' ' :: r.text.toList = x ++ ':' :: ' ' :: r'.text.toList) :
    (r.category = r'.category ∧ r.text = r'.text) ∨ r.SplitsLater r' := by
  rcases cons_separator_eq_append hrest with ⟨rfl, htext⟩ | ⟨y, rfl, htext⟩
  · rw [List.append_nil] at hcategory
    exact .inl ⟨String.toList_inj.1 hcategory.symm, String.toList_inj.1 htext⟩
  · exact .inr (splitsLater_iff.2 ⟨y, hcategory, htext⟩)

/-- **Remarks print alike** exactly if they agree in category and message, or split the same text at
different separators. -/
theorem text_warn_eq_iff : (Note.warn r).text = (Note.warn r').text ↔
    (r.category = r'.category ∧ r.text = r'.text) ∨ r.SplitsLater r' ∨ r'.SplitsLater r := by
  constructor
  · intro h
    rw [← String.toList_inj, toList_text_warn, toList_text_warn] at h
    rcases List.append_eq_append_iff.1 h with ⟨x, hcategory, hrest⟩ | ⟨x, hcategory, hrest⟩
    · exact (eq_or_splitsLater hcategory hrest).imp_right .inl
    · exact (eq_or_splitsLater hcategory hrest).imp (.imp .symm .symm) .inr
  · rintro (⟨hcategory, htext⟩ | hlater | hlater)
    · rw [← String.toList_inj, toList_text_warn, toList_text_warn, hcategory, htext]
    · exact hlater.text_eq
    · exact hlater.text_eq.symm

end Remark

/-- What tells the unresolved calls of a method apart: the method that is called, the category and
the message. -/
def ReflectiveCall.identity (call : ReflectiveCall) : Nat × String × String :=
  (call.target, call.remark.category, call.remark.text)

namespace Collector

/-! ### How many calls are kept -/

/-- A call is shown by its identity, with category and message run together. -/
theorem map_shown (calls : List ReflectiveCall) :
    calls.map shown =
      (calls.map ReflectiveCall.identity).map fun i ↦ (i.1, i.2.1 ++ ": " ++ i.2.2) := by
  rw [List.map_map]
  rfl

/-- Calls that differ as printed differ. -/
theorem length_dedup_shown_le (calls : List ReflectiveCall) :
    (calls.map shown).dedup.length ≤ (calls.map ReflectiveCall.identity).dedup.length := by
  rw [map_shown]
  exact length_dedup_map_le ..

/-- **All calls are told apart** exactly if no two calls of one target split the same text at
different separators. -/
theorem length_dedup_shown_eq_iff (calls : List ReflectiveCall) :
    (calls.map shown).dedup.length = (calls.map ReflectiveCall.identity).dedup.length ↔
      ∀ call ∈ calls, ∀ call' ∈ calls, call.target = call'.target →
        ¬ call.remark.SplitsLater call'.remark := by
  -- printing loses nothing exactly if it is injective on the identities of the calls
  rw [map_shown, length_dedup_map_eq_iff]
  constructor
  · intro hinj call hcall call' hcall' htarget hlater
    have hidentity : call.identity = call'.identity :=
      hinj _ (List.mem_map_of_mem hcall) _ (List.mem_map_of_mem hcall')
        (Prod.ext htarget hlater.text_eq)
    exact hlater.category_ne (congrArg (·.2.1) hidentity)
  · intro hapart i hi i' hi' hshown
    obtain ⟨call, hcall, rfl⟩ := List.mem_map.1 hi
    obtain ⟨call', hcall', rfl⟩ := List.mem_map.1 hi'
    obtain ⟨htarget, htext⟩ := Prod.mk.inj hshown
    rcases Remark.text_warn_eq_iff.1 htext with ⟨hcategory, htext⟩ | hlater | hlater
    · exact Prod.ext htarget (Prod.ext hcategory htext)
    · exact absurd hlater (hapart call hcall call' hcall' htarget)
    · exact absurd hlater (hapart call' hcall' call hcall htarget.symm)

/-- The key under which a call is kept along a path. -/
def Context.callKey (ctx : Context) (path : List Nat) (call : ReflectiveCall) : Chain.Key :=
  (ctx.chain (call.target :: path) (.warn call.remark)).key

variable {ctx : Context} {source : Nat} {calls : List ReflectiveCall} {path : List Nat}

/-- One path of a method with unresolved calls gives a chain for each key of a call. -/
theorem Context.keys_chainsOf_calls (hnote : ctx.marking.note? source = some (.unanalyzed calls))
    (hpath : 2 ≤ path.length) :
    ((ctx.chainsOf [⟨source, [path]⟩]).map Chain.key).Perm (calls.map (ctx.callKey path)).dedup := by
  rw [chainsOf, map_key_pwFilter, recordsOf_reverse_flatMap]
  refine List.Perm.dedup ((List.Perm.map _ (List.reverse_perm _)).trans ?_)
  rw [List.flatMap_singleton, records_eq_flatMap hnote, List.flatMap_singleton, recordsAlong_eq,
    if_neg (Nat.not_lt.2 hpath), List.map_map]
  rfl

/-- What a receiver is handed along one path, by the keys of the calls. -/
theorem exists_collect_calls {σ : Type} [Receiver σ] (hσ : Receiver.NeverFails σ) (receiver : σ)
    (ctx : Context) (source : Nat) (path : List Nat)
    (hnote : ctx.marking.note? source = some (.unanalyzed calls)) (hpath : 2 ≤ path.length) :
    ∃ (col : Collector (Watched σ)) (s : Summary),
      collect ctx { receiver := { receiver } } [⟨source, [path]⟩] = (col, .ok s) ∧
      (col.receiver.chains.map Chain.key).Perm (calls.map (ctx.callKey path)).dedup ∧
      col.receiver.chains.length = (calls.map shown).dedup.length := by
  obtain ⟨col, col', -, hcollect, hhanded⟩ :=
    exists_collect_watched hσ ctx receiver [⟨source, [path]⟩]
  have hkeys : (col'.receiver.chains.map Chain.key).Perm (calls.map (ctx.callKey path)).dedup := by
    rw [Watched.chains, hhanded]
    exact ((ctx.chains_deliveries _).map _).trans (Context.keys_chainsOf_calls hnote hpath)
  refine ⟨col', _, hcollect, hkeys, ?_⟩
  calc col'.receiver.chains.length
      = (col'.receiver.chains.map Chain.key).length := (List.length_map ..).symm
    _ = (calls.map (ctx.callKey path)).dedup.length := hkeys.length_eq
    _ = (calls.map shown).dedup.length := by
        rw [← ctx.length_dedup_keys calls path, List.map_map]
        rfl

/-- **The unresolved calls of a method along one path.** The receiver is handed one chain for each
key of a call, so calls are told apart by target and printed note. Never are there more chains than
calls with different target, category or message, and there are as many exactly if no two calls of
one target split the same text at different separators. -/
theorem calls_kept_by_shown {σ : Type} [Receiver σ] (hσ : Receiver.NeverFails σ) (receiver : σ)
    (ctx : Context) (source : Nat) (path : List Nat) {calls : List ReflectiveCall}
    (hnote : ctx.marking.note? source = some (.unanalyzed calls)) (hpath : 2 ≤ path.length) :
    ∃ (col : Collector (Watched σ)) (s : Summary),
      collect ctx { receiver := { receiver } } [⟨source, [path]⟩] = (col, .ok s) ∧
      (col.receiver.chains.map Chain.key).Perm (calls.map (ctx.callKey path)).dedup ∧
      col.receiver.chains.length = (calls.map shown).dedup.length ∧
      col.receiver.chains.length ≤ (calls.map ReflectiveCall.identity).dedup.length ∧
      (col.receiver.chains.length = (calls.map ReflectiveCall.identity).dedup.length ↔
        ∀ call ∈ calls, ∀ call' ∈ calls, call.target = call'.target →
          ¬ call.remark.SplitsLater call'.remark) := by
  obtain ⟨col, s, hcollect, hkeys, hlength⟩ :=
    exists_collect_calls hσ receiver ctx source path hnote hpath
  refine ⟨col, s, hcollect, hkeys, hlength, ?_, ?_⟩
  · rw [hlength]
    exact length_dedup_shown_le calls
  · rw [hlength]
    exact length_dedup_shown_eq_iff calls

/-- A method with some unresolved calls on record. -/
def withCalls (calls : List ReflectiveCall) : Context where
  numbering := .empty
  marking := ⟨#[{ note := some (.unanalyzed calls) }, {}]⟩
  grouping := .none

/-- Two calls that print alike: what is category in one of them is message in the other. -/
def printedAlike (target target' : Nat) : List ReflectiveCall :=
  [⟨target, ⟨"Serialization", "Json: unknown type", .memberTrimming⟩⟩,
    ⟨target', ⟨"Serialization: Json", "unknown type", .memberTrimming⟩⟩]

/-- Calls of different targets are told apart even if they print alike; repeated calls are not. -/
theorem calls_kept_by_shown_twoTargets :
    ∃ (col : Collector (Watched Transcript)) (s : Summary),
      collect (withCalls (printedAlike 2 3 ++ printedAlike 2 3)) { receiver := { receiver := {} } }
        [⟨0, [[0, 1]]⟩] = (col, .ok s) ∧
      col.receiver.chains.length = 2 ∧
      ∀ call ∈ printedAlike 2 3, ∀ call' ∈ printedAlike 2 3, call.target = call'.target →
        ¬ call.remark.SplitsLater call'.remark := by
  obtain ⟨col, s, hcollect, -, hlength, -, hkept⟩ :=
    calls_kept_by_shown (σ := Transcript) (fun _ _ ↦ rfl) {}
      (withCalls (printedAlike 2 3 ++ printedAlike 2 3)) 0 [0, 1] rfl (Nat.le_refl 2)
  have htwo : col.receiver.chains.length = 2 := hlength.trans (by decide +kernel)
  have hapart := hkept.1 (htwo.trans (by decide +kernel))
  exact ⟨col, s, hcollect, htwo, fun call hcall call' hcall' ↦
    hapart call (List.mem_append_left _ hcall) call' (List.mem_append_left _ hcall')⟩

/-- Calls with different categories and messages are not always told apart. -/
theorem not_forall_calls_kept :
    ¬ ∀ (ctx : Context) (source : Nat) (calls : List ReflectiveCall) (path : List Nat),
      ctx.marking.note? source = some (.unanalyzed calls) → 2 ≤ path.length →
        ∃ (col : Collector (Watched Transcript)) (s : Summary),
          collect ctx { receiver := { receiver := {} } } [⟨source, [path]⟩] = (col, .ok s) ∧
          col.receiver.chains.length = (calls.map ReflectiveCall.identity).dedup.length := by
  intro hall
  obtain ⟨col, s, hcollect, -, hlength⟩ :=
    exists_collect_calls (σ := Transcript) (fun _ _ ↦ rfl) {} (withCalls (printedAlike 2 2)) 0 [0, 1]
      rfl (Nat.le_refl 2)
  obtain ⟨col', s', hcollect', hlength'⟩ :=
    hall (withCalls (printedAlike 2 2)) 0 (printedAlike 2 2) [0, 1] rfl (Nat.le_refl 2)
  obtain rfl : col = col' := (Prod.mk.inj (hcollect.symm.trans hcollect')).1
  have hone : ((printedAlike 2 2).map shown).dedup.length = 1 := by decide +kernel
  have htwo : ((printedAlike 2 2).map ReflectiveCall.identity).dedup.length = 2 := by
    decide +kernel
  omega

end Collector

end HazardTrace
