import HazardTrace.Proofs.Collector.Coverage
import HazardTrace.Proofs.Collector.Tables

/-!
# Counting along the way and at the end

A `Collector` keeps the list of its chains and draws everything up at the end. A `Clerk` keeps no
such list: it enters each chain in its accounts when it is taken. Both report the same.

What the accounts of a clerk have to be is a function of the collector, `Clerk.of`: every account is
built up from the chains of the collector, one after the other. With it the two are compared in two
steps.

* **Along the way.** Each step of the collector is a step of the clerk: `take_of`, `observe_of`,
  `observeAll_of`, `process_of` and `processAll_of` say that the clerk of the next collector is the
  next clerk, and that both answer the same. These rest on the shape of the accounts alone, except
  that a chain is known to the one if and only if it is known to the other (`isSome_get?_seen`).
* **At the end.** Each account, built up step by step, is what the collector computes from all of
  its chains. For the counts by category and the exposed sources that is `Table.foldr_count` and
  `Table.foldr_add`. For the tree of groups it is `ordered_ofChains` and `emit_ofChains`, by
  induction on the levels: below the first level, the group with a label is the tree of the chains
  that bear the label (`children_ofChains`). For the hit types it is
  `Tracker.summarize_foldr_record`.

The tree needs one fact about the collector. The chains of an innermost group are kept by key, so
two chains of one key would be one. A collector has no such chains, if it has only ever taken chains
itself; hence `summary_of` holds of every collector, and `finish_of` and `collect_of` of those that
have started from nothing.
-/

namespace HazardTrace

/-! ### Keys as an order -/

instance : Std.IsLinearOrder Chain.Key where
  le_refl a := by
    show a.le a = true
    simpa using Chain.Key.le_total a a
  le_trans _ _ _ := Chain.Key.le_trans
  le_antisymm _ _ := Chain.Key.le_antisymm
  le_total a b := by
    show a.le b = true ∨ b.le a = true
    simpa using Chain.Key.le_total a b

instance : Std.LawfulOrderLT Chain.Key where
  lt_iff _ _ := Iff.rfl

/-! ### Groups -/

namespace Group

variable {c : Chain} {chains : List Chain} {level : Grouping.Level} {levels : List Grouping.Level}

/-- The group, known to be of a kind. -/
def as (kind : GroupKind) (g : Group) : Group :=
  { g with kind := some kind }

/-- The tree that the chains give, put in one after the other. -/
def ofChains (levels : List Grouping.Level) (chains : List Chain) : Group :=
  chains.foldr (fun c g ↦ g.insert c (levels.map fun level ↦ (level.kind, level.label c))) {}

/-- The deliveries of a group, without the bound that makes `emit` well founded. -/
theorem emit_eq (g : Group) :
    g.emit = g.chains.map (fun p ↦ .chain p.2) ++ g.ordered.flatMap fun p ↦
      .openGroup (p.2.kind.getD .method) p.1 p.2.count :: (p.2.emit ++ [.closeGroup]) := by
  rw [emit, List.flatMap_subtype fun _ _ ↦ rfl, List.unattach_attach]

@[simp]
theorem count_insert (c : Chain) (path : List (GroupKind × String)) (g : Group) :
    (g.insert c path).count = g.count + 1 := by
  cases path <;> rfl

theorem insert_as (c : Chain) (path : List (GroupKind × String)) (kind : GroupKind) (g : Group) :
    (g.as kind).insert c path = (g.insert c path).as kind := by
  cases path <;> rfl

/-- A group counts the chains below it. -/
theorem count_ofChains (levels : List Grouping.Level) (chains : List Chain) :
    (ofChains levels chains).count = chains.length := by
  induction chains with
  | nil => rfl
  | cons c chains ih => rw [ofChains, List.foldr_cons, count_insert, ← ofChains, ih, List.length_cons]

/-- With no level left, all chains stay where they are. -/
theorem ofChains_nil (chains : List Chain) :
    (ofChains [] chains).chains =
        chains.foldr (fun c t ↦ Table.update c.key (fun _ ↦ c) t) [] ∧
      (ofChains [] chains).children = [] := by
  induction chains with
  | nil => exact ⟨rfl, rfl⟩
  | cons c chains ih =>
    rw [List.foldr_cons, ← ih.1]
    exact ⟨rfl, ih.2⟩

/-- With a level left, all chains go further down. -/
theorem ofChains_cons (level : Grouping.Level) (levels : List Grouping.Level)
    (chains : List Chain) :
    (ofChains (level :: levels) chains).chains = [] ∧
      (ofChains (level :: levels) chains).children =
        chains.foldr (fun c t ↦ Table.update (level.label c) (fun child ↦
          ((child.getD {}).as level.kind).insert c
            (levels.map fun level ↦ (level.kind, level.label c))) t) [] := by
  induction chains with
  | nil => exact ⟨rfl, rfl⟩
  | cons c chains ih =>
    rw [List.foldr_cons, ← ih.2]
    exact ⟨ih.1, rfl⟩

/-- A group that chains have been put in by label is the tree of these chains, of the kind of its
level. -/
theorem foldr_insert_as (kind : GroupKind) (levels : List Grouping.Level) (h : chains ≠ []) :
    chains.foldr (fun c g ↦ (g.as kind).insert c
      (levels.map fun level ↦ (level.kind, level.label c))) {} = (ofChains levels chains).as kind := by
  induction chains with
  | nil => exact absurd rfl h
  | cons c chains ih =>
    rw [List.foldr_cons, insert_as, ofChains, List.foldr_cons, ← ofChains]
    cases chains with
    | nil => rfl
    | cons c' chains =>
      rw [ih (List.cons_ne_nil c' chains), insert_as]
      rfl

/-- **The groups of a level** are those of its labels, and each is the tree of the chains that bear
its label. -/
theorem children_ofChains (level : Grouping.Level) (levels : List Grouping.Level)
    (chains : List Chain) :
    (ofChains (level :: levels) chains).children =
      (ascending (chains.map level.label)).map fun label ↦
        (label, (ofChains levels (chains.filter (level.label · == label))).as level.kind) := by
  rw [(ofChains_cons level levels chains).2]
  refine (Table.foldr_update_eq level.label (fun (c : Chain) (g : Group) ↦ (g.as level.kind).insert c
    (levels.map fun level ↦ (level.kind, level.label c))) { } chains).trans ?_
  refine List.map_congr_left fun label hlabel ↦ ?_
  obtain ⟨c, hc, heq⟩ := List.mem_map.1 (mem_ascending.1 hlabel)
  have hmem : c ∈ chains.filter (level.label · == label) :=
    List.mem_filter.2 ⟨hc, beq_iff_eq.2 heq⟩
  rw [foldr_insert_as level.kind levels (List.ne_nil_of_mem hmem)]

/-- The groups of the first level with their counts, in the order of the report. -/
theorem ordered_ofChains (level : Grouping.Level) (levels : List Grouping.Level)
    (chains : List Chain) :
    ((ofChains (level :: levels) chains).ordered.map fun p ↦ (p.1, p.2.count)) =
      level.groups chains := by
  rw [ordered, List.map_mergeSort (s := fun a b : String × Nat ↦ decide (b.2 < a.2) ||
    (a.2 == b.2 && decide (a.1 ≤ b.1))) fun _ _ _ _ ↦ rfl, children_ofChains, List.map_map]
  refine congrArg byCount (List.map_congr_left fun label _ ↦ ?_)
  show (label, (ofChains levels _).count) = _
  rw [count_ofChains, List.count, List.countP_map, List.countP_eq_length_filter]
  rfl

/-- The chain of a key, in a table that lists chains under their keys. -/
theorem get?_map_key (k : Chain.Key) (l : List Chain) :
    Table.get? k (l.map fun c ↦ (c.key, c)) = (l.filter (·.key == k)).head? := by
  induction l with
  | nil => rfl
  | cons c l ih =>
    rw [List.map_cons, Table.get?, ih, List.filter_cons]
    by_cases hc : c.key = k
    · rw [if_pos hc.symm, if_pos (beq_iff_eq.2 hc), List.head?_cons]
    · rw [if_neg (Ne.symm hc), if_neg (by simpa using hc)]

/-- Of chains with different keys one at most has a given key, in whatever order they are listed. -/
theorem filter_key_eq_of_perm {l : List Chain} (h : chains.Pairwise Chain.Differs)
    (hperm : chains.Perm l) (k : Chain.Key) :
    chains.filter (·.key == k) = l.filter (·.key == k) := by
  have hfilter := hperm.filter (·.key == k)
  have hdiffer := h.filter (·.key == k)
  have hkey : ∀ c ∈ chains.filter (·.key == k), c.key = k := fun c hc ↦
    beq_iff_eq.1 (List.mem_filter.1 hc).2
  rcases hchains : chains.filter (·.key == k) with - | ⟨c, - | ⟨c', rest⟩⟩
  · exact hchains.trans (List.nil_perm.1 (hchains ▸ hfilter)).symm
  · exact hchains.trans (List.singleton_perm.1 (hchains ▸ hfilter))
  · rw [hchains] at hdiffer hkey
    have hne := (List.pairwise_cons.1 hdiffer).1 c' List.mem_cons_self
    exact absurd ((hkey c List.mem_cons_self).trans (hkey c' (by simp)).symm) hne

/-- The chains of an innermost group are in order of their keys. -/
theorem chains_ofChains_nil (h : chains.Pairwise Chain.Differs) :
    (ofChains [] chains).chains =
      (chains.mergeSort fun a b ↦ a.key.le b.key).map fun c ↦ (c.key, c) := by
  have hperm := (List.mergeSort_perm chains fun a b ↦ a.key.le b.key).symm
  have hsorted : (chains.mergeSort fun a b ↦ a.key.le b.key).Pairwise fun a b ↦ a.key.le b.key := by
    refine List.pairwise_mergeSort ?_ ?_ chains
    · exact fun _ _ _ ↦ Chain.Key.le_trans
    · exact fun a b ↦ Chain.Key.le_total a.key b.key
  have hdiffer := (hperm.pairwise_iff fun h ↦ Ne.symm h).1 h
  rw [(ofChains_nil chains).1]
  refine Table.eq_of_get? (Table.ordered_foldr_update ..) ?_ fun k ↦ ?_
  · refine List.pairwise_map.2 ((hsorted.and hdiffer).imp fun ⟨hle, hne⟩ ↦ ⟨hle, fun hge ↦ ?_⟩)
    exact hne (Chain.Key.le_antisymm hle hge)
  · have hhead : ∀ l : List Chain, l.foldr (fun c _ ↦ some c) none = l.head? := fun l ↦ by
      cases l <;> rfl
    rw [Table.get?_foldr_update, get?_map_key, ← filter_key_eq_of_perm h hperm, hhead]

/-- **The tree of the chains is delivered as their outline.** -/
theorem emit_ofChains (levels : List Grouping.Level) (h : chains.Pairwise Chain.Differs) :
    (ofChains levels chains).emit = outline levels chains := by
  induction levels generalizing chains with
  | nil =>
    have hnone : (ofChains [] chains).ordered = [] := by
      rw [ordered, (ofChains_nil chains).2, List.mergeSort_nil]
    rw [emit_eq, hnone, List.flatMap_nil, List.append_nil, chains_ofChains_nil h, List.map_map,
      outline]
    rfl
  | cons level levels ih =>
    rw [emit_eq, (ofChains_cons level levels chains).1, List.map_nil, List.nil_append, outline,
      ← ordered_ofChains level levels, List.flatMap_map]
    refine List.flatMap_congr fun p hp ↦ ?_
    -- each group is the tree of the chains with its label
    have hmem := List.mem_mergeSort.1 hp
    rw [children_ofChains] at hmem
    obtain ⟨label, -, rfl⟩ := List.mem_map.1 hmem
    have hemit : ∀ g : Group, (g.as level.kind).emit = g.emit := fun g ↦ by
      rw [emit_eq, emit_eq]
      rfl
    dsimp only
    rw [hemit, ih (h.filter _)]
    rfl

end Group

/-! ### Hit types -/

namespace Coverage

variable {methods : List Method} {ns : String}

/-- The types of a namespace that declare one of the methods, as a table. -/
def typeTable (methods : List Method) (ns : String) : List (String × Unit) :=
  (ascending ((methods.filter (·.ns == ns)).map Method.declaringType)).map fun t ↦ (t, ())

theorem length_typeTable (methods : List Method) (ns : String) :
    (typeTable methods ns).length = typesIn methods ns := by
  rw [typeTable, List.length_map, typesIn]

/-- A namespace is listed if one of the methods is in it. -/
theorem mem_namespaces_iff_any (hns : ns ≠ "") :
    ns ∈ namespaces methods ↔ methods.any (·.ns == ns) = true := by
  rw [mem_namespaces]
  simp [hns]

/-- Namespaces that are not listed have no types. -/
theorem typesIn_eq_zero (hns : ns ≠ "") (h : ns ∉ namespaces methods) :
    typesIn methods ns = 0 := by
  by_contra hpos
  exact h (mem_namespaces.2 ⟨hns, typesIn_pos_iff.1 (Nat.pos_of_ne_zero hpos)⟩)

/-- Methods without a namespace leave no record. -/
theorem Tracker.foldr_record_eq (methods : List Method) :
    methods.foldr Tracker.record [] =
      (methods.filter (·.ns != "")).foldr (fun m t ↦ Table.update m.ns
        (fun types ↦ Table.add m.declaringType (types.getD [])) t) [] := by
  induction methods with
  | nil => rfl
  | cons m methods ih =>
    rw [List.foldr_cons, ih, Tracker.record, List.filter_cons]
    by_cases hm : m.ns = ""
    · rw [if_pos hm, if_neg (by simpa using hm)]
    · rw [if_neg hm, if_pos (by simpa using hm), List.foldr_cons]

/-- The tracker after some methods have been recorded, one after the other. -/
theorem Tracker.foldr_record (methods : List Method) :
    methods.foldr Tracker.record [] =
      (namespaces methods).map fun ns ↦ (ns, typeTable methods ns) := by
  rw [foldr_record_eq]
  refine (Table.foldr_update_eq Method.ns (fun (m : Method) t ↦ Table.add m.declaringType t) []
    _).trans ?_
  have hkeys : namespaces methods = ascending ((methods.filter (·.ns != "")).map Method.ns) := by
    rw [namespaces, List.filter_map]
    rfl
  rw [hkeys]
  refine List.map_congr_left fun ns hns ↦ ?_
  rw [← hkeys] at hns
  have hfilter : (methods.filter (·.ns != "")).filter (·.ns == ns) = methods.filter (·.ns == ns) := by
    rw [List.filter_filter]
    refine List.filter_congr fun m _ ↦ ?_
    by_cases hm : m.ns = ns
    · simp [hm, (mem_namespaces.1 hns).1]
    · simp [hm]
  rw [hfilter, Table.foldr_add, typeTable]

/-- The tracker of all known methods does not depend on the order in which they are recorded. -/
theorem Tracker.foldl_record (methods : List Method) :
    methods.foldl (fun t m ↦ Tracker.record m t) [] =
      (namespaces methods).map fun ns ↦ (ns, typeTable methods ns) := by
  have hperm := List.reverse_perm methods
  rw [← List.foldr_reverse, foldr_record, namespaces_eq_of_perm hperm]
  refine List.map_congr_left fun ns _ ↦ ?_
  rw [typeTable, typeTable, ascending_eq_of_perm ((hperm.filter _).map _)]

/-- **The coverage of the types that were recorded is the coverage of the methods.** -/
theorem Tracker.summarize_foldr_record (s : Numbering Method) (hits : List Method) :
    Tracker.summarize s (hits.foldr Tracker.record []) = Coverage.summarize s hits := by
  have htotals : s.resolved.foldl (fun t p ↦ Tracker.record p.2 t) [] =
      (namespaces (s.resolved.map (·.2))).map fun ns ↦ (ns, typeTable (s.resolved.map (·.2)) ns) := by
    rw [← foldl_record, List.foldl_map]
  rw [Tracker.summarize, Coverage.summarize, htotals, foldr_record]
  generalize s.resolved.map (·.2) = known
  dsimp only
  congr 1
  · -- namespaces that were hit
    rw [List.map_map]
    refine congrArg (List.mergeSort · Line.le) (List.map_congr_left fun ns hns ↦ ?_)
    dsimp only [Function.comp]
    rw [line, Table.get?_map_keys, length_typeTable]
    have hany : ns ∈ namespaces known ↔ known.any (·.ns == ns) = true :=
      mem_namespaces_iff_any (mem_namespaces.1 hns).1
    by_cases hknown : ns ∈ namespaces known
    · rw [if_pos hknown, if_pos (hany.1 hknown), Option.map_some, Option.getD_some,
        length_typeTable]
    · rw [if_neg hknown, if_neg fun h ↦ hknown (hany.2 h), Option.map_none, Option.getD_none]
  · -- the other namespaces
    rw [List.filter_map, List.map_map]
    have hfilter : ((fun p : String × List (String × Unit) ↦ (Table.get? p.1
        ((namespaces hits).map fun ns ↦ (ns, typeTable hits ns))).isNone) ∘
          fun ns ↦ (ns, typeTable known ns)) = fun ns ↦ !(namespaces hits).contains ns := by
      funext ns
      dsimp only [Function.comp]
      rw [Table.get?_map_keys]
      by_cases hns : ns ∈ namespaces hits <;> simp [hns]
    rw [hfilter]
    refine List.map_congr_left fun ns hns ↦ ?_
    obtain ⟨hknown, hhit⟩ := List.mem_filter.1 hns
    have hns' := (mem_namespaces.1 hknown).1
    dsimp only [Function.comp]
    rw [line, typesIn_eq_zero hns' (by simpa using hhit),
      if_pos ((mem_namespaces_iff_any hns').1 hknown), length_typeTable]

end Coverage

/-! ### Clerks -/

namespace Clerk

open Collector (Context Observation Summary)

variable {σ : Type}

/-- The clerk that has seen what a collector has seen: every account is built up from the chains of
the collector, one after the other. -/
def of (ctx : Context) (col : Collector σ) : Clerk σ where
  receiver := col.receiver
  seen := col.chains.foldr (fun c t ↦ Table.add c.key t) []
  groups :=
    if ctx.grouping.isGrouped then Group.ofChains (ctx.grouping.levels ctx.numbering) col.chains
    else {}
  exposed := col.exposed.foldr Table.add []
  hits := (Collector.hits ctx col.chains).foldr Coverage.Tracker.record []
  chains := col.chains.length
  duplicates := col.duplicates
  suppressed := col.suppressed
  findings := col.findings
  perAnnotationCategory := col.chains.foldr (fun c t ↦ Table.count c.note.category t) []
  perCategory := col.chains.foldr (fun c t ↦ Table.count c.category t) []

/-- A clerk begins as a collector does. -/
theorem of_start (ctx : Context) (receiver : σ) :
    of ctx ({ receiver } : Collector σ) = { receiver } := by
  unfold of
  congr 1
  exact ite_self _

/-! ### Accounts -/

/-- A chain is known to the clerk if it is known to the collector. -/
theorem isSome_get?_seen (ctx : Context) (col : Collector σ) (c : Chain) :
    (Table.get? c.key (of ctx col).seen).isSome = col.chains.any (·.sameKey c) := by
  show (Table.get? c.key (col.chains.foldr (fun c t ↦ Table.add c.key t) [])).isSome = _
  rw [Table.foldr_add, Table.get?_map_keys, Bool.eq_iff_iff, List.any_eq_true]
  by_cases hc : c.key ∈ ascending (col.chains.map Chain.key)
  · rw [if_pos hc]
    obtain ⟨c', hc', heq⟩ := List.mem_map.1 (mem_ascending.1 hc)
    exact iff_of_true rfl ⟨c', hc', Chain.sameKey_iff.2 heq⟩
  · rw [if_neg hc]
    refine iff_of_false Bool.false_ne_true ?_
    rintro ⟨c', hc', heq⟩
    exact hc (mem_ascending.2 (List.mem_map.2 ⟨c', hc', Chain.sameKey_iff.1 heq⟩))

/-- A new chain is entered in every account. -/
theorem enter_of (ctx : Context) (col : Collector σ) (c : Chain) :
    (of ctx col).enter ctx c = of ctx { col with chains := c :: col.chains } := by
  have hhits : Collector.hits ctx (c :: col.chains) =
      (c.entry?.bind ctx.numbering.detail?).toList ++ Collector.hits ctx col.chains := by
    rw [Collector.hits, List.filterMap_cons]
    cases c.entry?.bind ctx.numbering.detail? <;> rfl
  unfold enter of
  congr 1
  · split <;> rfl
  · rw [hhits]
    cases c.entry?.bind ctx.numbering.detail? <;> rfl

/-- **What was counted along the way is what is counted at the end.** -/
theorem summary_of (ctx : Context) (col : Collector σ) :
    (of ctx col).summary ctx = col.summary ctx := by
  unfold summary Collector.summary of
  congr 1
  · exact Table.foldr_count (fun c : Chain ↦ c.note.category) col.chains
  · exact Table.foldr_count (fun c : Chain ↦ c.category) col.chains
  · by_cases hgrouped : ctx.grouping.isGrouped = true
    · obtain ⟨level, levels, hlevels⟩ := Grouping.exists_levels hgrouped ctx.numbering
      rw [if_pos hgrouped, if_pos hgrouped, Collector.outermost, hlevels]
      exact Group.ordered_ofChains level levels col.chains
    · have hnone : ctx.grouping = .none := by
        simpa [Grouping.isGrouped] using hgrouped
      rw [if_neg hgrouped, Collector.outermost, hnone]
      rfl
  · have hexposed : col.exposed.foldr Table.add [] = (ascending col.exposed).map fun n ↦ (n, ()) := by
      have h := Table.foldr_add id col.exposed
      rwa [List.map_id] at h
    rw [hexposed, List.map_map]
    rfl
  · exact Coverage.Tracker.summarize_foldr_record ctx.numbering _

/-! ### Steps and runs -/

variable [Receiver σ]

/-- The step of one chain. -/
theorem take_of (ctx : Context) (col : Collector σ) (c : Chain) :
    (of ctx col).take ctx c = (of ctx (col.take ctx c).1, (col.take ctx c).2) := by
  rw [take, isSome_get?_seen, Collector.take, enter_of]
  split
  · rfl
  · split <;> rfl

theorem observe_of (ctx : Context) (source : Nat) (col : Collector σ) (o : Observation) :
    (of ctx col).observe ctx source o =
      (of ctx (col.observe ctx source o).1, (col.observe ctx source o).2) := by
  cases o with
  | exposed | suppressed => rfl
  | chain nodes note => exact take_of ctx col _

theorem observeAll_of (ctx : Context) (source : Nat) (col : Collector σ) (os : List Observation) :
    (of ctx col).observeAll ctx source os =
      (of ctx (col.observeAll ctx source os).1, (col.observeAll ctx source os).2) := by
  induction os generalizing col with
  | nil => rfl
  | cons o os ih =>
    rw [observeAll, observe_of, Collector.observeAll]
    rcases col.observe ctx source o with ⟨col', - | ⟨⟩⟩
    · rfl
    · exact ih col'

/-- The step of one finding. -/
theorem process_of (ctx : Context) (col : Collector σ) (f : Finding) :
    (of ctx col).process ctx f =
      (of ctx (col.process ctx f).value.1, (col.process ctx f).value.2) := by
  rw [process, Collector.process]
  cases ctx.marking.note? f.source with
  | none => rfl
  | some a => exact observeAll_of ctx f.source { col with findings := col.findings + 1 } _

/-- Takes findings in order, up to the first whose chains cannot be handed over. -/
def processAll (ctx : Context) (clerk : Clerk σ) : List Finding → Clerk σ × Except Error Unit
  | [] => (clerk, .ok ())
  | f :: fs =>
    match clerk.process ctx f with
    | (clerk, .ok ()) => clerk.processAll ctx fs
    | (clerk, .error e) => (clerk, .error e)

/-- **A clerk goes along with the collector**, finding by finding. -/
theorem processAll_of (ctx : Context) (col : Collector σ) (fs : List Finding) :
    (of ctx col).processAll ctx fs =
      (of ctx (col.processAll ctx fs).1, (col.processAll ctx fs).2) := by
  induction fs generalizing col with
  | nil => rfl
  | cons f fs ih =>
    rw [processAll, process_of, Collector.processAll]
    rcases (col.process ctx f).value with ⟨col', - | ⟨⟩⟩
    · rfl
    · exact ih col'

/-- The report is ended in the same way. -/
theorem finish_of (ctx : Context) {col : Collector σ} (h : col.chains.Pairwise Chain.Differs) :
    (of ctx col).finish ctx = (of ctx (col.finish ctx).value.1, (col.finish ctx).value.2) := by
  have hclosing : (if ctx.grouping.isGrouped then (of ctx col).groups.emit else []) ++ [.finish] =
      Collector.closing ctx col := by
    rw [Collector.closing, of]
    split
    · rw [Group.emit_ofChains _ h]
    · rfl
  have hreceiver : (of ctx col).receiver = col.receiver := rfl
  rw [finish, hclosing, summary_of, Collector.finish, hreceiver]
  rcases Receiver.receiveAll col.receiver (Collector.closing ctx col) with ⟨receiver, - | ⟨⟩⟩ <;> rfl

/-- Takes findings in order and ends the report. -/
def collect (ctx : Context) (clerk : Clerk σ) (fs : List Finding) :
    Clerk σ × Except Error Summary :=
  match clerk.processAll ctx fs with
  | (clerk, .ok ()) => clerk.finish ctx
  | (clerk, .error e) => (clerk, .error e)

/-- **A clerk and a collector report the same.** From the same findings the receiver is handed the
same, both fail alike, and if neither does the summaries are equal. -/
theorem collect_of (ctx : Context) (receiver : σ) (fs : List Finding) :
    collect ctx { receiver } fs =
      (of ctx (Collector.collect ctx { receiver } fs).1,
        (Collector.collect ctx { receiver } fs).2) := by
  rw [collect, Collector.collect]
  have hrun := processAll_of ctx ({ receiver } : Collector σ) fs
  rw [of_start] at hrun
  rw [hrun]
  rcases hcol : Collector.processAll ctx { receiver } fs with ⟨col, - | ⟨⟩⟩
  · rfl
  · have hchains := (Collector.holds_processAll hcol).chains
    exact finish_of ctx (hchains ▸ List.pairwise_pwFilter _)

end Clerk

end HazardTrace
