import HazardTrace.Analysis
import HazardTrace.Proofs.Collector.Order
import HazardTrace.Proofs.Search.Paths
import HazardTrace.Report.Delivery
import Mathlib.Algebra.BigOperators.Group.List.Basic

/-!
# Findings of an analysis

The findings of an analysis are those of the searches from its hazards. When interior hazards are
excluded, the records of two hazards never have one key (`apart_search`). A warning on `s` gives
chains that begin with `s`, and unresolved calls in `s` give chains whose second method is `s`. A
chain of the first kind can only be one of the second kind, for another hazard `t`, if its search
has walked through `t`; and that is what the option excludes (`ne_cons_of_mem_paths`).

So all findings are apart (`pairwise_apart_findings`), and what is known of findings that are apart
applies. The order in which searches end shows neither in the summary nor in an arranged report, and
a record is a duplicate only of a record for the same path. `report_independent_of_order` states
both.

The number of duplicates is then counted finding by finding.

* `Context.repeats` is how many records of one finding are left out when only its own records are
  known, and a collector of findings that are apart counts their sum (`Holds.duplicates_eq`).
* Records for different paths have different keys (`Context.differs_of_mem_recordsAlong`), so within
  a finding it is enough to look at one path (`Context.repeats_eq_mul`).
* Along a path the records are those of the unresolved calls, and two of them have one key exactly
  if the report shows them alike (`Context.length_dedup_keys`).

Put together, each hazard that is no entry contributes, for each of its destinations, the calls that
are shown like an earlier one (`repeats_findingOf`). Summed up over the hazards this is
`sum_repeats_findings`.
-/

namespace HazardTrace

namespace CallGraph

open Search

variable {g : CallGraph} {o : Options} {s t : Nat}

/-! ### Records of different hazards -/

/-- A path begins where the search did. -/
theorem head?_of_mem_paths {path : List Nat} (h : path ∈ (g.search o s).paths) :
    path.head? = some s := by
  obtain ⟨v, -, -, hwalk, -⟩ := mem_paths_search h
  exact hwalk.head

/-- The second of three methods or more on a path is no hazard, if interior hazards are excluded. -/
theorem isHazard_eq_false_of_mem_paths {path : List Nat} {a b : Nat}
    (hex : o.excludeInteriorSources = true) (h : a :: t :: b :: path ∈ (g.search o s).paths) :
    g.isHazard t = false := by
  obtain ⟨v, -, -, hwalk, -⟩ := mem_paths_search h
  exact (hwalk.interior t (by simp)).not_hazard hex

/-- A path of one hazard is not a path of another with a method put in front. -/
theorem ne_cons_of_mem_paths {path path' : List Nat} {m : Nat}
    (hex : o.excludeInteriorSources = true) (ht : g.isHazard t = true)
    (hpath : path ∈ (g.search o s).paths) (hpath' : path' ∈ (g.search o t).paths)
    (hlen : 2 ≤ path'.length) : path ≠ m :: path' := by
  rintro rfl
  have hhead := head?_of_mem_paths hpath'
  match path', hlen with
  | a :: b :: rest, _ =>
    obtain rfl : a = t := by simpa using hhead
    rw [isHazard_eq_false_of_mem_paths hex hpath] at ht
    cases ht

/-- **Different hazards never give records with one key**, if interior hazards are excluded. -/
theorem apart_search (ctx : Collector.Context) (hex : o.excludeInteriorSources = true)
    (hs : g.isHazard s = true) (ht : g.isHazard t = true) (hne : s ≠ t) :
    ctx.Apart ⟨s, (g.search o s).paths⟩ ⟨t, (g.search o t).paths⟩ := by
  intro c hc d hd hkey
  obtain ⟨path, hpath, hlen, hc⟩ := Collector.Context.mem_records_iff.1 hc
  obtain ⟨path', hpath', hlen', hd⟩ := Collector.Context.mem_records_iff.1 hd
  have hnodes : c.nodes = d.nodes := congrArg Chain.Key.nodes hkey
  -- paths of different hazards differ where they begin
  have hpaths : path ≠ path' := by
    rintro rfl
    exact hne (Option.some.inj ((head?_of_mem_paths hpath).symm.trans (head?_of_mem_paths hpath')))
  rcases hc with ⟨r, -, rfl⟩ | ⟨calls, -, call, -, rfl⟩ <;>
    rcases hd with ⟨r', -, rfl⟩ | ⟨calls', -, call', -, rfl⟩
  · exact hpaths hnodes
  · exact ne_cons_of_mem_paths hex ht hpath hpath' hlen' hnodes
  · exact ne_cons_of_mem_paths hex hs hpath' hpath hlen hnodes.symm
  · exact hpaths (List.cons.inj hnodes).2

end CallGraph

/-! ### Duplicates -/

namespace Collector

variable {ctx : Context} {f : Finding} {fs : List Finding}

/-- How many records of a finding are left out, when only its own records are known. -/
def Context.repeats (ctx : Context) (f : Finding) : Nat :=
  (ctx.records f).length - ((ctx.records f).map Chain.key).dedup.length

theorem Context.repeats_of_records_eq_nil (h : ctx.records f = []) : ctx.repeats f = 0 := by
  simp [repeats, h]

/-- The records of a finding are left out or have a key of their own. -/
theorem Context.repeats_add (ctx : Context) (f : Finding) :
    ctx.repeats f + ((ctx.records f).map Chain.key).dedup.length = (ctx.records f).length := by
  refine Nat.sub_add_cancel ?_
  calc ((ctx.records f).map Chain.key).dedup.length
      ≤ ((ctx.records f).map Chain.key).length := (List.dedup_sublist _).length_le
    _ = (ctx.records f).length := List.length_map ..

/-- The chains of findings that are apart, counted finding by finding. -/
theorem Context.length_chainsOf (h : fs.Pairwise ctx.Apart) :
    (ctx.chainsOf fs).length =
      (fs.map fun f ↦ ((ctx.records f).map Chain.key).dedup.length).sum := by
  have hkeys : fs.Pairwise fun f f' ↦ ∀ x ∈ (ctx.records f).map Chain.key,
      ∀ y ∈ (ctx.records f').map Chain.key, x ≠ y := by
    refine h.imp fun hapart x hx y hy ↦ ?_
    obtain ⟨c, hc, rfl⟩ := List.mem_map.1 hx
    obtain ⟨d, hd, rfl⟩ := List.mem_map.1 hy
    exact hapart c hc d hd
  rw [chainsOf, recordsOf_reverse_flatMap, length_pwFilter_differs,
    ((List.reverse_perm _).map _).dedup.length_eq, List.map_flatMap, length_dedup_flatMap hkeys]

/-- The duplicates of findings that are apart, finding by finding. -/
theorem Holds.duplicates_eq {σ : Type} [Receiver σ] {receiver : σ} {col : Collector σ}
    (happart : fs.Pairwise ctx.Apart)
    (h : Holds ctx receiver fs.length (fs.flatMap ctx.sightings).reverse col) :
    col.duplicates = (fs.map ctx.repeats).sum := by
  have hchains : col.chains.length =
      (fs.map fun f ↦ ((ctx.records f).map Chain.key).dedup.length).sum := by
    rw [h.chains]
    exact Context.length_chainsOf happart
  have hlength : col.duplicates + col.chains.length =
      (fs.map fun f ↦ (ctx.records f).length).sum := by
    rw [h.duplicates, Context.recordsOf_reverse_flatMap, List.length_reverse, List.length_flatMap]
  have hsum := List.sum_map_add (l := fs) (f := ctx.repeats)
    (g := fun f ↦ ((ctx.records f).map Chain.key).dedup.length)
  simp only [Context.repeats_add] at hsum
  omega

/-- Records for different paths of one source have different keys. -/
theorem Context.differs_of_mem_recordsAlong {a : Note} {path path' : List Nat}
    (hne : path ≠ path') : ∀ c ∈ ctx.recordsAlong a path, ∀ d ∈ ctx.recordsAlong a path',
      Chain.Differs c d := by
  intro c hc d hd hkey
  have hnodes : c.nodes = d.nodes := congrArg Chain.Key.nodes hkey
  rw [recordsAlong_eq] at hc hd
  split at hc
  · cases hc
  split at hd
  · cases hd
  cases a with
  | suppress r => cases hc
  | warn r =>
    obtain rfl := List.mem_singleton.1 hc
    obtain rfl := List.mem_singleton.1 hd
    exact hne hnodes
  | unanalyzed calls =>
    obtain ⟨call, -, rfl⟩ := List.mem_map.1 hc
    obtain ⟨call', -, rfl⟩ := List.mem_map.1 hd
    exact hne (List.cons.inj hnodes).2

/-- If every path of a finding gives `k` records and `k'` keys, then so many records are left out
for each path. -/
theorem Context.repeats_eq_mul {a : Note} {k k' : Nat} (hnote : ctx.marking.note? f.source = some a)
    (hnodup : f.paths.Nodup)
    (hk : ∀ path ∈ f.paths, (ctx.recordsAlong a path).length = k)
    (hk' : ∀ path ∈ f.paths, ((ctx.recordsAlong a path).map Chain.key).dedup.length = k') :
    ctx.repeats f = f.paths.length * (k - k') := by
  have hkeys : f.paths.Pairwise fun path path' ↦ ∀ x ∈ (ctx.recordsAlong a path).map Chain.key,
      ∀ y ∈ (ctx.recordsAlong a path').map Chain.key, x ≠ y := by
    refine List.Pairwise.imp (fun hne x hx y hy ↦ ?_) hnodup
    obtain ⟨c, hc, rfl⟩ := List.mem_map.1 hx
    obtain ⟨d, hd, rfl⟩ := List.mem_map.1 hy
    exact differs_of_mem_recordsAlong hne c hc d hd
  have hlength : (ctx.records f).length = f.paths.length * k := by
    rw [records_eq_flatMap hnote, List.length_flatMap, List.map_congr_left hk, List.map_const',
      List.sum_replicate_nat]
  have hdistinct : ((ctx.records f).map Chain.key).dedup.length = f.paths.length * k' := by
    rw [records_eq_flatMap hnote, List.map_flatMap, length_dedup_flatMap hkeys,
      List.map_congr_left hk', List.map_const', List.sum_replicate_nat]
  rw [repeats, hlength, hdistinct, Nat.mul_sub]

/-- What the report shows of an unresolved call beside the path: the method that is called, and the
note as printed. -/
def shown (call : ReflectiveCall) : Nat × String :=
  (call.target, (Note.warn call.remark).text)

/-- The category of a chain through the given methods. -/
def Context.categoryOf (ctx : Context) (nodes : List Nat) : String :=
  Category.classify ctx.signatures ctx.numbering nodes
    (nodes.filterMap fun node ↦ (ctx.numbering.detail? node).map Method.fullName)

/-- Two unresolved calls give one key along a path exactly if the report shows them alike. -/
theorem Context.length_dedup_keys (ctx : Context) (calls : List ReflectiveCall) (path : List Nat) :
    ((calls.map fun call ↦ ctx.chain (call.target :: path) (.warn call.remark)).map
      Chain.key).dedup.length = (calls.map shown).dedup.length := by
  let key (p : Nat × String) : Chain.Key := ⟨p.1 :: path, ctx.categoryOf (p.1 :: path), p.2⟩
  have hinj : Function.Injective key := by
    intro p q h
    obtain ⟨hnodes, -, htext⟩ := Chain.Key.mk.inj h
    exact Prod.ext (List.cons.inj hnodes).1 htext
  have hmap : (calls.map fun call ↦ ctx.chain (call.target :: path) (.warn call.remark)).map
      Chain.key = (calls.map shown).map key := by
    rw [List.map_map, List.map_map]
    rfl
  rw [hmap, List.dedup_map_of_injective hinj, List.length_map]

/-- How many records each path of a source with a given note gives. -/
def recordsPer : Note → Nat
  | .suppress _ => 0
  | .warn _ => 1
  | .unanalyzed calls => calls.length

/-- How many different keys these records have. -/
def keysPer : Note → Nat
  | .suppress _ => 0
  | .warn _ => 1
  | .unanalyzed calls => (calls.map shown).dedup.length

/-- How many records a path gives depends on the note alone. -/
theorem Context.length_recordsAlong (ctx : Context) (a : Note) {path : List Nat}
    (h : 2 ≤ path.length) : (ctx.recordsAlong a path).length = recordsPer a := by
  rw [recordsAlong_eq, if_neg (Nat.not_lt.2 h)]
  cases a with
  | suppress r => rfl
  | warn r => rfl
  | unanalyzed calls => exact List.length_map ..

/-- So does the number of their keys. -/
theorem Context.length_keysAlong (ctx : Context) (a : Note) {path : List Nat}
    (h : 2 ≤ path.length) :
    ((ctx.recordsAlong a path).map Chain.key).dedup.length = keysPer a := by
  rw [recordsAlong_eq, if_neg (Nat.not_lt.2 h)]
  cases a with
  | suppress r => rfl
  | warn r => rfl
  | unanalyzed calls => exact ctx.length_dedup_keys calls path

end Collector

namespace Analysis

namespace Prepared

/-! ### The findings of an analysis -/

/-- What the search from `s` finds, which may be nothing. -/
def findingOf (pre : Prepared) (o : Search.Options) (s : Nat) : Finding :=
  ⟨s, (pre.graph.search o s).paths⟩

/-- The findings of the searches from some methods. -/
def findingsFrom (pre : Prepared) (o : Search.Options) (sources : List Nat) : List Finding :=
  sources.filterMap fun s ↦ finding? (pre.graph.search o s)

/-- The findings of the searches from all hazards. -/
def findings (pre : Prepared) (o : Search.Options) : List Finding :=
  pre.findingsFrom o pre.graph.hazards

/-- The hazards that are no entries and have unresolved reflective calls on record. -/
def unresolved (pre : Prepared) : List Nat :=
  pre.graph.hazards.filter fun s ↦
    pre.graph.isEntry s = false ∧ (pre.marking.note? s).any Note.isUnanalyzed = true

/-- How many unresolved calls of a method are shown like an earlier one. -/
def repeatedCalls (pre : Prepared) (s : Nat) : Nat :=
  match pre.marking.note? s with
  | some (.unanalyzed calls) => calls.length - (calls.map Collector.shown).dedup.length
  | _ => 0

variable {pre : Prepared} {o : Search.Options} {s : Nat}

/-- A search has a finding if it has found a destination. -/
theorem finding?_search (pre : Prepared) (o : Search.Options) (s : Nat) :
    finding? (pre.graph.search o s) =
      if (pre.graph.search o s).destinations = [] then none else some (pre.findingOf o s) := by
  have hiff : (pre.graph.search o s).paths.isEmpty = true ↔
      (pre.graph.search o s).destinations = [] := by
    rw [List.isEmpty_iff, ← List.length_eq_zero_iff, CallGraph.length_paths_search,
      List.length_eq_zero_iff]
  simp only [finding?, hiff, CallGraph.start_search]
  rfl

/-- The findings are those of the hazards whose search has found something. -/
theorem mem_findings {f : Finding} : f ∈ pre.findings o ↔
    ∃ s ∈ pre.graph.hazards, (pre.graph.search o s).destinations ≠ [] ∧ pre.findingOf o s = f := by
  rw [findings, findingsFrom, List.mem_filterMap]
  refine exists_congr fun s ↦ and_congr_right fun _ ↦ ?_
  rw [finding?_search]
  split
  next hnil => simp [hnil]
  next hne => simp [hne]

/-- There is one for each of these hazards. -/
theorem length_findings (pre : Prepared) (o : Search.Options) :
    (pre.findings o).length =
      pre.graph.hazards.countP fun s ↦ (pre.graph.search o s).destinations ≠ [] := by
  rw [findings, findingsFrom, List.length_filterMap_eq_countP]
  refine List.countP_congr fun s _ ↦ ?_
  rw [finding?_search]
  split
  next hnil => simp [hnil]
  next hne => simp [hne]

theorem lt_size_of_mem_hazards (h : s ∈ pre.graph.hazards) : s < pre.graph.size :=
  List.mem_range.1 (List.mem_filter.1 h).1

theorem isHazard_of_mem_hazards (h : s ∈ pre.graph.hazards) : pre.graph.isHazard s = true :=
  (List.mem_filter.1 h).2

/-- The findings of different searches are apart. -/
theorem pairwise_apart_findings (pre : Prepared) (ctx : Collector.Context)
    (hex : o.excludeInteriorSources = true) : (pre.findings o).Pairwise ctx.Apart := by
  have hnodup : pre.graph.hazards.Nodup := List.nodup_range.filter _
  refine List.Pairwise.filterMap _ (fun s t hst ↦ ?_)
    (List.Pairwise.imp_of_mem (S := fun s t ↦ ctx.Apart (pre.findingOf o s) (pre.findingOf o t))
      (fun hs ht hne ↦ ?_) hnodup)
  · intro f hf f' hf'
    rw [finding?_search] at hf hf'
    split at hf
    · cases hf
    split at hf'
    · cases hf'
    obtain rfl := Option.some.inj hf
    obtain rfl := Option.some.inj hf'
    exact hst
  · exact CallGraph.apart_search ctx hex (isHazard_of_mem_hazards hs) (isHazard_of_mem_hazards ht)
      hne

/-- Nothing is left out of the finding of an entry, since it shows no chain. For any other source,
one record is left out for each destination and each repeated call. -/
theorem repeats_findingOf (grouping : Grouping) (hs : s < pre.graph.size) :
    (pre.context grouping).repeats (pre.findingOf o s) =
      if pre.graph.isEntry s then 0
      else (pre.graph.search o s).destinations.length * pre.repeatedCalls s := by
  cases hnote : pre.marking.note? s with
  | none =>
    rw [Collector.Context.repeats_of_records_eq_nil (Collector.Context.records_eq_nil hnote)]
    simp [repeatedCalls, hnote]
  | some a =>
    cases hentry : pre.graph.isEntry s with
    | true =>
      rw [Collector.Context.repeats_of_records_eq_nil, if_pos rfl]
      refine List.eq_nil_iff_forall_not_mem.2 fun c hc ↦ ?_
      obtain ⟨path, hpath, hlen, -⟩ := Collector.Context.mem_records_iff.1 hc
      have hone := CallGraph.length_of_mem_paths_of_isEntry hs hentry hpath
      omega
    | false =>
      have hlen := fun path (hpath : path ∈ (pre.findingOf o s).paths) ↦
        CallGraph.two_le_length_of_mem_paths hentry hpath
      rw [Collector.Context.repeats_eq_mul hnote (CallGraph.nodup_paths_search ..)
        (fun path hpath ↦ Collector.Context.length_recordsAlong _ a (hlen path hpath))
        (fun path hpath ↦ Collector.Context.length_keysAlong _ a (hlen path hpath)),
        if_neg Bool.false_ne_true, ← CallGraph.length_paths_search]
      cases a <;> simp [findingOf, repeatedCalls, hnote, Collector.recordsPer, Collector.keysPer]

/-- Searches that find nothing leave nothing out. -/
theorem sum_repeats_eq (pre : Prepared) (o : Search.Options) (ctx : Collector.Context) :
    ((pre.findings o).map ctx.repeats).sum =
      (pre.graph.hazards.map fun s ↦ ctx.repeats (pre.findingOf o s)).sum := by
  unfold findings findingsFrom
  induction pre.graph.hazards with
  | nil => rfl
  | cons s l ih =>
    rw [List.filterMap_cons, finding?_search]
    by_cases hnil : (pre.graph.search o s).destinations = []
    · have hpaths : (pre.findingOf o s).paths = [] := by simp [findingOf, Search.Result.paths, hnil]
      have hrecords : ctx.records (pre.findingOf o s) = [] := by
        refine List.eq_nil_iff_forall_not_mem.2 fun c hc ↦ ?_
        obtain ⟨path, hpath, -⟩ := Collector.Context.mem_records_iff.1 hc
        rw [hpaths] at hpath
        cases hpath
      simp [hnil, ih, Collector.Context.repeats_of_records_eq_nil hrecords]
    · simp [hnil, ih]

theorem repeatedCalls_eq_zero (h : (pre.marking.note? s).any Note.isUnanalyzed = false) :
    pre.repeatedCalls s = 0 := by
  unfold repeatedCalls
  split
  next hnote =>
    rw [hnote] at h
    cases h
  · rfl

/-- The records that are left out, summed over the sources that can have any. -/
theorem sum_repeats_findings (pre : Prepared) (o : Search.Options) (grouping : Grouping) :
    ((pre.findings o).map (pre.context grouping).repeats).sum =
      (pre.unresolved.map fun s ↦
        (pre.graph.search o s).destinations.length * pre.repeatedCalls s).sum := by
  have hrepeats := fun s (hs : s ∈ pre.graph.hazards) ↦
    repeats_findingOf (o := o) grouping (lt_size_of_mem_hazards hs)
  rw [sum_repeats_eq, ← List.sum_map_filter_add_sum_map_filter_not
    (fun s ↦ pre.graph.isEntry s = false ∧ (pre.marking.note? s).any Note.isUnanalyzed = true)]
  have hother : (((pre.graph.hazards.filter fun s ↦ ¬ (pre.graph.isEntry s = false ∧
      (pre.marking.note? s).any Note.isUnanalyzed = true)).map fun s ↦
        (pre.context grouping).repeats (pre.findingOf o s)).sum) = 0 := by
    refine List.sum_eq_zero fun n hn ↦ ?_
    obtain ⟨s, hs, rfl⟩ := List.mem_map.1 hn
    obtain ⟨hs, hnot⟩ := List.mem_filter.1 hs
    rw [hrepeats s hs]
    cases hentry : pre.graph.isEntry s with
    | true => rfl
    | false =>
      have hnote : (pre.marking.note? s).any Note.isUnanalyzed = false := by
        simpa [hentry] using hnot
      simp [repeatedCalls_eq_zero hnote]
  rw [hother, Nat.add_zero, unresolved]
  congr 1
  refine List.map_congr_left fun s hs ↦ ?_
  obtain ⟨hs, hsource⟩ := List.mem_filter.1 hs
  rw [hrepeats s hs, if_neg]
  simpa using (of_decide_eq_true hsource).1

/-! ### Independence of the order of arrival -/

/-- **A report does not depend on the order in which searches end**, if interior hazards are
excluded. The records of different hazards have different keys. So a record is a duplicate only of
one with the same source and the same path: for each destination, that of a call which is shown like
an earlier one. Every order of the findings gives the same summary and, if chains are arranged, the
same deliveries one after the other. -/
theorem report_independent_of_order (pre : Prepared) (o : Search.Options) (grouping : Grouping)
    (hex : o.excludeInteriorSources = true) :
    (∀ s ∈ pre.graph.hazards, ∀ t ∈ pre.graph.hazards, s ≠ t →
      ∀ c ∈ (pre.context grouping).records (pre.findingOf o s),
        ∀ d ∈ (pre.context grouping).records (pre.findingOf o t), c.key ≠ d.key) ∧
    ∃ (summary : Collector.Summary) (deliveries : List Delivery),
      summary.duplicates = (pre.unresolved.map fun s ↦
        (pre.graph.search o s).destinations.length * pre.repeatedCalls s).sum ∧
      ∀ order : List Finding, order.Perm (pre.findings o) →
        ∀ (σ : Type) [Receiver σ] (receiver : σ), Receiver.Reliable σ →
          ∃ col : Collector σ,
            (Collector.drain (pre.context grouping) (fun _ ↦ false) 0 { receiver }
              (order.map .found ++ [.done])).value = (col, .ok summary) ∧
            (grouping.isGrouped = true →
              Receiver.receiveAll receiver deliveries = (col.receiver, .ok ())) := by
  have happart := pre.pairwise_apart_findings (pre.context grouping) hex
  refine ⟨fun s hs t ht hne ↦ CallGraph.apart_search _ hex (isHazard_of_mem_hazards hs)
    (isHazard_of_mem_hazards ht) hne, ?_⟩
  -- any receiver will do to name the summary; a transcript takes everything
  have htranscript : Receiver.Reliable Transcript := ⟨fun _ _ ↦ rfl, fun _ ↦ rfl⟩
  obtain ⟨_, summary, hcollect⟩ := Collector.exists_collect htranscript (pre.context grouping)
    { receiver := {} } (pre.findings o)
  obtain ⟨col₀, hcol₀, rfl, -⟩ := Collector.collect_cases hcollect
  refine ⟨col₀.summary (pre.context grouping), (pre.context grouping).deliveries (pre.findings o),
    (hcol₀.duplicates_eq happart).trans (pre.sum_repeats_findings o grouping), ?_⟩
  intro order horder σ _ receiver hσ
  have happart' := horder.symm.pairwise happart fun h ↦ h.symm
  obtain ⟨col, s, hcollect⟩ := Collector.exists_collect hσ (pre.context grouping) { receiver } order
  obtain ⟨col₁, hcol₁, rfl, hreceive⟩ := Collector.collect_cases hcollect
  refine ⟨col, ?_, fun hgrouped ↦ ?_⟩
  · rw [Collector.value_drain hσ, hcollect, hcol₁.summary_eq_of_perm happart' horder hcol₀]
  · rw [← hreceive, Collector.Context.deliveries_eq_of_perm hgrouped happart' horder]

/-- An entry calls a method with a warning, and a method with one unresolved call on record
twice. -/
def recordedTwice : Prepared where
  numbering := .empty
  marking := ⟨#[{ note := some (.warn ⟨"Trim", "risky", .memberTrimming⟩) },
    { note := some (.unanalyzed [⟨3, ⟨"Reflection", "unknown", .memberTrimming⟩⟩,
      ⟨3, ⟨"Reflection", "unknown", .memberTrimming⟩⟩]) }, {}, {}]⟩
  graph :=
    { nodes := #[{ callers := [2], isHazard := true }, { callers := [2], isHazard := true },
        { isEntry := true }, {}]
      callers_lt := by decide }
  rules := {}
  inheritance := {}
  unanalyzedMethods := 1
  resolvedReflectionCalls := 0

/-- Both methods are found, in either order, and one of three records is a duplicate. -/
theorem report_independent_of_order_recordedTwice :
    (recordedTwice.findings {}).map Finding.source = [0, 1] ∧
    ∃ (summary : Collector.Summary) (deliveries : List Delivery), summary.duplicates = 1 ∧
      ∀ order : List Finding, order.Perm (recordedTwice.findings {}) →
        ∃ col : Collector Transcript,
          (Collector.drain (recordedTwice.context .callee) (fun _ ↦ false) 0 { receiver := {} }
            (order.map .found ++ [.done])).value = (col, .ok summary) ∧
          Receiver.receiveAll ({} : Transcript) deliveries = (col.receiver, .ok ()) := by
  obtain ⟨-, summary, deliveries, hduplicates, horders⟩ :=
    report_independent_of_order recordedTwice {} .callee rfl
  refine ⟨by decide +kernel, summary, deliveries, hduplicates.trans (by decide +kernel), ?_⟩
  intro order horder
  obtain ⟨col, hdrain, hreceive⟩ :=
    horders order horder Transcript {} ⟨fun _ _ ↦ rfl, fun _ ↦ rfl⟩
  exact ⟨col, hdrain, hreceive rfl⟩

end Prepared

end Analysis

end HazardTrace
