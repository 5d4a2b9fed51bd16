import HazardTrace.Proofs.Collector.Handed
import HazardTrace.Proofs.Program.Numbering
import HazardTrace.Report.Delivery
import Mathlib.Data.Set.Card

/-!
# Coverage is exact

The coverage of a report is taken from two lists of methods: the entry methods of its chains and all
methods that are known. An entry method is a known method (`Collector.hits_subset`), and all else
follows from that.

* **Namespaces.** A namespace with hits has known methods (`namespaces_subset`), so each named
  namespace of a known method has exactly one line, those with hits in the first part of the
  coverage and the others in the second (`namespaces_summarize_perm`).
* **Numbers.** No line falls back on its hits for the number of its types (`line_eq`), and no line
  has more hits than types (`typesIn_mono`). Types are counted without repetition, which
  `typesIn_eq_ncard` says by the size of a set: that is how the main theorem states it.
* **Order.** The lines are in one order throughout, `Line.Precedes`: more hits first, and by name
  among equals. The program sorts the first part and lists the second by name. This agrees because a
  namespace without hits has fewer of them than any other (`pairwise_summarize`).

`coverage_exact` says all of this of a finished report, with the hits taken from the chains that the
receiver was handed. They are those that the collector holds, up to order
(`Context.chains_deliveries`), and coverage does not depend on their order.

Methods outside all namespaces are not covered, and neither are ids of which nothing is known.
-/

namespace HazardTrace

namespace Coverage

variable {methods hits known : List Method} {ns : String} {s : Numbering Method}

/-! ### Types of a namespace -/

/-- The namespaces of some methods are those that have a name. -/
theorem mem_namespaces : ns ∈ namespaces methods ↔ ns ≠ "" ∧ ∃ m ∈ methods, m.ns = ns := by
  simp [namespaces, and_comm]

theorem nodup_namespaces (methods : List Method) : (namespaces methods).Nodup :=
  nodup_ascending _

theorem mem_types {t : String} :
    t ∈ ascending ((methods.filter (·.ns == ns)).map Method.declaringType) ↔
      ∃ m ∈ methods, m.ns = ns ∧ m.declaringType = t := by
  simp [and_assoc]

/-- The types of a namespace are counted once each. -/
theorem typesIn_eq_ncard (methods : List Method) (ns : String) :
    typesIn methods ns = {t | ∃ m ∈ methods, m.ns = ns ∧ m.declaringType = t}.ncard := by
  have hset : {t | ∃ m ∈ methods, m.ns = ns ∧ m.declaringType = t} =
      ((ascending ((methods.filter (·.ns == ns)).map Method.declaringType)).toFinset :
        Set String) := by
    ext t
    rw [Finset.mem_coe, List.mem_toFinset, mem_types]
    rfl
  rw [hset, Set.ncard_coe_finset, List.toFinset_card_of_nodup (nodup_ascending _), typesIn]

/-- More methods have at least as many types. -/
theorem typesIn_mono (h : hits ⊆ known) (ns : String) : typesIn hits ns ≤ typesIn known ns := by
  refine (List.subperm_of_subset (nodup_ascending _) fun t ht ↦ ?_).length_le
  obtain ⟨m, hm, hrest⟩ := mem_types.1 ht
  exact mem_types.2 ⟨m, h hm, hrest⟩

/-- A namespace has types if it has methods. -/
theorem typesIn_pos_iff : 0 < typesIn methods ns ↔ ∃ m ∈ methods, m.ns = ns := by
  rw [typesIn, List.length_pos_iff_exists_mem]
  constructor
  · rintro ⟨t, ht⟩
    obtain ⟨m, hm, hns, -⟩ := mem_types.1 ht
    exact ⟨m, hm, hns⟩
  · rintro ⟨m, hm, hns⟩
    exact ⟨m.declaringType, mem_types.2 ⟨m, hm, hns, rfl⟩⟩

/-! ### Lines -/

/-- Of two lines the one with more hits comes first, and of lines with the same number the one whose
namespace does. -/
def Line.Precedes (a b : Line) : Prop :=
  b.hitTypes < a.hitTypes ∨ a.hitTypes = b.hitTypes ∧ a.ns < b.ns

/-- The line of a namespace that known methods have. -/
theorem line_eq (hits : List Method) (hns : ns ∈ namespaces known) :
    line hits known ns = ⟨ns, typesIn hits ns, typesIn known ns⟩ := by
  have hany : known.any (·.ns == ns) = true := by
    simpa using (mem_namespaces.1 hns).2
  rw [line, if_pos hany]

/-- A namespace that is hit is known. -/
theorem namespaces_subset (h : hits ⊆ known) : namespaces hits ⊆ namespaces known := by
  intro ns hns
  obtain ⟨hne, m, hm, hmns⟩ := mem_namespaces.1 hns
  exact mem_namespaces.2 ⟨hne, m, h hm, hmns⟩

/-- Each namespace has one line, those with hits in the first part and the others in the second. -/
theorem namespaces_summarize_perm (s : Numbering Method)
    (h : hits ⊆ s.resolved.map (·.2)) :
    ((summarize s hits).map Line.ns).Perm (namespaces (s.resolved.map (·.2))) := by
  have hlines : ((summarize s hits).map Line.ns).Perm (namespaces hits ++
      (namespaces (s.resolved.map (·.2))).filter (!(namespaces hits).contains ·)) := by
    rw [summarize, List.map_append, List.map_map]
    refine List.Perm.append ?_ (.of_eq (List.map_id _))
    refine ((List.mergeSort_perm _ _).map _).trans (.of_eq ?_)
    rw [List.map_map]
    exact List.map_id _
  refine hlines.trans ((List.perm_ext_iff_of_nodup ?_ (nodup_namespaces _)).2 fun ns ↦ ?_)
  · refine List.nodup_append.2 ⟨nodup_namespaces _, (nodup_namespaces _).filter _, ?_⟩
    rintro ns hns ns' hns' rfl
    simp [hns] at hns'
  · rw [List.mem_append, List.mem_filter]
    by_cases hns : ns ∈ namespaces hits
    · simp [hns, namespaces_subset h hns]
    · simp [hns]

/-- A line counts the types of its namespace that are hit and those that are known. -/
theorem types_of_mem_summarize (h : hits ⊆ s.resolved.map (·.2)) {l : Line}
    (hl : l ∈ summarize s hits) :
    l.hitTypes = typesIn hits l.ns ∧ l.totalTypes = typesIn (s.resolved.map (·.2)) l.ns := by
  have hline : ∃ ns ∈ namespaces (s.resolved.map (·.2)),
      line hits (s.resolved.map (·.2)) ns = l := by
    rw [summarize, List.mem_append, List.mem_mergeSort] at hl
    rcases hl with hl | hl
    · obtain ⟨ns, hns, rfl⟩ := List.mem_map.1 hl
      exact ⟨ns, namespaces_subset h hns, rfl⟩
    · obtain ⟨ns, hns, rfl⟩ := List.mem_map.1 hl
      exact ⟨ns, (List.mem_filter.1 hns).1, rfl⟩
  obtain ⟨ns, hns, rfl⟩ := hline
  rw [line_eq hits hns]
  exact ⟨rfl, rfl⟩

/-- The lines are in order. -/
theorem pairwise_summarize (s : Numbering Method) (hits : List Method) :
    (summarize s hits).Pairwise Line.Precedes := by
  -- a namespace of the second part has no hits
  have hsplit : ∀ ns, ns ∈ namespaces (s.resolved.map (·.2)) → ns ∉ namespaces hits →
      typesIn hits ns = 0 := by
    intro ns hns hnot
    rw [← Nat.le_zero, ← Nat.not_lt, typesIn_pos_iff]
    exact fun hhit ↦ hnot (mem_namespaces.2 ⟨(mem_namespaces.1 hns).1, hhit⟩)
  refine List.pairwise_append.2 ⟨?_, ?_, ?_⟩
  · -- sorted by count and name, and no name twice
    have hnames : (((namespaces hits).map (line hits (s.resolved.map (·.2)))).mergeSort
        Line.le).Pairwise fun a b ↦ a.ns ≠ b.ns := by
      rw [← List.pairwise_map (R := (· ≠ ·)), ← List.Nodup,
        ((List.mergeSort_perm _ _).map Line.ns).nodup_iff, List.map_map]
      exact (List.map_id _).symm ▸ nodup_namespaces hits
    refine ((pairwise_mergeSort_count Line.ns Line.hitTypes _).and hnames).imp ?_
    rintro a b ⟨hlt | ⟨heq, hle⟩, hne⟩
    · exact .inl hlt
    · exact .inr ⟨heq, Std.lt_of_le_of_ne hle hne⟩
  · -- all have no hits and are listed by name
    rw [List.pairwise_map]
    refine ((pairwise_lt_ascending _).filter _).imp_of_mem fun {a b} ha hb hlt ↦ .inr ⟨?_, hlt⟩
    obtain ⟨ha, hanot⟩ := List.mem_filter.1 ha
    obtain ⟨hb, hbnot⟩ := List.mem_filter.1 hb
    exact (hsplit a ha (by simpa using hanot)).trans (hsplit b hb (by simpa using hbnot)).symm
  · -- some hits come before none
    intro a ha b hb
    obtain ⟨ns, hns, rfl⟩ := List.mem_map.1 (List.mem_mergeSort.1 ha)
    obtain ⟨ns', hns', rfl⟩ := List.mem_map.1 hb
    obtain ⟨hns', hnot⟩ := List.mem_filter.1 hns'
    refine .inl ?_
    show typesIn hits ns' < typesIn hits ns
    rw [hsplit ns' hns' (by simpa using hnot)]
    exact typesIn_pos_iff.2 (mem_namespaces.1 hns).2

end Coverage

namespace Collector

variable {ctx : Context} {chains : List Chain}

/-! ### Hits -/

/-- The hits are the last methods of the chains, as far as they are known. -/
theorem exists_mem_hits {P : Method → Prop} :
    (∃ m ∈ hits ctx chains, P m) ↔
      ∃ c ∈ chains, ∃ m, c.nodes.getLast?.bind ctx.numbering.detail? = some m ∧ P m := by
  simp only [hits, List.mem_filterMap, Chain.entry?]
  constructor
  · rintro ⟨m, ⟨c, hc, hm⟩, hP⟩
    exact ⟨c, hc, m, hm, hP⟩
  · rintro ⟨c, hc, m, hm, hP⟩
    exact ⟨m, ⟨c, hc, hm⟩, hP⟩

/-- The known methods are those that some number stands for. -/
theorem exists_mem_known {P : Method → Prop} :
    (∃ m ∈ ctx.numbering.resolved.map (·.2), P m) ↔
      ∃ u m, ctx.numbering.detail? u = some m ∧ P m := by
  simp only [List.mem_map, Prod.exists, exists_eq_right, Numbering.mem_resolved]
  constructor
  · rintro ⟨m, ⟨u, hu⟩, hP⟩
    exact ⟨u, m, hu, hP⟩
  · rintro ⟨u, m, hu, hP⟩
    exact ⟨m, ⟨u, hu⟩, hP⟩

/-- The entry method of a chain is a known method. -/
theorem hits_subset (ctx : Context) (chains : List Chain) :
    hits ctx chains ⊆ ctx.numbering.resolved.map (·.2) := by
  intro m hm
  obtain ⟨c, -, hc⟩ := List.mem_filterMap.1 hm
  obtain ⟨u, -, hu⟩ := Option.bind_eq_some_iff.1 hc
  exact List.mem_map.2 ⟨(u, m), Numbering.mem_resolved.2 hu, rfl⟩

/-- **The coverage of a report is exact.** A receiver that never fails gets a finished report. Its
coverage has one line for each named namespace of a known method. The line counts the types that
declare the last method of a chain that was handed over, and all types that declare a known method;
the hits are no more than these. Lines with more hits come first, and lines with equally many by
namespace, so that those without hits come last. -/
theorem coverage_exact {σ : Type} [Receiver σ] (hσ : Receiver.NeverFails σ) (ctx : Context)
    (receiver : σ) (fs : List Finding) :
    ∃ (col : Collector (Watched σ)) (s : Summary),
      collect ctx { receiver := { receiver } } fs = (col, .ok s) ∧
      (s.coverage.map Coverage.Line.ns).Nodup ∧
      (∀ ns, ns ∈ s.coverage.map Coverage.Line.ns ↔
        ns ≠ "" ∧ ∃ u m, ctx.numbering.detail? u = some m ∧ m.ns = ns) ∧
      (∀ l ∈ s.coverage,
        l.hitTypes = {t | ∃ c ∈ col.receiver.chains, ∃ m,
          c.nodes.getLast?.bind ctx.numbering.detail? = some m ∧
          m.ns = l.ns ∧ m.declaringType = t}.ncard ∧
        l.totalTypes = {t | ∃ u m, ctx.numbering.detail? u = some m ∧
          m.ns = l.ns ∧ m.declaringType = t}.ncard ∧
        l.hitTypes ≤ l.totalTypes) ∧
      s.coverage.Pairwise Coverage.Line.Precedes := by
  obtain ⟨col, col', hholds, hcollect, hhanded⟩ := exists_collect_watched hσ ctx receiver fs
  have hdelivered : col'.receiver.chains.Perm col.chains := by
    rw [Watched.chains, hhanded, show col.chains = ctx.chainsOf fs from hholds.chains]
    exact ctx.chains_deliveries fs
  have hsubset := hits_subset ctx col.chains
  have hnames := Coverage.namespaces_summarize_perm ctx.numbering hsubset
  refine ⟨col', col.summary ctx, hcollect, hnames.nodup_iff.2 (Coverage.nodup_namespaces _),
    fun ns ↦ ?_, fun l hl ↦ ?_, Coverage.pairwise_summarize ctx.numbering _⟩
  · refine hnames.mem_iff.trans (Coverage.mem_namespaces.trans (and_congr_right fun _ ↦ ?_))
    exact exists_mem_known
  · obtain ⟨hhit, htotal⟩ := Coverage.types_of_mem_summarize hsubset hl
    refine ⟨?_, ?_, hhit ▸ htotal ▸ Coverage.typesIn_mono hsubset l.ns⟩
    · rw [hhit, Coverage.typesIn_eq_ncard]
      simp only [exists_mem_hits, hdelivered.mem_iff]
    · rw [htotal, Coverage.typesIn_eq_ncard]
      simp only [exists_mem_known]

/-- A dangerous method outside all namespaces, and two types of one namespace. Nothing is known of
the last method but its id. -/
def twoTypes : Context where
  numbering :=
    let s := (Numbering.empty.declare "risk"
      { id := "risk", name := "Risk", signature := "Risk()", declaringType := "Risks" }).2
    let s := (s.declare "main"
      { id := "main", name := "Main", signature := "Main()", declaringType := "App.Shell",
        ns := "App" }).2
    let s := (s.declare "run"
      { id := "run", name := "Run", signature := "Run()", declaringType := "App.Core",
        ns := "App" }).2
    (s.assign "ghost").2
  marking := ⟨#[{ note := some (.warn ⟨"Trim", "risky", .memberTrimming⟩) }, {}, {}, {}]⟩
  grouping := .callee

/-- There is one line, for the only namespace, and both of its types are counted. -/
theorem coverage_exact_twoTypes :
    ∃ (col : Collector (Watched Transcript)) (s : Summary),
      collect twoTypes { receiver := { receiver := {} } } [⟨0, [[0, 1], [0, 3]]⟩] = (col, .ok s) ∧
      (∀ ns, ns ∈ s.coverage.map Coverage.Line.ns ↔ ns = "App") ∧
      ∀ l ∈ s.coverage, l.totalTypes = 2 ∧ l.hitTypes ≤ 2 := by
  obtain ⟨col, s, hcollect, -, hnames, hlines, -⟩ :=
    coverage_exact (σ := Transcript) (fun _ _ ↦ rfl) twoTypes {} [⟨0, [[0, 1], [0, 3]]⟩]
  have hpairs : (twoTypes.numbering.resolved.map (·.2)).map (fun m ↦ (m.ns, m.declaringType)) =
      [("", "Risks"), ("App", "App.Shell"), ("App", "App.Core")] := by
    decide +kernel
  have hknown : ∀ P : String × String → Prop,
      (∃ u m, twoTypes.numbering.detail? u = some m ∧ P (m.ns, m.declaringType)) ↔
        P ("", "Risks") ∨ P ("App", "App.Shell") ∨ P ("App", "App.Core") := by
    intro P
    have hmap := congrArg (fun l ↦ ∃ p ∈ l, P p) hpairs
    simp only [List.mem_map (f := fun m : Method ↦ (m.ns, m.declaringType)),
      exists_exists_and_eq_and] at hmap
    rw [← exists_mem_known (P := fun m ↦ P (m.ns, m.declaringType)), hmap]
    simp
  have hns : ∀ ns, ns ∈ s.coverage.map Coverage.Line.ns ↔ ns = "App" := by
    intro ns
    rw [hnames, hknown fun p ↦ p.1 = ns]
    constructor
    · rintro ⟨hne, rfl | rfl | rfl⟩
      · exact absurd rfl hne
      · rfl
      · rfl
    · rintro rfl
      exact ⟨by decide, .inr (.inl rfl)⟩
  refine ⟨col, s, hcollect, hns, fun l hl ↦ ?_⟩
  obtain ⟨-, htotal, hle⟩ := hlines l hl
  have happ := (hns l.ns).1 (List.mem_map_of_mem hl)
  have htypes : {t | ∃ u m, twoTypes.numbering.detail? u = some m ∧ m.ns = l.ns ∧
      m.declaringType = t} = {"App.Shell", "App.Core"} := by
    ext t
    refine (hknown fun p ↦ p.1 = l.ns ∧ p.2 = t).trans ?_
    simp [happ, eq_comm (b := t)]
  rw [htypes, Set.ncard_pair (by decide)] at htotal
  exact ⟨htotal, htotal ▸ hle⟩

end Collector

end HazardTrace
