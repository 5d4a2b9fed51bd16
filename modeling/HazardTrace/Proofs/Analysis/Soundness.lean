import HazardTrace.Proofs.Analysis.Exposure
import HazardTrace.Proofs.Collector.Handed
import HazardTrace.Proofs.Concurrent.Completeness
import HazardTrace.Proofs.Search.Exactness

/-!
# What a report says about a program

Every chain that a receiver is handed shows a dangerous method of the program that is exposed by an
entry. Without a cap on destinations, and with interior hazards excluded, a method with a warning is
shown by exactly one chain for each entry that exposes it, and that chain is as short as can be
(`report_sound_complete`).

The chains come from records, and these from the paths of searches. Four facts are put together.

* **Soundness.** A record is turned into ids (`Mirrors.shows_of_mem_records`): its path is an
  admissible walk to a destination, and such a walk exposes its start (`Mirrors.exposes_of_walk`).
* **Completeness.** What exposes a method is a walk (`Exposes.walk`), and a search without a cap
  finds the destinations of all walks, by shortest paths (`Mirrors.exists_shortest`).
* **It is handed over.** The record of that path is not left out in favour of another one with its
  key: that would be a record of the same path for the same hazard (`Prepared.chain_mem_chainsOf`).
* **It is the only one.** Whatever shows a method with a warning is the record of one path
  (`Mirrors.eq_chain_of_shows`). A chain for an unresolved call elsewhere might have the same
  methods, with the called one in front; but then a hazard would stand inside
  (`Mirrors.not_exposes_cons`).

The last two need interior hazards to be excluded. The run may be any that ends with a report: a
complete report hands over the chains of all findings, each of them once (`Complete.chains_handed`).
-/

namespace HazardTrace

open Search (Options)

namespace Analysis

variable {p : Program} {pre : Prepared} {o : Options} {grouping : Grouping} {s t v : Nat}
  {source entry : String} {c : Chain} {r : Remark} {path : List Nat} {ids : List String}

namespace Mirrors

/-- **A record shows a dangerous method.** -/
theorem shows_of_mem_records (hpre : Mirrors p pre) (hs : s ∈ pre.graph.hazards)
    (hc : c ∈ (pre.context grouping).records (pre.findingOf o s)) :
    ∃ source entry, Shows p pre o source entry c := by
  obtain ⟨path, hpath, hlen, hc⟩ := Collector.Context.mem_records_iff.1 hc
  obtain ⟨v, hv, -, hwalk, hnodup⟩ := CallGraph.mem_paths_search hpath
  have hlt := Prepared.lt_size_of_mem_hazards hs
  have hentry := CallGraph.isEntry_eq_false_of_mem_paths hlt hpath hlen
  have hnote : ∃ a, pre.marking.note? s = some a ∧ (a.isWarn = true ∨ a.isUnanalyzed = true) := by
    rcases hc with ⟨r, hr, -⟩ | ⟨calls, hcalls, -⟩
    · exact ⟨_, hr, .inl rfl⟩
    · exact ⟨_, hcalls, .inr rfl⟩
  obtain ⟨source, hsource⟩ := hpre.exists_id? hlt
  obtain ⟨entry, hlast⟩ := hpre.exists_id? (hwalk.lt_size hlt (List.mem_of_getLast? hwalk.last))
  obtain ⟨ids, hids, hexposes⟩ := hpre.exposes_of_walk hsource hlast hwalk hlen hnodup hnote hentry
    (CallGraph.isDestination_of_mem_destinations hentry hv).2
  refine ⟨source, entry, ids, hexposes, ?_⟩
  rcases hc with ⟨r, hr, rfl⟩ | ⟨calls, hcalls, call, hcall, rfl⟩
  · exact .warning ((Prepared.noteOf_eq hsource).trans hr) rfl hids
  · exact .unresolved ((Prepared.noteOf_eq hsource).trans hcalls) hcall rfl rfl hids

/-- With a method put in front, a path of a hazard exposes nothing: the hazard is inside. -/
theorem not_exposes_cons (hpre : Mirrors p pre) (hex : o.excludeInteriorSources = true)
    (ht : t ∈ pre.graph.hazards) (hpath : path ∈ (pre.graph.search o t).paths)
    (hlen : 2 ≤ path.length) {m : Nat} (hnodes : (m :: path).map pre.numbering.id? = ids.map some) :
    ¬ Exposes p pre o source entry ids := by
  intro h
  have hhead := CallGraph.head?_of_mem_paths hpath
  match path, hlen with
  | a :: b :: rest, _ =>
    obtain rfl : a = t := by simpa using hhead
    obtain ⟨rfl, hnames⟩ := eq_map_name hnodes
    have hid := hnames a (by simp)
    have hinside := h.interior_not_hazard hex (pre.numbering.name a) (by simp)
    rw [Prepared.isHazard_eq hid, ← hpre.isHazard hid, Prepared.isHazard_of_mem_hazards ht] at hinside
    cases hinside

/-- A record that shows a method with a warning is that of a path from this method. -/
theorem eq_chain_of_shows (hpre : Mirrors p pre) (hex : o.excludeInteriorSources = true)
    (hsource : pre.numbering.id? s = some source) (hlast : pre.numbering.id? v = some entry)
    (hnote : pre.marking.note? s = some (.warn r)) (ht : t ∈ pre.graph.hazards)
    (hc : c ∈ (pre.context grouping).records (pre.findingOf o t))
    (hshows : Shows p pre o source entry c) :
    ∃ path, (pre.graph.search o s).pathTo v = some path ∧
      c = (pre.context grouping).chain path (.warn r) := by
  obtain ⟨ids, hexposes, htells⟩ := hshows
  have hnodes : c.nodes.map pre.numbering.id? = ids.map some := by
    cases htells with
    | warning _ _ hnodes => exact hnodes
    | unresolved hcalls =>
      rw [Prepared.noteOf_eq hsource, hnote] at hcalls
      cases hcalls
  obtain ⟨path, hpath, hlen, ⟨r', hr', rfl⟩ | ⟨calls, -, call, -, rfl⟩⟩ :=
    Collector.Context.mem_records_iff.1 hc
  · -- both ends of the path are those of the methods, so it is the path from `s` to `v`
    obtain ⟨w, -, hpathTo, hwalk, -⟩ := CallGraph.mem_paths_search hpath
    obtain rfl := Numbering.eq_of_id? (id?_of_head? hnodes hwalk.head hexposes.head) hsource
    obtain rfl := Numbering.eq_of_id? (id?_of_getLast? hnodes hwalk.last hexposes.last) hlast
    obtain rfl := Note.warn.inj (Option.some.inj (hr'.symm.trans hnote))
    exact ⟨path, hpathTo, rfl⟩
  · exact absurd hexposes (hpre.not_exposes_cons hex ht hpath hlen hnodes)

/-- A method that is exposed is a hazard. -/
theorem mem_hazards (hpre : Mirrors p pre) (hsource : pre.numbering.id? s = some source)
    (h : Exposes p pre o source entry ids) : s ∈ pre.graph.hazards := by
  refine List.mem_filter.2 ⟨List.mem_range.2 (hpre.lt_size hsource), ?_⟩
  obtain ⟨a, ha, -⟩ := h.source_note
  rw [hpre.isHazard hsource, ← Prepared.isHazard_eq hsource, Prepared.isHazard, ha,
    h.source_not_safe]
  rfl

/-- A hazard is annotated and not safe. -/
theorem standing_of_mem_hazards (hpre : Mirrors p pre) (hs : s ∈ pre.graph.hazards) :
    (pre.marking.note? s).isSome = true ∧ pre.graph.isSafe s = false := by
  obtain ⟨id, hid⟩ := hpre.exists_id? (Prepared.lt_size_of_mem_hazards hs)
  have hhazard := Prepared.isHazard_of_mem_hazards hs
  rw [hpre.isHazard hid, Marking.isHazard_eq, ← hpre.isSafe hid, Bool.and_eq_true_iff] at hhazard
  exact ⟨hhazard.1, by simpa using hhazard.2⟩

/-- **A search without a cap finds what exposes its start**, and finds the shortest way. -/
theorem exists_shortest (hpre : Mirrors p pre) (hcap : o.cap = none)
    (h : Exposes p pre o source entry ids) :
    ∃ s v path ids, pre.numbering.id? s = some source ∧ pre.numbering.id? v = some entry ∧
      s ∈ pre.graph.hazards ∧ path ∈ (pre.graph.search o s).paths ∧
      (pre.graph.search o s).pathTo v = some path ∧ path.map pre.numbering.id? = ids.map some ∧
      Exposes p pre o source entry ids ∧
      ∀ ids', Exposes p pre o source entry ids' → ids.length ≤ ids'.length := by
  obtain ⟨s, v, nodes, hsource, hlast, -, hwalk, hentry, hdest⟩ := h.walk hpre
  have hlt := hpre.lt_size hsource
  have hne : v ≠ s := by
    rintro rfl
    cases hentry.symm.trans hdest.isEntry
  have hv := CallGraph.mem_destinations_of_walk hcap hlt hentry hne hdest hwalk
  obtain ⟨path, hpathTo⟩ := CallGraph.exists_pathTo_of_mem_destinations hv
  have hpath : path ∈ (pre.graph.search o s).paths := List.mem_filterMap.2 ⟨v, hv, hpathTo⟩
  obtain ⟨hwalk', hnodup⟩ := CallGraph.walk_of_pathTo_search hpathTo
  have hnote := h.source_note
  rw [Prepared.noteOf_eq hsource] at hnote
  obtain ⟨ids', hids', hexposes⟩ := hpre.exposes_of_walk hsource hlast hwalk'
    (CallGraph.two_le_length_of_mem_paths hentry hpath) hnodup hnote hentry hdest
  refine ⟨s, v, path, ids', hsource, hlast, hpre.mem_hazards hsource h, hpath, hpathTo, hids',
    hexposes, fun ids'' h'' ↦ ?_⟩
  obtain ⟨s'', v'', nodes'', hsource'', hlast'', hnodes'', hwalk'', -⟩ := h''.walk hpre
  obtain rfl := Numbering.eq_of_id? hsource'' hsource
  obtain rfl := Numbering.eq_of_id? hlast'' hlast
  calc ids'.length = path.length := (length_eq_of_map_id? hids').symm
    _ ≤ nodes''.length := CallGraph.length_le_of_walk hcap hlt hentry hpathTo hwalk''
    _ = ids''.length := length_eq_of_map_id? hnodes''

end Mirrors

/-- Nothing takes the place of the record of a warning: another record with its key would be that of
the same path. -/
theorem Prepared.chain_mem_chainsOf {order : List Finding} (hex : o.excludeInteriorSources = true)
    (horder : order.Perm (pre.findings o)) (hs : s ∈ pre.graph.hazards)
    (hnote : pre.marking.note? s = some (.warn r)) (hpath : path ∈ (pre.graph.search o s).paths)
    (hlen : 2 ≤ path.length) :
    (pre.context grouping).chain path (.warn r) ∈ (pre.context grouping).chainsOf order := by
  have hrecord : (pre.context grouping).chain path (.warn r) ∈
      (pre.context grouping).records (pre.findingOf o s) :=
    Collector.Context.mem_records_iff.2 ⟨path, hpath, hlen, .inl ⟨r, hnote, rfl⟩⟩
  obtain ⟨v, hv, -⟩ := CallGraph.mem_paths_search hpath
  have hfinding : pre.findingOf o s ∈ order :=
    horder.mem_iff.2 (mem_findings.2 ⟨s, hs, List.ne_nil_of_mem hv, rfl⟩)
  obtain ⟨d, hd, hkey⟩ := Collector.Context.exists_mem_chainsOf hfinding hrecord
  obtain ⟨f, hf, hdf⟩ := Collector.Context.exists_mem_records hd
  obtain ⟨t, ht, -, rfl⟩ := mem_findings.1 (horder.mem_iff.1 hf)
  obtain rfl : s = t := by
    by_contra hne
    exact CallGraph.apart_search _ hex (isHazard_of_mem_hazards hs) (isHazard_of_mem_hazards ht) hne
      _ hrecord _ hdf hkey.symm
  obtain ⟨path', -, -, ⟨r', hr', rfl⟩ | ⟨calls, hcalls, -⟩⟩ := Collector.Context.mem_records_iff.1 hdf
  · obtain rfl := Note.warn.inj (Option.some.inj (hr'.symm.trans hnote))
    obtain rfl : path' = path := congrArg Chain.Key.nodes hkey
    exact hd
  · cases hcalls.symm.trans hnote

/-! ### Whole runs -/

namespace Concurrent

variable {σ : Type} [Receiver σ]

/-- A watched receiver is handed the chains of a complete report, each of them once. -/
theorem Complete.chains_handed {receiver : σ} {report : Report} {consumer : Consumer (Watched σ)}
    (h : Complete pre o grouping ({ receiver } : Watched σ) report consumer) :
    ∃ order : List Finding, order.Perm (pre.findings o) ∧
      consumer.collector.receiver.chains.Perm ((pre.context grouping).chainsOf order) := by
  obtain ⟨order, col, horder, hcollect, rfl, -⟩ := h
  obtain ⟨-, -, -, hreceive⟩ := Collector.collect_cases hcollect
  refine ⟨order, horder, ?_⟩
  have hhanded : col.receiver.handed = (pre.context grouping).deliveries order :=
    Watched.handed_of_receiveAll hreceive
  change (chainsIn col.receiver.handed).Perm _
  rw [hhanded]
  exact (pre.context grouping).chains_deliveries order

end Concurrent

/-- **Reports are sound and complete.** Take any run that ends with a report. Every chain that its
receiver is handed shows a dangerous method of the program that is exposed by an entry. Conversely,
if the search has no cap and excludes interior hazards, and if some methods lead from a method with
a warning to an entry, then exactly one chain shows that, it is handed over once, and no such
methods are fewer than those it tells of. -/
theorem report_sound_complete {σ : Type} [Receiver σ] (p : Program) (rules : List Rule) (o : Options)
    (grouping : Grouping) (receiver : σ) (report : Report) (w : Watched σ)
    (h : Concurrent.Returns (prepare p rules).value o grouping { receiver } report w) :
    (∀ c ∈ w.chains, ∃ source entry, Shows p (prepare p rules).value o source entry c) ∧
    (o.maxDestinations = none → o.returnMultiple = true → o.excludeInteriorSources = true →
      ∀ source entry r, (prepare p rules).value.noteOf source = some (.warn r) →
        (∃ ids, Exposes p (prepare p rules).value o source entry ids) →
        ∃ c ids, Exposes p (prepare p rules).value o source entry ids ∧
          Tells (prepare p rules).value source ids c ∧
          (∀ ids', Exposes p (prepare p rules).value o source entry ids' →
            ids.length ≤ ids'.length) ∧
          w.chains.count c = 1 ∧
          ∀ c' ∈ w.chains, Shows p (prepare p rules).value o source entry c' → c' = c) := by
  have hpre := mirrors_prepare p rules
  generalize (prepare p rules).value = pre at *
  obtain ⟨n, cancelled, st, hreach, hmain, rfl⟩ := h.exists_reaches
  obtain ⟨order, horder, hchains⟩ := (Concurrent.complete_of_returned hreach hmain).chains_handed
  -- each chain comes from the search of some hazard
  have hfrom : ∀ c ∈ st.consumer.collector.receiver.chains, ∃ t ∈ pre.graph.hazards,
      c ∈ (pre.context grouping).records (pre.findingOf o t) := by
    intro c hc
    obtain ⟨f, hf, hcf⟩ := Collector.Context.exists_mem_records (hchains.mem_iff.1 hc)
    obtain ⟨t, ht, -, rfl⟩ := Prepared.mem_findings.1 (horder.mem_iff.1 hf)
    exact ⟨t, ht, hcf⟩
  refine ⟨fun c hc ↦ ?_, ?_⟩
  · obtain ⟨t, ht, hct⟩ := hfrom c hc
    exact hpre.shows_of_mem_records ht hct
  rintro hmax hmulti hex source entry r hnote ⟨ids, hexposes⟩
  obtain ⟨s, v, path, ids, hsource, hlast, hs, hpath, hpathTo, hids, hexposes, hleast⟩ :=
    hpre.exists_shortest (Search.Options.cap_eq_none hmax hmulti) hexposes
  have hlen : 2 ≤ path.length := length_eq_of_map_id? hids ▸ hexposes.two_le_length
  have hnote' := (Prepared.noteOf_eq hsource).symm.trans hnote
  -- the record of the shortest path is kept
  have hmem : (pre.context grouping).chain path (.warn r) ∈ (pre.context grouping).chainsOf order :=
    Prepared.chain_mem_chainsOf hex horder hs hnote' hpath hlen
  refine ⟨(pre.context grouping).chain path (.warn r), ids, hexposes, .warning hnote rfl hids, hleast,
    ?_, fun c' hc' hshows ↦ ?_⟩
  · rw [hchains.count_eq]
    exact List.count_eq_one_of_mem (Collector.Context.nodup_chainsOf _ _) hmem
  · obtain ⟨t, ht, hct⟩ := hfrom c' hc'
    obtain ⟨path', hpathTo', rfl⟩ :=
      hpre.eq_chain_of_shows hex hsource hlast hnote' ht hct hshows
    obtain rfl := Option.some.inj (hpathTo.symm.trans hpathTo')
    rfl

/-- An entry calls a method through a helper, and again by a reflective call that was resolved. The
method overrides one with a warning. -/
def indirect : Program where
  methods := [
    { id := "base", name := "Run", signature := "Run()", declaringType := "Plugin", isVirtual := true },
    { id := "impl", name := "Run", signature := "Run()", declaringType := "Widget" },
    { id := "help", name := "Help", signature := "Help()", declaringType := "App" },
    { id := "main", name := "Main", signature := "Main()", declaringType := "App", isPublic := true }]
  edges := [("main", "impl"), ("help", "impl"), ("main", "help")]
  overrides := [("base", "impl")]
  reflection := { recognized := [⟨"main", "impl"⟩] }

/-- A warning on the method that is overridden. -/
def onPlugins : List Rule :=
  [⟨"Plugin", ["Run"], .memberTrimming, "Trim", .warn "risky", "rules.json"⟩]

/-- The helper leads to the entry. The direct call was resolved and does not count. -/
theorem exposes_indirect :
    Exposes indirect (prepare indirect onPlugins).value { maxDestinations := none } "impl" "main"
      ["impl", "help", "main"] where
  head := rfl
  last := rfl
  two_le_length := by decide
  nodup := by decide
  leads := by
    simp only [List.isChain_cons_cons, List.isChain_singleton, Program.Leads]
    decide
  source_note := ⟨.warn ⟨"Trim", "risky", .memberTrimming⟩, by decide +kernel, .inl rfl⟩
  source_not_safe := by decide +kernel
  source_not_entry := by decide
  entry_isEntry := by decide
  entry_not_safe := by decide +kernel
  interior_not_entry := by decide
  interior_not_safe := by decide +kernel
  interior_not_hazard _ := by decide +kernel

/-- The inherited warning is reported once, by a chain of three methods or fewer. -/
theorem report_sound_complete_indirect :
    ∃ (report : Report) (w : Watched Transcript) (c : Chain) (ids : List String),
      ((prepare indirect onPlugins).value.run { maxDestinations := none } .caller false
        { receiver := {} }).value = (w, .ok report) ∧ w.chains.count c = 1 ∧
      Exposes indirect (prepare indirect onPlugins).value { maxDestinations := none } "impl" "main"
        ids ∧
      Tells (prepare indirect onPlugins).value "impl" ids c ∧ ids.length ≤ 3 := by
  obtain ⟨w, report, hrun⟩ := Concurrent.exists_run
    (Watched.reliable (σ := Transcript) ⟨fun _ _ ↦ rfl, fun _ ↦ rfl⟩)
    (prepare indirect onPlugins).value { maxDestinations := none } .caller { receiver := {} }
  obtain ⟨-, hcomplete⟩ := report_sound_complete indirect onPlugins { maxDestinations := none }
    .caller {} report w (.alone hrun)
  obtain ⟨c, ids, hexposes, htells, hleast, hcount, -⟩ := hcomplete rfl rfl rfl "impl" "main"
    ⟨"Trim", "risky", .memberTrimming⟩ (by decide +kernel) ⟨_, exposes_indirect⟩
  exact ⟨report, w, c, ids, hrun, hcount, hexposes, htells, hleast _ exposes_indirect⟩

end Analysis

end HazardTrace
