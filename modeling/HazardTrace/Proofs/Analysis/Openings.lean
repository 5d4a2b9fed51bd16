import HazardTrace.Proofs.Analysis.Soundness

/-!
# How chains open

What a chain says about its dangerous method stands in front: nothing but the remark for a warning,
the called reflection method with the remark for an unresolved call. `Note.openings` lists these
openings for a note, each of them once. With interior hazards excluded, the chains of a report are
all openings of all hazards, each put in front of every path (`Prepared.mem_chainsOf_iff`). It rests
on the findings being apart, and within a finding on one path at a time
(`Context.pwFilter_recordsAlong`): of records with one key the first is kept, and so it is with the
openings.

So a report can be read without the paths, in both directions.

* A chain opens as the note of the method that it shows demands (`Mirrors.exists_opens`). Here it
  has to be seen that a chain can be read in one way only (`Mirrors.id?_of_shows`). Read in the
  wrong way, the methods would start one too early or too late, and then a hazard would stand inside
  a path.
* Whatever exposes a method is shown with every opening of its note (`Mirrors.exists_mem_chainsOf`),
  by way of the shortest path that the search finds.

Two analyses of one program are compared through openings. A chain of the one has its like in the
other, with the same note, the same dangerous method and the same entry (`Chain.Agrees`), if its
method keeps its note and is exposed by the same entry there (`Returns.exists_agrees`). The modules
on safe rules and on suppression are about when that is the case, and use nothing else of this one.

The statements about runs take `Returns`, which covers runs in one thread and any number of workers.
-/

namespace HazardTrace

open Search (Options)

/-- Filters by equivalent relations leave the same. -/
theorem pwFilter_congr {α : Type} {R S : α → α → Prop} [DecidableRel R] [DecidableRel S]
    (h : ∀ a b, R a b ↔ S a b) (l : List α) : l.pwFilter R = l.pwFilter S := by
  induction l with
  | nil => rfl
  | cons a l ih =>
    by_cases ha : ∀ b ∈ l.pwFilter R, R a b
    · have ha' : ∀ b ∈ l.pwFilter S, S a b := fun b hb ↦ (h a b).1 (ha b (ih ▸ hb))
      rw [List.pwFilter_cons_of_pos ha, List.pwFilter_cons_of_pos ha', ih]
    · have ha' : ¬ ∀ b ∈ l.pwFilter S, S a b :=
        fun hall ↦ ha fun b hb ↦ (h a b).2 (hall b (ih ▸ hb))
      rw [List.pwFilter_cons_of_neg ha, List.pwFilter_cons_of_neg ha', ih]

/-- Of unresolved calls that are shown alike, the first. -/
def distinctCalls (calls : List ReflectiveCall) : List ReflectiveCall :=
  calls.reverse.pwFilter fun call call' ↦ Collector.shown call ≠ Collector.shown call'

theorem mem_of_mem_distinctCalls {calls : List ReflectiveCall} {call : ReflectiveCall}
    (h : call ∈ distinctCalls calls) : call ∈ calls :=
  List.mem_reverse.1 (List.pwFilter_subset _ h)

/-- What stands in front of a path in the chains of a method with the given note: some methods, and
the remark. -/
def Note.openings : Note → List (List Nat × Remark)
  | .suppress _ => []
  | .warn r => [([], r)]
  | .unanalyzed calls => (distinctCalls calls).map fun call ↦ ([call.target], call.remark)

namespace Collector

variable {ctx : Context} {f : Finding} {a : Note} {c : Chain} {path : List Nat}

/-! ### The chains of one finding -/

/-- Along one path, the records of different keys are those of the openings. -/
theorem Context.pwFilter_recordsAlong (ctx : Context) (a : Note) (hlen : 2 ≤ path.length) :
    (ctx.recordsAlong a path).reverse.pwFilter Chain.Differs =
      a.openings.map fun q ↦ ctx.chain (q.1 ++ path) (.warn q.2) := by
  rw [recordsAlong_eq, if_neg (Nat.not_lt.2 hlen)]
  cases a with
  | suppress r => rfl
  | warn r => rfl
  | unanalyzed calls =>
    have hshown : ∀ call call' : ReflectiveCall,
        Chain.Differs (ctx.chain (call.target :: path) (.warn call.remark))
          (ctx.chain (call'.target :: path) (.warn call'.remark)) ↔ shown call ≠ shown call' := by
      intro call call'
      refine not_congr ⟨fun hkey ↦ ?_, fun heq ↦ ?_⟩
      · obtain ⟨hnodes, -, htext⟩ := Chain.Key.mk.inj hkey
        exact Prod.ext (List.cons.inj hnodes).1 htext
      · obtain ⟨htarget, htext⟩ := Prod.mk.inj heq
        change Chain.Key.mk _ _ _ = Chain.Key.mk _ _ _
        simp only [htarget, htext, Context.chain]
    rw [← List.map_reverse, List.pwFilter_map, pwFilter_congr hshown, Note.openings, List.map_map]
    rfl

/-- **The chains that a finding leaves**, when only its own records are known. -/
theorem Context.mem_pwFilter_records (hnote : ctx.marking.note? f.source = some a)
    (hnodup : f.paths.Nodup) :
    c ∈ (ctx.records f).reverse.pwFilter Chain.Differs ↔
      ∃ path ∈ f.paths, 2 ≤ path.length ∧
        ∃ q ∈ a.openings, c = ctx.chain (q.1 ++ path) (.warn q.2) := by
  have hapart : f.paths.reverse.Pairwise fun path path' ↦
      ∀ x ∈ (ctx.recordsAlong a path).reverse, ∀ y ∈ (ctx.recordsAlong a path').reverse,
        Chain.Differs x y := by
    refine (List.nodup_reverse.2 hnodup).imp fun hne x hx y hy ↦ ?_
    exact differs_of_mem_recordsAlong hne x (List.mem_reverse.1 hx) y (List.mem_reverse.1 hy)
  rw [records_eq_flatMap hnote, List.reverse_flatMap]
  change c ∈ (f.paths.reverse.flatMap fun path ↦ (ctx.recordsAlong a path).reverse).pwFilter _ ↔ _
  rw [pwFilter_flatMap hapart, List.mem_flatMap]
  refine exists_congr fun path ↦ ?_
  rw [List.mem_reverse]
  refine and_congr_right fun _ ↦ ?_
  by_cases hlen : 2 ≤ path.length
  · rw [ctx.pwFilter_recordsAlong a hlen, List.mem_map]
    simp only [hlen, true_and, eq_comm]
  · rw [recordsAlong_eq, if_pos (Nat.not_le.1 hlen)]
    simp [hlen]

end Collector

namespace Analysis

variable {p : Program} {pre : Prepared} {o : Options} {grouping : Grouping} {s : Nat}
  {source entry : String} {c : Chain} {ids : List String} {order : List Finding}
  {q : List Nat × Remark}

/-- **The chains of a report**, if interior hazards are excluded. -/
theorem Prepared.mem_chainsOf_iff (hex : o.excludeInteriorSources = true)
    (horder : order.Perm (pre.findings o)) :
    c ∈ (pre.context grouping).chainsOf order ↔
      ∃ s ∈ pre.graph.hazards, ∃ a, pre.marking.note? s = some a ∧
        ∃ path ∈ (pre.graph.search o s).paths, 2 ≤ path.length ∧
          ∃ q ∈ a.openings, c = (pre.context grouping).chain (q.1 ++ path) (.warn q.2) := by
  have happart : order.Pairwise (pre.context grouping).Apart :=
    horder.symm.pairwise (pre.pairwise_apart_findings _ hex) fun h ↦ h.symm
  rw [Collector.Context.chainsOf_eq_flatMap happart, List.mem_flatMap]
  constructor
  · rintro ⟨f, hf, hc⟩
    obtain ⟨s, hs, -, rfl⟩ := mem_findings.1 (horder.mem_iff.1 (List.mem_reverse.1 hf))
    cases hnote : pre.marking.note? s with
    | none =>
      rw [Collector.Context.records_eq_nil hnote] at hc
      cases hc
    | some a =>
      exact ⟨s, hs, a, hnote, (Collector.Context.mem_pwFilter_records hnote
        (CallGraph.nodup_paths_search ..)).1 hc⟩
  · rintro ⟨s, hs, a, hnote, path, hpath, hlong⟩
    obtain ⟨v, hv, -⟩ := CallGraph.mem_paths_search hpath
    have hfinding : pre.findingOf o s ∈ order :=
      horder.mem_iff.2 (mem_findings.2 ⟨s, hs, List.ne_nil_of_mem hv, rfl⟩)
    exact ⟨_, List.mem_reverse.2 hfinding, (Collector.Context.mem_pwFilter_records hnote
      (CallGraph.nodup_paths_search ..)).2 ⟨path, hpath, hlong⟩⟩

/-! ### Reading a report without the paths -/

/-- The chain opens with `q`, an opening for the note of the method `source`. -/
structure Opens (pre : Prepared) (source : String) (q : List Nat × Remark) (c : Chain) : Prop where
  opening : ∃ a, pre.noteOf source = some a ∧ q ∈ a.openings
  note : c.note = .warn q.2
  source? : ∃ s, pre.numbering.id? s = some source ∧ c.source? = (q.1 ++ [s]).head?

/-- Only the first method matters for how a chain begins. -/
theorem head?_append_of_head? {path : List Nat} (h : path.head? = some s) (front : List Nat) :
    (front ++ path).head? = (front ++ [s]).head? := by
  rw [List.head?_append, List.head?_append, h]
  rfl

namespace Mirrors

/-- A chain can be read in one way only: the methods it tells of start at the hazard that it was
found from. -/
theorem id?_of_shows (hpre : Mirrors p pre) (hex : o.excludeInteriorSources = true)
    (hs : s ∈ pre.graph.hazards) {path : List Nat} (hpath : path ∈ (pre.graph.search o s).paths)
    (hlen : 2 ≤ path.length) {a : Note} (hnote : pre.marking.note? s = some a)
    (hq : q ∈ a.openings) (hnodes : c.nodes = q.1 ++ path)
    (hshows : Shows p pre o source entry c) : pre.numbering.id? s = some source := by
  obtain ⟨ids, hexposes, htells⟩ := hshows
  have hhead := CallGraph.head?_of_mem_paths hpath
  cases a with
  | suppress r => cases hq
  | warn r =>
    obtain rfl := List.mem_singleton.1 hq
    rw [List.nil_append] at hnodes
    cases htells with
    | warning _ _ hids => exact id?_of_head? (hnodes ▸ hids) hhead hexposes.head
    | unresolved _ _ _ _ hids =>
      -- the methods start behind the hazard, so the path would lead through another one
      rw [hnodes] at hids
      match path, hlen with
      | a :: t :: rest, _ =>
        have hsource := id?_of_head? (u := t) hids rfl hexposes.head
        have htwo := hexposes.two_le_length
        rw [← length_eq_of_map_id? hids] at htwo
        match rest with
        | [] => exact absurd htwo (by simp)
        | b :: rest =>
          have hclear := CallGraph.isHazard_eq_false_of_mem_paths hex hpath
          rw [Prepared.isHazard_of_mem_hazards (hpre.mem_hazards hsource hexposes)] at hclear
          cases hclear
  | unanalyzed calls =>
    obtain ⟨call, -, rfl⟩ := List.mem_map.1 hq
    cases htells with
    | warning _ _ hids =>
      exact absurd hexposes (hpre.not_exposes_cons hex hs hpath hlen (hnodes ▸ hids))
    | unresolved _ _ _ _ hids =>
      rw [hnodes] at hids
      exact id?_of_head? hids hhead hexposes.head

/-- A chain of a report opens as the note of the method that it shows demands. -/
theorem exists_opens (hpre : Mirrors p pre) (hex : o.excludeInteriorSources = true)
    (horder : order.Perm (pre.findings o)) (hc : c ∈ (pre.context grouping).chainsOf order)
    (hshows : Shows p pre o source entry c) : ∃ q, Opens pre source q c := by
  obtain ⟨s, hs, a, hnote, path, hpath, hlen, q, hq, rfl⟩ :=
    (Prepared.mem_chainsOf_iff hex horder).1 hc
  have hsource := hpre.id?_of_shows hex hs hpath hlen hnote hq rfl hshows
  refine ⟨q, ⟨a, (Prepared.noteOf_eq hsource).trans hnote, hq⟩, rfl, s, hsource, ?_⟩
  exact head?_append_of_head? (CallGraph.head?_of_mem_paths hpath) q.1

/-- **What exposes a method is reported**, with every opening of its note. -/
theorem exists_mem_chainsOf (hpre : Mirrors p pre) (hcap : o.cap = none)
    (hex : o.excludeInteriorSources = true) (horder : order.Perm (pre.findings o))
    (hexposes : Exposes p pre o source entry ids) {a : Note} (hnote : pre.noteOf source = some a)
    (hq : q ∈ a.openings) (grouping : Grouping) :
    ∃ c ∈ (pre.context grouping).chainsOf order,
      Opens pre source q c ∧ Shows p pre o source entry c := by
  obtain ⟨s, v, path, ids, hsource, -, hs, hpath, -, hids, hexposes, -⟩ :=
    hpre.exists_shortest hcap hexposes
  have hlen : 2 ≤ path.length := length_eq_of_map_id? hids ▸ hexposes.two_le_length
  have hnote' := (Prepared.noteOf_eq hsource).symm.trans hnote
  refine ⟨(pre.context grouping).chain (q.1 ++ path) (.warn q.2), ?_, ?_, ids, hexposes, ?_⟩
  · exact (Prepared.mem_chainsOf_iff hex horder).2
      ⟨s, hs, a, hnote', path, hpath, hlen, q, hq, rfl⟩
  · exact ⟨⟨a, hnote, hq⟩, rfl, s, hsource,
      head?_append_of_head? (CallGraph.head?_of_mem_paths hpath) q.1⟩
  · cases a with
    | suppress r => cases hq
    | warn r =>
      obtain rfl := List.mem_singleton.1 hq
      exact .warning hnote rfl hids
    | unanalyzed calls =>
      obtain ⟨call, hcall, rfl⟩ := List.mem_map.1 hq
      exact .unresolved hnote (mem_of_mem_distinctCalls hcall) rfl rfl hids

end Mirrors

/-- The last method of a chain is the entry that it shows. -/
theorem Shows.entry? (h : Shows p pre o source entry c) :
    ∃ v, pre.numbering.id? v = some entry ∧ c.entry? = some v := by
  obtain ⟨ids, hexposes, htells⟩ := h
  have hend : ∀ {nodes : List Nat}, nodes.map pre.numbering.id? = ids.map some →
      ∃ v, pre.numbering.id? v = some entry ∧ nodes.getLast? = some v := by
    intro nodes hnodes
    have hlast := congrArg List.getLast? hnodes
    rw [List.getLast?_map, List.getLast?_map, hexposes.last] at hlast
    obtain ⟨v, hv, hid⟩ := Option.map_eq_some_iff.1 hlast
    exact ⟨v, hid, hv⟩
  cases htells with
  | warning _ _ hnodes => exact hend hnodes
  | unresolved _ _ _ _ hnodes =>
    obtain ⟨v, hid, hv⟩ := hend hnodes
    refine ⟨v, hid, ?_⟩
    rw [Chain.entry?]
    cases hc : c.nodes with
    | nil =>
      rw [hc] at hv
      cases hv
    | cons a rest =>
      rw [hc, List.tail_cons] at hv
      rw [List.getLast?_cons, hv]
      rfl

end Analysis

/-! ### Two reports -/

/-- Two chains give the same note, the same dangerous method and the same entry. -/
structure Chain.Agrees (c c' : Chain) : Prop where
  note : c.note = c'.note
  source? : c.source? = c'.source?
  entry? : c.entry? = c'.entry?

namespace Analysis.Concurrent.Returns

variable {σ : Type} [Receiver σ] {p : Program} {pre pre' : Prepared} {o : Options}
  {grouping : Grouping} {receiver receiver' : σ} {report report' : Report} {w w' : Watched σ}
  {source entry : String} {c : Chain} {ids : List String}

/-- A receiver is handed the chains of all findings, taken in some order. -/
theorem chains_handed (h : Returns pre o grouping { receiver } report w) :
    ∃ order : List Finding, order.Perm (pre.findings o) ∧
      w.chains.Perm ((pre.context grouping).chainsOf order) := by
  obtain ⟨n, cancelled, st, hreach, hmain, rfl⟩ := h.exists_reaches
  exact (complete_of_returned hreach hmain).chains_handed

/-- A chain that is handed over is a record of some hazard. -/
theorem exists_mem_records (h : Returns pre o grouping { receiver } report w) (hc : c ∈ w.chains) :
    ∃ s ∈ pre.graph.hazards, (pre.graph.search o s).destinations ≠ [] ∧
      c ∈ (pre.context grouping).records (pre.findingOf o s) := by
  obtain ⟨order, horder, hchains⟩ := h.chains_handed
  obtain ⟨f, hf, hcf⟩ := Collector.Context.exists_mem_records (hchains.mem_iff.1 hc)
  obtain ⟨s, hs, hne, rfl⟩ := Prepared.mem_findings.1 (horder.mem_iff.1 hf)
  exact ⟨s, hs, hne, hcf⟩

/-- Every chain that is handed over shows something. -/
theorem exists_shows (h : Returns pre o grouping { receiver } report w) (hpre : Mirrors p pre)
    (hc : c ∈ w.chains) : ∃ source entry, Shows p pre o source entry c := by
  obtain ⟨s, hs, -, hcs⟩ := h.exists_mem_records hc
  exact hpre.shows_of_mem_records hs hcs

/-- Whatever exposes a method is handed over, with every opening of its note. -/
theorem exists_chain (h : Returns pre o grouping { receiver } report w) (hpre : Mirrors p pre)
    (hcap : o.cap = none) (hex : o.excludeInteriorSources = true)
    (hexposes : Exposes p pre o source entry ids) {a : Note} (hnote : pre.noteOf source = some a)
    {q : List Nat × Remark} (hq : q ∈ a.openings) :
    ∃ c ∈ w.chains, Opens pre source q c ∧ Shows p pre o source entry c := by
  obtain ⟨order, horder, hchains⟩ := h.chains_handed
  obtain ⟨c, hc, hopens, hshows⟩ :=
    hpre.exists_mem_chainsOf hcap hex horder hexposes hnote hq grouping
  exact ⟨c, hchains.mem_iff.2 hc, hopens, hshows⟩

/-- **A chain has its like in another report** on the same program, if the method that it shows has
the same note there and is exposed by the same entry. -/
theorem exists_agrees (h : Returns pre o grouping { receiver } report w) (hpre : Mirrors p pre)
    (h' : Returns pre' o grouping { receiver := receiver' } report' w') (hpre' : Mirrors p pre')
    (hnumbering : pre'.numbering = pre.numbering) (hcap : o.cap = none)
    (hex : o.excludeInteriorSources = true) (hc : c ∈ w.chains)
    (hshows : Shows p pre o source entry c) (hnote : pre'.noteOf source = pre.noteOf source)
    (hexposes : Exposes p pre' o source entry ids) :
    ∃ c' ∈ w'.chains, c'.Agrees c ∧ Shows p pre' o source entry c' := by
  obtain ⟨order, horder, hchains⟩ := h.chains_handed
  obtain ⟨q, ⟨a, ha, hq⟩, hwarn, s, hs, hsource⟩ :=
    hpre.exists_opens hex horder (hchains.mem_iff.1 hc) hshows
  obtain ⟨c', hc', ⟨-, hwarn', s', hs', hsource'⟩, hshows'⟩ :=
    h'.exists_chain hpre' hcap hex hexposes (hnote.trans ha) hq
  obtain ⟨v, hv, hentry⟩ := hshows.entry?
  obtain ⟨v', hv', hentry'⟩ := hshows'.entry?
  rw [hnumbering] at hs' hv'
  obtain rfl := Numbering.eq_of_id? hs hs'
  obtain rfl := Numbering.eq_of_id? hv hv'
  exact ⟨c', hc', ⟨hwarn'.trans hwarn.symm, hsource'.trans hsource.symm,
    hentry'.trans hentry.symm⟩, hshows'⟩

end Analysis.Concurrent.Returns

/-- A transcript takes whatever it is handed, so there is a report on every analysis. -/
theorem Analysis.Concurrent.exists_run_transcript (pre : Prepared) (o : Options)
    (grouping : Grouping) :
    ∃ (w : Watched Transcript) (report : Report),
      (pre.run o grouping false ({ receiver := {} } : Watched Transcript)).value =
        (w, .ok report) := by
  have htranscript : Receiver.Reliable Transcript := ⟨fun _ _ ↦ rfl, fun _ ↦ rfl⟩
  exact exists_run (Watched.reliable htranscript) pre o grouping _

end HazardTrace
