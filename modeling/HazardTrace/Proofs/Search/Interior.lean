import HazardTrace.Proofs.Search.Exactness

/-!
# Interior hazards

A search that excludes interior hazards stops where a search without exclusion goes on. Nothing is
lost by that, as long as every hazard is searched from: a walk through hazards is cut at the last of
them, and what is left leads from that hazard through no other (`AdmissibleWalk.exists_excluding`).
The hazard was walked through, so it is neither safe nor an entry, and its own search sets out along
the rest of the walk.

Cutting at the last hazard is done by cutting at any, again and again: from a method in between, the
rest of a walk is a shorter walk (`AdmissibleWalk.of_mem_interior`), and the induction is on its
length.

The rest is what is known of searches without a cap. They are exact, so finding a destination is the
same as having an admissible walk to it, and walks are compared instead of searches.

* `destinations_uncapped_subset`: from each start, what is found under exclusion is found without
  it, since a walk that is admissible under exclusion is admissible (`AdmissibleWalk.of_imp`).
* `exists_mem_destinations_excluding`: what is found from a hazard without exclusion is found under
  exclusion from that hazard, or from one in between.

`exclusion_loses_no_destination` states both: all hazards together find the same entries either way.
-/

namespace HazardTrace

/-- The options of a search that collects every destination. -/
def Search.Options.uncapped (excludeInteriorSources : Bool) : Search.Options where
  maxDestinations := none
  returnMultiple := true
  excludeInteriorSources

namespace CallGraph

open Search

variable {g : CallGraph} {o o' : Options} {s v w : Nat} {walk : List Nat}

/-- A number outside the graph is no hazard. -/
theorem lt_size_of_isHazard (h : g.isHazard s = true) : s < g.size := by
  by_contra hs
  rw [isHazard, node, Array.getElem?_eq_none (Nat.not_lt.1 hs)] at h
  cases h

theorem mem_hazards_iff : s ∈ g.hazards ↔ g.isHazard s = true := by
  rw [hazards, List.mem_filter, List.mem_range]
  exact ⟨And.right, fun h ↦ ⟨lt_size_of_isHazard h, h⟩⟩

/-- What may be walked through under exclusion may be walked through without it. -/
theorem IsInterior.of_imp (h : g.IsInterior o w)
    (ho : o'.excludeInteriorSources = true → o.excludeInteriorSources = true) :
    g.IsInterior o' w :=
  ⟨h.not_safe, h.not_entry, h.not_virtual, fun hex ↦ h.not_hazard (ho hex)⟩

namespace AdmissibleWalk

theorem of_imp (h : g.AdmissibleWalk o s v walk)
    (ho : o'.excludeInteriorSources = true → o.excludeInteriorSources = true) :
    g.AdmissibleWalk o' s v walk :=
  ⟨h.head, h.last, h.follows, h.start_not_safe, fun w hw ↦ (h.interior w hw).of_imp ho⟩

/-- From a method in between, the rest of a walk is a walk. -/
theorem of_mem_interior (h : g.AdmissibleWalk o s v walk) (hw : w ∈ walk.tail.dropLast) :
    ∃ rest, g.AdmissibleWalk o w v rest ∧ rest.length < walk.length := by
  obtain ⟨a, tail, rfl⟩ := List.exists_cons_of_ne_nil h.ne_nil
  rw [List.tail_cons] at hw
  have htail : tail ≠ [] := by
    rintro rfl
    cases hw
  have hlast : tail.getLast? = some v := by
    rw [← h.last, List.getLast?_cons_of_ne_nil htail]
  obtain ⟨before, behind, hsplit⟩ := List.append_of_mem hw
  have hwalk : a :: tail = (a :: before) ++ (w :: (behind ++ [v])) := by
    rw [← List.dropLast_append_getLast? v hlast, hsplit]
    simp
  refine ⟨w :: (behind ++ [v]),
    ⟨rfl, ?_, ?_, fun _ ↦ (h.interior w hw).not_safe, fun x hx ↦ ?_⟩, ?_⟩
  · rw [← List.cons_append, List.getLast?_concat]
  · have hfollows := h.follows
    rw [hwalk] at hfollows
    exact (List.isChain_append.1 hfollows).2.1
  · rw [List.tail_cons, List.dropLast_concat] at hx
    refine h.interior x ?_
    rw [List.tail_cons, hsplit]
    exact List.mem_append_right _ (List.mem_cons_of_mem _ hx)
  · rw [hwalk]
    simp only [List.length_append, List.length_cons]
    omega

/-- **Behind its last hazard, a walk leads through none.** -/
theorem exists_excluding (h : g.AdmissibleWalk o s v walk) (hs : g.isHazard s = true)
    (o' : Options) :
    ∃ t rest, g.isHazard t = true ∧ (t = s ∨ g.IsInterior o t) ∧ g.AdmissibleWalk o' t v rest := by
  -- as long as there is a hazard in between, the walk is cut there and gets shorter
  induction hn : walk.length using Nat.strong_induction_on generalizing s walk with
  | _ n ih =>
    by_cases hclear : ∀ w ∈ walk.tail.dropLast, g.isHazard w = false
    · refine ⟨s, walk, hs, .inl rfl, h.head, h.last, h.follows, h.start_not_safe, fun w hw ↦ ?_⟩
      have hw' := h.interior w hw
      exact ⟨hw'.not_safe, hw'.not_entry, hw'.not_virtual, fun _ ↦ hclear w hw⟩
    · obtain ⟨w, hw, hhazard⟩ : ∃ w ∈ walk.tail.dropLast, g.isHazard w = true := by
        simpa using hclear
      obtain ⟨rest, hrest, hlen⟩ := h.of_mem_interior hw
      obtain ⟨t, rest', ht, hint, hrest'⟩ := ih _ (hn ▸ hlen) hrest hhazard rfl
      refine ⟨t, rest', ht, .inr ?_, hrest'⟩
      rcases hint with rfl | hint
      · exact h.interior t hw
      · exact hint

end AdmissibleWalk

/-- A search without exclusion finds what a search under exclusion finds. -/
theorem destinations_uncapped_subset (g : CallGraph) (s : Nat) :
    (g.search (.uncapped true) s).destinations ⊆ (g.search (.uncapped false) s).destinations := by
  intro v hv
  obtain ⟨-, heq⟩ | ⟨-, -, heq⟩ | ⟨hs, hentry, -⟩ := g.search_cases s
  · rw [heq] at hv
    cases hv
  · rw [heq] at hv ⊢
    exact hv
  · obtain ⟨hne, hdest⟩ := isDestination_of_mem_destinations hentry hv
    obtain ⟨d, hd⟩ := exists_distance?_of_mem_destinations hv
    obtain ⟨path, -, hwalk, -⟩ := pathTo_search hd
    exact mem_destinations_of_walk rfl hs hentry hne hdest (hwalk.of_imp fun _ ↦ rfl)

/-- What is found from a hazard without exclusion is found under exclusion from that hazard, or from
one that lies in between. -/
theorem exists_mem_destinations_excluding (hs : g.isHazard s = true)
    (hv : v ∈ (g.search (.uncapped false) s).destinations) :
    ∃ t, g.isHazard t = true ∧ v ∈ (g.search (.uncapped true) t).destinations := by
  cases hentry : g.isEntry s with
  | true =>
    refine ⟨s, hs, ?_⟩
    rw [search_of_isEntry (lt_size_of_isHazard hs) hentry] at hv ⊢
    exact hv
  | false =>
    obtain ⟨-, hdest⟩ := isDestination_of_mem_destinations hentry hv
    obtain ⟨d, hd⟩ := exists_distance?_of_mem_destinations hv
    obtain ⟨path, -, hwalk, -⟩ := pathTo_search hd
    obtain ⟨t, rest, ht, hint, hrest⟩ := hwalk.exists_excluding hs (.uncapped true)
    have htentry : g.isEntry t = false := by
      rcases hint with rfl | hint
      · exact hentry
      · exact hint.not_entry
    have hne : v ≠ t := by
      rintro rfl
      cases htentry.symm.trans hdest.isEntry
    exact ⟨t, ht, mem_destinations_of_walk rfl (lt_size_of_isHazard ht) htentry hne hdest hrest⟩

/-- **Excluding interior hazards loses no entry.** From each start, what is found under exclusion is
found without it. All hazards together find the same entries either way. -/
theorem exclusion_loses_no_destination (g : CallGraph) :
    {v | ∃ s ∈ g.hazards, v ∈ (g.search (.uncapped true) s).destinations} =
        {v | ∃ s ∈ g.hazards, v ∈ (g.search (.uncapped false) s).destinations} ∧
      ∀ s, (g.search (.uncapped true) s).destinations ⊆
        (g.search (.uncapped false) s).destinations := by
  refine ⟨Set.ext fun v ↦ ⟨?_, ?_⟩, g.destinations_uncapped_subset⟩
  · rintro ⟨s, hs, hv⟩
    exact ⟨s, hs, g.destinations_uncapped_subset s hv⟩
  · rintro ⟨s, hs, hv⟩
    obtain ⟨t, ht, hvt⟩ := exists_mem_destinations_excluding (mem_hazards_iff.1 hs) hv
    exact ⟨t, mem_hazards_iff.2 ht, hvt⟩

end CallGraph

end HazardTrace
