import Mathlib.Logic.Function.Basic
import Roster.Proofs.SortedMap
import Roster.Proofs.Spare
import Roster.Proofs.Ties
import Roster.WarmStart

/-! Other ids for the same people and groups. A renaming keeps different ids different, so
whatever is looked up by its new id is found in the place where it was, and the cliques are the
old ones with their members renamed. -/

namespace Roster

structure Renaming where
  person : String → String
  group : String → String
  person_injective : person.Injective
  group_injective : group.Injective

namespace Renaming

variable (r : Renaming)

@[simp] theorem person_inj {a b : String} : r.person a = r.person b ↔ a = b :=
  r.person_injective.eq_iff

@[simp] theorem group_inj {a b : String} : r.group a = r.group b ↔ a = b :=
  r.group_injective.eq_iff

end Renaming

def Person.renamed (r : Renaming) (person : Person) : Person :=
  { person with id := r.person person.id }

theorem Person.activeIn_renamed {r : Renaming} {person : Person} {session : Nat} :
    (person.renamed r).ActiveIn session ↔ person.ActiveIn session := .rfl

def Group.renamed (r : Renaming) (group : Group) : Group := { group with id := r.group group.id }

def Assignment.renamed (r : Renaming) (a : Assignment) : Assignment :=
  ⟨r.person a.person, r.group a.group, a.session⟩

/-- The ids in a rule are renamed, attribute keys and values are not. -/
def Rule.renamed (r : Renaming) : Rule → Rule
  | attributeBalance group key desired mode weight =>
    attributeBalance (r.group group) key desired mode weight
  | immovablePerson person group => immovablePerson (r.person person) (r.group group)
  | immovablePeople people group => immovablePeople (people.map r.person) (r.group group)
  | mustStayTogether people => mustStayTogether (people.map r.person)
  | shouldStayTogether people weight => shouldStayTogether (people.map r.person) weight
  | shouldNotBeTogether people weight => shouldNotBeTogether (people.map r.person) weight
  | pairMeetingCount first second target mode weight =>
    pairMeetingCount (r.person first) (r.person second) target mode weight

def Constraint.renamed (r : Renaming) : Constraint → Constraint
  | rule asked sessions => rule (asked.renamed r) sessions
  | c => c

def Problem.renamed (r : Renaming) (p : Problem) : Problem where
  people := p.people.map (·.renamed r)
  groups := p.groups.map (·.renamed r)
  sessionCount := p.sessionCount
  constraints := p.constraints.map (·.renamed r)

def SessionGroups.renamed (r : Renaming) (groups : SessionGroups) : SessionGroups :=
  .ofList (groups.entries.map fun e => (r.group e.1, e.2.map r.person))

def Schedule.renamed (r : Renaming) (s : Schedule) : Schedule :=
  ⟨s.sessions.mapValues (SessionGroups.renamed r)⟩

def Obstacle.renamed (r : Renaming) : Obstacle → Obstacle
  | unknownPerson person => unknownPerson (r.person person)
  | inactivePerson person group => inactivePerson (r.person person) (r.group group)
  | unknownGroup person group => unknownGroup (r.person person) (r.group group)
  | conflictingPlacement person first second =>
    conflictingPlacement (r.person person) (r.group first) (r.group second)
  | capacityExceeded person group capacity =>
    capacityExceeded (r.person person) (r.group group) capacity
  | cliqueConflict members first second =>
    cliqueConflict (members.map r.person) (r.group first) (r.group second)
  | cliqueInfeasible members => cliqueInfeasible (members.map r.person)
  | noCapacity person => noCapacity (r.person person)

def Impasse.renamed (r : Renaming) (i : Impasse) : Impasse := ⟨i.session, i.obstacle.renamed r⟩

theorem SessionGroups.get?_renamed_eq_some {r : Renaming} {groups : SessionGroups} {group : String}
    {people : List String} : (renamed r groups).get? group = some people ↔
      ∃ e ∈ groups.entries, r.group e.1 = group ∧ e.2.map r.person = people := by
  have distinct : ((groups.entries.map fun e => (r.group e.1, e.2.map r.person)).map
      Prod.fst).Nodup := by
    rw [List.map_map]
    exact (List.map_map ▸ groups.nodup_keys.map r.group_injective :)
  rw [renamed, SortedMap.get?_ofList_eq_some distinct, List.mem_map]
  simp only [Prod.mk.injEq]

theorem Schedule.peopleIn_renamed (r : Renaming) (s : Schedule) (session : Nat) (group : String) :
    (s.renamed r).peopleIn session (r.group group) =
      (s.peopleIn session group).map r.person := by
  have lookup : ∀ groups : SessionGroups, (SessionGroups.renamed r groups).get? (r.group group) =
      (groups.get? group).map (List.map r.person) := by
    intro groups
    ext people
    rw [SessionGroups.get?_renamed_eq_some, Option.map_eq_some_iff]
    simp only [r.group_inj, Prod.exists, SortedMap.mem_entries_iff]
    grind
  rw [peopleIn, peopleIn, SortedMap.listAt, SortedMap.listAt, renamed, SortedMap.get?_mapValues]
  cases s.sessions.get? session with
  | none => rfl
  | some groups =>
    rw [Option.map_some, Option.bind_some, Option.bind_some, lookup]
    cases groups.get? group <;> rfl

theorem earlierGroup?_renamed (r : Renaming) (previous : List Assignment) (session : Nat)
    (person : String) : earlierGroup? (previous.map (·.renamed r)) session (r.person person) =
      (earlierGroup? previous session person).map r.group := by
  simp [earlierGroup?, List.find?_map, Function.comp_def, Assignment.renamed]

namespace Constraint

variable (r : Renaming) (c : Constraint) (session : Nat)

theorem pins_renamed : (c.renamed r).pins session =
    (c.pins session).map fun e => (r.person e.1, r.group e.2) := by
  cases c with
  | rule asked sessions =>
    rw [renamed, pins, pins]
    change (if (rule asked sessions).AppliesTo session then (asked.renamed r).pins else []) = _
    split
    · cases asked <;> simp [Rule.renamed, Rule.pins]
    · rfl
  | _ => rfl

theorem together?_renamed :
    (c.renamed r).together? session = (c.together? session).map (List.map r.person) := by
  cases c with
  | rule asked sessions =>
    rw [renamed, together?, together?]
    change (if (rule asked sessions).AppliesTo session then (asked.renamed r).together?
      else none) = _
    split
    · cases asked <;> rfl
    · rfl
  | _ => rfl

end Constraint

theorem lastIndex?_map {f : String → String} (injective : f.Injective) (ids : List String)
    (id : String) : lastIndex? (ids.map f) (f id) = lastIndex? ids id := by
  simp [lastIndex?, ← List.map_reverse, List.findIdx?_map, Function.comp_def, injective.eq_iff]

theorem classes_map (f : String → String) (l : List (Nat × String)) :
    classes (l.map fun e => (e.1, f e.2)) = (classes l).map (List.map f) := by
  simp only [classes, List.map_map, List.filter_map, Function.comp_def]

namespace Problem

variable (r : Renaming) (p : Problem) (session : Nat)

theorem person?_renamed (id : String) :
    (p.renamed r).person? (r.person id) = (p.person? id).map (·.renamed r) := by
  rw [person?, renamed, List.find?_map, person?]
  congr 2
  funext person
  exact decide_eq_decide.2 r.person_inj

theorem groupIndex?_renamed (id : String) :
    (p.renamed r).groupIndex? (r.group id) = p.groupIndex? id := by
  simp [groupIndex?, renamed, List.findIdx?_map, Function.comp_def, Group.renamed]

theorem length_groups_renamed : (p.renamed r).groups.length = p.groups.length := List.length_map _

theorem groupSize_renamed (index : Nat) : (p.renamed r).groupSize index = p.groupSize index := by
  simp [groupSize, renamed, Function.comp_def, Group.renamed]

theorem groupId_renamed {index : Nat} (inside : index < p.groups.length) :
    (p.renamed r).groupId index = r.group (p.groupId index) := by
  simp [groupId, renamed, inside, Group.renamed]

theorem activeIds_renamed : (p.renamed r).activeIds session =
    (p.activeIds session).map r.person := by
  simp only [activeIds, renamed, List.filter_map, List.map_map]
  rfl

theorem pins_renamed : (p.renamed r).pins session =
    (p.pins session).map fun e => (r.person e.1, r.group e.2) := by
  simp only [pins, renamed, List.flatMap_map, List.map_flatMap, Constraint.pins_renamed]

theorem togetherLists_renamed :
    (p.renamed r).togetherLists session = (p.togetherLists session).map (List.map r.person) := by
  simp only [togetherLists_eq, renamed, List.filterMap_map, List.map_filterMap, Function.comp_def,
    Constraint.together?_renamed]

theorem joined_renamed (active : List String) :
    (p.renamed r).joined session (active.map r.person) = p.joined session active := by
  simp only [joined, togetherLists_renamed, List.foldl_map, List.filterMap_map, Function.comp_def,
    lastIndex?_map r.person_injective, List.length_map]

theorem labelled_renamed (active : List String) :
    (p.renamed r).labelled session (active.map r.person) =
      (p.labelled session active).map fun e => (e.1, r.person e.2) := by
  rw [labelled, labelled, joined_renamed, List.length_map, List.zip_map_right]
  rfl

theorem cliques_renamed (active : List String) :
    (p.renamed r).cliques session (active.map r.person) =
      (p.cliques session active).map (List.map r.person) := by
  rw [cliques, cliques, labelled_renamed, classes_map, List.filter_map]
  simp only [Function.comp_def, List.length_map]
  exact (List.map_mergeSort fun a _ b _ => by rw [List.length_map, List.length_map]).symm

end Problem

namespace Seating

variable (r : Renaming) (p : Problem) (s : Seating)

theorem spare_renamed (index : Nat) : s.spare (p.renamed r) index = s.spare p index := by
  rw [spare, spare, Problem.groupSize_renamed]

end Seating

end Roster
