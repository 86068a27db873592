import Roster.Proofs.Defects
import Roster.Proofs.InOrder

/-! What is reported of a problem. Each place where something is wrong is said without the report:
which person or group is declared again, which name has no declaration, which session there is not.
The report has one entry for each of these places and for nothing else, in their order, so it is
empty for well-formed problems only. -/

namespace Roster

inductive Part
  | people
  | groups
  | constraints
  | assignments
  deriving DecidableEq

def Part.rank : Part → Nat
  | people => 0
  | groups => 1
  | constraints => 2
  | assignments => 3

def DefectKind.rank : DefectKind → Nat
  | duplicateId => 0
  | emptyGroup => 1
  | invalidPersonReference => 2
  | invalidGroupReference => 3
  | sessionOutOfRange => 4
  | malformedConstraint => 5
  | duplicateAssignment => 6

/-- A place where something is wrong: an entry of some part, what is wrong with it, and where in a
list it holds, if it is about one. -/
structure Spot where
  part : Part
  index : Nat
  kind : DefectKind
  position : Nat
  deriving DecidableEq

namespace Spot

/-- By part, within it by entry, then by kind and by position. -/
def Before (a b : Spot) : Prop :=
  [a.part.rank, a.index, a.kind.rank, a.position] < [b.part.rank, b.index, b.kind.rank, b.position]

instance (a b : Spot) : Decidable (a.Before b) :=
  inferInstanceAs (Decidable (([_, _, _, _] : List Nat) < [_, _, _, _]))

variable {a b : Spot}

theorem before_of_part (part : a.part.rank < b.part.rank) : a.Before b :=
  List.cons_lt_cons_iff.2 (.inl part)

theorem before_of_index (part : a.part = b.part) (index : a.index < b.index) : a.Before b := by
  rw [Before, part]
  exact List.cons_lt_cons_iff.2 (.inr ⟨rfl, List.cons_lt_cons_iff.2 (.inl index)⟩)

theorem before_of_kind {part : Part} {index : Nat} {kind kind' : DefectKind} {m n : Nat}
    (earlier : kind.rank < kind'.rank) : Before ⟨part, index, kind, m⟩ ⟨part, index, kind', n⟩ := by
  simp [Before, List.cons_lt_cons_iff, earlier]

theorem before_of_position (part : Part) (index : Nat) (kind : DefectKind) (m n : Nat)
    (earlier : m < n) : Before ⟨part, index, kind, m⟩ ⟨part, index, kind, n⟩ := by
  simp [Before, List.cons_lt_cons_iff, earlier]

end Spot

namespace Constraint

inductive NamesPerson : Constraint → Nat → String → Prop
  | pinned {person group : String} {sessions : Option (List Nat)} :
    NamesPerson (.rule (.immovablePerson person group) sessions) 0 person
  | pinnedTogether {people : List String} {group : String} {sessions : Option (List Nat)} {n : Nat}
    {id : String} (listed : people[n]? = some id) :
    NamesPerson (.rule (.immovablePeople people group) sessions) n id
  | mustStay {people : List String} {sessions : Option (List Nat)} {n : Nat} {id : String}
    (listed : people[n]? = some id) : NamesPerson (.rule (.mustStayTogether people) sessions) n id
  | shouldStay {people : List String} {weight : Binary64} {sessions : Option (List Nat)} {n : Nat}
    {id : String} (listed : people[n]? = some id) :
    NamesPerson (.rule (.shouldStayTogether people weight) sessions) n id
  | apart {people : List String} {weight : Binary64} {sessions : Option (List Nat)} {n : Nat}
    {id : String} (listed : people[n]? = some id) :
    NamesPerson (.rule (.shouldNotBeTogether people weight) sessions) n id
  | first {a b : String} {target : Nat} {mode : MeetingMode} {weight : Binary64}
    {sessions : Option (List Nat)} :
    NamesPerson (.rule (.pairMeetingCount a b target mode weight) sessions) 0 a
  | second {a b : String} {target : Nat} {mode : MeetingMode} {weight : Binary64}
    {sessions : Option (List Nat)} :
    NamesPerson (.rule (.pairMeetingCount a b target mode weight) sessions) 1 b

inductive NamesGroup : Constraint → String → Prop
  | balanced {group key : String} {desired : Headcounts} {mode : BalanceMode} {weight : Binary64}
    {sessions : Option (List Nat)} :
    NamesGroup (.rule (.attributeBalance group key desired mode weight) sessions) group
  | pinned {person group : String} {sessions : Option (List Nat)} :
    NamesGroup (.rule (.immovablePerson person group) sessions) group
  | pinnedTogether {people : List String} {group : String} {sessions : Option (List Nat)} :
    NamesGroup (.rule (.immovablePeople people group) sessions) group

variable {c : Constraint} {n : Nat} {id : String}

theorem namesPerson_iff : c.NamesPerson n id ↔ c.people[n]? = some id := by
  constructor
  · intro named
    cases named with
    | pinned | first | second => rfl
    | pinnedTogether listed => exact listed
    | mustStay listed => exact listed
    | shouldStay listed => exact listed
    | apart listed => exact listed
  · intro listed
    cases c with
    | repeatEncounter => simp [people] at listed
    | unknown => simp [people] at listed
    | rule r sessions =>
      cases r with
      | attributeBalance => simp [people, Rule.people] at listed
      | immovablePerson person group =>
        obtain ⟨rfl, rfl⟩ : n = 0 ∧ person = id := by
          simpa [people, Rule.people, List.getElem?_singleton] using listed
        exact .pinned
      | immovablePeople => exact .pinnedTogether listed
      | mustStayTogether => exact .mustStay listed
      | shouldStayTogether => exact .shouldStay listed
      | shouldNotBeTogether => exact .apart listed
      | pairMeetingCount a b =>
        obtain _ | _ | n := n
        · obtain rfl : a = id := by simpa [people, Rule.people] using listed
          exact .first
        · obtain rfl : b = id := by simpa [people, Rule.people] using listed
          exact .second
        · simp [people, Rule.people] at listed

theorem namesGroup_iff : c.NamesGroup id ↔ c.group? = some id := by
  constructor
  · intro named
    cases named <;> rfl
  · intro named
    cases c with
    | repeatEncounter => simp [group?] at named
    | unknown => simp [group?] at named
    | rule r sessions =>
      cases r <;> simp only [group?, Rule.group?, Option.some.injEq, reduceCtorEq] at named <;>
        subst named
      · exact .balanced
      · exact .pinned
      · exact .pinnedTogether

end Constraint

namespace Problem

inductive SlipAt (p : Problem) : Constraint → DefectKind → Nat → Slip → Prop
  | person {c : Constraint} {n : Nat} {id : String} (named : c.NamesPerson n id)
    (unknown : ∀ person ∈ p.people, person.id ≠ id) :
    SlipAt p c .invalidPersonReference n (.person id)
  | group {c : Constraint} {id : String} (named : c.NamesGroup id)
    (unknown : ∀ group ∈ p.groups, group.id ≠ id) :
    SlipAt p c .invalidGroupReference 0 (.group id)
  | session {r : Rule} {listed : List Nat} {n t : Nat} (lists : listed[n]? = some t)
    (beyond : p.sessionCount ≤ t) :
    SlipAt p (.rule r (some listed)) .sessionOutOfRange n (.session t p.sessionCount)
  | selfPair {id : String} {target : Nat} {mode : MeetingMode} {weight : Binary64}
    {sessions : Option (List Nat)} :
    SlipAt p (.rule (.pairMeetingCount id id target mode weight) sessions) .malformedConstraint 0
      (.selfPair id)

inductive PersonDefect (p : Problem) (i : Nat) (person : Person) : Spot → Defect → Prop
  | repeated (earlier : ∃ other ∈ p.people.take i, other.id = person.id) :
    PersonDefect p i person ⟨.people, i, .duplicateId, 0⟩ (.repeatedPerson person.id)
  | session {listed : SessionSet} {n t : Nat} (attends : person.sessions = some listed)
    (lists : listed.toList[n]? = some t) (beyond : p.sessionCount ≤ t) :
    PersonDefect p i person ⟨.people, i, .sessionOutOfRange, n⟩
      (.personSession person.id t p.sessionCount)

inductive GroupDefect (p : Problem) (i : Nat) (group : Group) : Spot → Defect → Prop
  | repeated (earlier : ∃ other ∈ p.groups.take i, other.id = group.id) :
    GroupDefect p i group ⟨.groups, i, .duplicateId, 0⟩ (.repeatedGroup group.id)
  | empty (noSeats : group.size = 0) :
    GroupDefect p i group ⟨.groups, i, .emptyGroup, 0⟩ (.emptyGroup group.id)

inductive ConstraintDefect (p : Problem) (i : Nat) (c : Constraint) : Spot → Defect → Prop
  | slip {kind : DefectKind} {n : Nat} {slip : Slip} (wrong : p.SlipAt c kind n slip) :
    ConstraintDefect p i c ⟨.constraints, i, kind, n⟩ (.constraint i c.kind slip)

/-- Something wrong with a problem, and where. -/
inductive DefectAt (p : Problem) (spot : Spot) (d : Defect) : Prop
  | person {i : Nat} {person : Person} (here : p.people[i]? = some person)
    (wrong : p.PersonDefect i person spot d)
  | group {i : Nat} {group : Group} (here : p.groups[i]? = some group)
    (wrong : p.GroupDefect i group spot d)
  | constraint {i : Nat} {c : Constraint} (here : p.constraints[i]? = some c)
    (wrong : p.ConstraintDefect i c spot d)

variable {p : Problem}

theorem SlipAt.kind_eq {c : Constraint} {kind : DefectKind} {n : Nat} {slip : Slip}
    (h : p.SlipAt c kind n slip) : slip.kind = kind := by
  cases h <;> rfl

theorem DefectAt.kind_eq {spot : Spot} {d : Defect} (h : p.DefectAt spot d) :
    d.kind = spot.kind := by
  cases h with
  | person _ wrong => cases wrong <;> rfl
  | group _ wrong => cases wrong <;> rfl
  | constraint _ wrong =>
    cases wrong with
    | slip wrong => exact wrong.kind_eq

theorem not_declaresPerson_iff {id : String} :
    (!p.declaresPerson id) ↔ ∀ person ∈ p.people, person.id ≠ id := by
  simp [declaresPerson]

theorem not_declaresGroup_iff {id : String} :
    (!p.declaresGroup id) ↔ ∀ group ∈ p.groups, group.id ≠ id := by
  simp [declaresGroup]

def SlipOf (p : Problem) (i : Nat) (c : Constraint) (kind : DefectKind) (spot : Spot)
    (slip : Slip) : Prop :=
  ∃ n, spot = ⟨.constraints, i, kind, n⟩ ∧ p.SlipAt c kind n slip

theorem SlipOf.before {i : Nat} {c : Constraint} {kind kind' : DefectKind} {spot spot' : Spot}
    {slip slip' : Slip} (earlier : kind.rank < kind'.rank) (first : p.SlipOf i c kind spot slip)
    (second : p.SlipOf i c kind' spot' slip') : spot.Before spot' := by
  obtain ⟨_, rfl, -⟩ := first
  obtain ⟨_, rfl, -⟩ := second
  exact Spot.before_of_kind earlier

section Slips

variable (p) (i : Nat) (c : Constraint)

theorem people_reportsInOrder :
    ReportsInOrder Spot.Before (p.SlipOf i c .invalidPersonReference)
      ((c.people.filter (!p.declaresPerson ·)).map .person) := by
  refine (ReportsInOrder.filter_map _ _ _ (Spot.before_of_position .constraints i
    .invalidPersonReference)).congr fun spot slip => ⟨?_, ?_⟩
  · intro h
    obtain ⟨n, id, named, rfl, unknown, rfl⟩ := h
    exact ⟨n, rfl, .person (Constraint.namesPerson_iff.2 named) (not_declaresPerson_iff.1 unknown)⟩
  · intro h
    obtain ⟨n, rfl, wrong⟩ := h
    cases wrong with
    | person named unknown =>
      exact ⟨n, _, Constraint.namesPerson_iff.1 named, rfl, not_declaresPerson_iff.2 unknown, rfl⟩

theorem group_reportsInOrder :
    ReportsInOrder Spot.Before (p.SlipOf i c .invalidGroupReference)
      ((c.group?.toList.filter (!p.declaresGroup ·)).map .group) := by
  refine (ReportsInOrder.filter_map _ _ _ (Spot.before_of_position .constraints i
    .invalidGroupReference)).congr fun spot slip => ⟨?_, ?_⟩
  · intro h
    obtain ⟨n, id, named, rfl, unknown, rfl⟩ := h
    cases found : c.group? with
    | none => simp [found] at named
    | some group =>
      obtain ⟨rfl, rfl⟩ : n = 0 ∧ group = id := by
        simpa [found, List.getElem?_singleton] using named
      exact ⟨0, rfl, .group (Constraint.namesGroup_iff.2 found) (not_declaresGroup_iff.1 unknown)⟩
  · intro h
    obtain ⟨n, rfl, wrong⟩ := h
    cases wrong with
    | group named unknown =>
      refine ⟨0, _, ?_, rfl, not_declaresGroup_iff.2 unknown, rfl⟩
      rw [Constraint.namesGroup_iff.1 named]
      rfl

theorem sessions_reportsInOrder :
    ReportsInOrder Spot.Before (p.SlipOf i c .sessionOutOfRange)
      (((c.sessions?.getD []).filter (p.sessionCount ≤ ·)).map (.session · p.sessionCount)) := by
  refine (ReportsInOrder.filter_map _ _ _ (Spot.before_of_position .constraints i
    .sessionOutOfRange)).congr fun spot slip => ⟨?_, ?_⟩
  · intro h
    obtain ⟨n, t, lists, rfl, beyond, rfl⟩ := h
    cases c with
    | repeatEncounter => simp [Constraint.sessions?] at lists
    | unknown => simp [Constraint.sessions?] at lists
    | rule r sessions =>
      cases sessions with
      | none => simp [Constraint.sessions?] at lists
      | some listed => exact ⟨n, rfl, .session lists (of_decide_eq_true beyond)⟩
  · intro h
    obtain ⟨n, rfl, wrong⟩ := h
    cases wrong with
    | session lists beyond => exact ⟨n, _, lists, rfl, decide_eq_true beyond, rfl⟩

theorem selfPair_reportsInOrder :
    ReportsInOrder Spot.Before (p.SlipOf i c .malformedConstraint)
      (match c with
        | .rule (.pairMeetingCount first second _ _ _) _ =>
          if first = second then [.selfPair first] else []
        | _ => []) := by
  split
  · rename_i first second target mode weight sessions
    refine (ReportsInOrder.ite (first = second) ⟨.constraints, i, .malformedConstraint, 0⟩
      (Slip.selfPair first)).congr fun spot slip => ⟨?_, ?_⟩
    · intro h
      obtain ⟨rfl, rfl, rfl⟩ := h
      exact ⟨0, rfl, .selfPair⟩
    · intro h
      obtain ⟨n, rfl, wrong⟩ := h
      cases wrong with
      | selfPair => exact ⟨rfl, rfl, rfl⟩
  · rename_i other
    refine ReportsInOrder.nil.congr fun spot slip => iff_of_false id fun h => ?_
    obtain ⟨n, rfl, wrong⟩ := h
    cases wrong with
    | selfPair => exact other _ _ _ _ _ _ rfl

theorem slips_reportsInOrder :
    ReportsInOrder Spot.Before (fun spot slip => ∃ kind, p.SlipOf i c kind spot slip)
      (p.slips c) := by
  refine ((((p.people_reportsInOrder i c).append (p.group_reportsInOrder i c) ?_).append
    (p.sessions_reportsInOrder i c) ?_).append (p.selfPair_reportsInOrder i c) ?_).congr
      fun spot slip => ⟨?_, ?_⟩
  · exact fun _ _ _ _ => SlipOf.before (by decide)
  · intro _ _ _ _ first
    exact first.elim (SlipOf.before (by decide)) (SlipOf.before (by decide))
  · intro _ _ _ _ first
    obtain (first | first) | first := first <;> exact SlipOf.before (by decide) first
  · intro found
    obtain ((wrong | wrong) | wrong) | wrong := found <;> exact ⟨_, wrong⟩
  · intro found
    obtain ⟨kind, n, rfl, wrong⟩ := found
    cases wrong with
    | person named unknown => exact .inl (.inl (.inl ⟨n, rfl, .person named unknown⟩))
    | group named unknown => exact .inl (.inl (.inr ⟨0, rfl, .group named unknown⟩))
    | session lists beyond => exact .inl (.inr ⟨n, rfl, .session lists beyond⟩)
    | selfPair => exact .inr ⟨0, rfl, .selfPair⟩

end Slips

theorem nodup_map_iff_take {α β : Type} {l : List α} {f : α → β} : (l.map f).Nodup ↔
    ∀ i a, l[i]? = some a → ∀ b ∈ l.take i, f b ≠ f a := by
  rw [List.Nodup, List.pairwise_map, List.pairwise_iff_getElem]
  constructor
  · intro distinct i a here b before
    obtain ⟨inside, rfl⟩ := List.getElem?_eq_some_iff.1 here
    obtain ⟨j, earlier, rfl⟩ := List.mem_take_iff_getElem.1 before
    exact distinct j i (by omega) inside (by omega)
  · intro fresh i j hi hj earlier
    refine fresh j _ (List.getElem?_eq_getElem hj) _ (List.mem_take_iff_getElem.2 ?_)
    exact ⟨i, by omega, rfl⟩

theorem ofPeople_eq (count : Nat) (l : List Person) : Defect.ofPeople count [] l =
    l.zipIdx.flatMap fun e =>
      (if e.1.id ∈ (l.take e.2).map (·.id) then [.repeatedPerson e.1.id] else []) ++
        (((e.1.sessions.map (·.toList)).getD []).filter (count ≤ ·)).map
          (.personSession e.1.id · count) := by
  rw [walk_eq_flatMap_zipIdx (Defect.ofPeople count) (fun seen person =>
    (if person.id ∈ seen then [.repeatedPerson person.id] else []) ++
      (((person.sessions.map (·.toList)).getD []).filter (count ≤ ·)).map
        (.personSession person.id · count)) (·.id) (fun _ => rfl) (fun _ _ _ => rfl)]
  simp only [List.append_nil, List.mem_reverse]

theorem ofGroups_eq (l : List Group) : Defect.ofGroups [] l =
    l.zipIdx.flatMap fun e =>
      (if e.1.id ∈ (l.take e.2).map (·.id) then [.repeatedGroup e.1.id] else []) ++
        if e.1.size = 0 then [.emptyGroup e.1.id] else [] := by
  rw [walk_eq_flatMap_zipIdx Defect.ofGroups (fun seen group =>
    (if group.id ∈ seen then [.repeatedGroup group.id] else []) ++
      if group.size = 0 then [.emptyGroup group.id] else []) (·.id) (fun _ => rfl)
        (fun _ _ _ => rfl)]
  simp only [List.append_nil, List.mem_reverse]

theorem PersonDefect.place {i : Nat} {person : Person} {spot : Spot} {d : Defect}
    (h : p.PersonDefect i person spot d) : spot.part = .people ∧ spot.index = i := by
  cases h <;> exact ⟨rfl, rfl⟩

theorem GroupDefect.place {i : Nat} {group : Group} {spot : Spot} {d : Defect}
    (h : p.GroupDefect i group spot d) : spot.part = .groups ∧ spot.index = i := by
  cases h <;> exact ⟨rfl, rfl⟩

theorem ConstraintDefect.place {i : Nat} {c : Constraint} {spot : Spot} {d : Defect}
    (h : p.ConstraintDefect i c spot d) : spot.part = .constraints ∧ spot.index = i := by
  cases h
  exact ⟨rfl, rfl⟩

theorem part_reportsInOrder {α : Type} {part : Part} {entries : List α}
    {found : Nat → α → Spot → Defect → Prop} {report : α × Nat → List Defect}
    (place : ∀ {i a spot d}, found i a spot d → spot.part = part ∧ spot.index = i)
    (each : ∀ i a, ReportsInOrder Spot.Before (found i a) (report (a, i))) :
    ReportsInOrder Spot.Before (fun spot d => ∃ i a, entries[i]? = some a ∧ found i a spot d)
      (entries.zipIdx.flatMap report) := by
  refine ReportsInOrder.flatMap_zipIdx (fun i a _ => each i a) ?_
  intro i j a b spot d spot' d' earlier first second
  refine Spot.before_of_index ((place first).1.trans (place second).1.symm) ?_
  rwa [(place first).2, (place second).2]

theorem ofPeople_reportsInOrder (p : Problem) :
    ReportsInOrder Spot.Before
      (fun spot d => ∃ i person, p.people[i]? = some person ∧ p.PersonDefect i person spot d)
      (Defect.ofPeople p.sessionCount [] p.people) := by
  rw [ofPeople_eq]
  refine part_reportsInOrder PersonDefect.place fun i person => ?_
  refine ((ReportsInOrder.ite _ ⟨.people, i, .duplicateId, 0⟩ _).append
    (.filter_map _ _ _ (Spot.before_of_position .people i .sessionOutOfRange)) ?_).congr
      fun spot d => ⟨?_, ?_⟩
  · intro spot d spot' d' first second
    obtain ⟨rfl, -⟩ := first
    obtain ⟨_, _, -, rfl, -⟩ := second
    exact Spot.before_of_kind (by decide)
  · intro h
    obtain ⟨rfl, again, rfl⟩ | ⟨n, t, lists, rfl, beyond, rfl⟩ := h
    · exact .repeated (List.mem_map.1 again)
    · cases attends : person.sessions with
      | none => simp [attends] at lists
      | some listed =>
        rw [attends] at lists
        exact .session attends lists (of_decide_eq_true beyond)
  · intro wrong
    cases wrong with
    | repeated earlier => exact .inl ⟨rfl, List.mem_map.2 earlier, rfl⟩
    | session attends lists beyond =>
      refine .inr ⟨_, _, ?_, rfl, decide_eq_true beyond, rfl⟩
      rw [attends]
      exact lists

theorem ofGroups_reportsInOrder (p : Problem) :
    ReportsInOrder Spot.Before
      (fun spot d => ∃ i group, p.groups[i]? = some group ∧ p.GroupDefect i group spot d)
      (Defect.ofGroups [] p.groups) := by
  rw [ofGroups_eq]
  refine part_reportsInOrder GroupDefect.place fun i group => ?_
  refine ((ReportsInOrder.ite _ ⟨.groups, i, .duplicateId, 0⟩ _).append_at
    (.ite _ ⟨.groups, i, .emptyGroup, 0⟩ _) ?_).congr fun spot d => ⟨?_, ?_⟩
  · intro _ _ first
    rw [first.1]
    exact Spot.before_of_kind (by decide)
  · intro h
    obtain ⟨rfl, again, rfl⟩ | ⟨rfl, noSeats, rfl⟩ := h
    · exact .repeated (List.mem_map.1 again)
    · exact .empty noSeats
  · intro wrong
    cases wrong with
    | repeated earlier => exact .inl ⟨rfl, List.mem_map.2 earlier, rfl⟩
    | empty noSeats => exact .inr ⟨rfl, noSeats, rfl⟩

theorem constraints_reportsInOrder (p : Problem) :
    ReportsInOrder Spot.Before
      (fun spot d => ∃ i c, p.constraints[i]? = some c ∧ p.ConstraintDefect i c spot d)
      (p.constraints.zipIdx.flatMap fun (c, index) =>
        (p.slips c).map (.constraint index c.kind)) := by
  refine part_reportsInOrder ConstraintDefect.place fun i c => ?_
  refine ((p.slips_reportsInOrder i c).map _).congr fun spot d => ⟨?_, ?_⟩
  · intro h
    obtain ⟨slip, ⟨kind, n, rfl, wrong⟩, rfl⟩ := h
    exact .slip wrong
  · intro wrong
    cases wrong with
    | slip wrong => exact ⟨_, ⟨_, _, rfl, wrong⟩, rfl⟩

theorem reportsInOrder_defects (p : Problem) :
    ReportsInOrder Spot.Before p.DefectAt p.defects := by
  refine ((p.ofPeople_reportsInOrder.append p.ofGroups_reportsInOrder ?_).append
    p.constraints_reportsInOrder ?_).congr fun spot d => ⟨?_, ?_⟩
  · intro spot d spot' d' first second
    obtain ⟨_, _, -, first⟩ := first
    obtain ⟨_, _, -, second⟩ := second
    refine Spot.before_of_part ?_
    rw [first.place.1, second.place.1]
    decide
  · intro spot d spot' d' first second
    obtain ⟨_, _, -, second⟩ := second
    refine Spot.before_of_part ?_
    obtain ⟨_, _, -, first⟩ | ⟨_, _, -, first⟩ := first
    · rw [first.place.1, second.place.1]
      decide
    · rw [first.place.1, second.place.1]
      decide
  · intro h
    obtain (⟨_, _, here, wrong⟩ | ⟨_, _, here, wrong⟩) | ⟨_, _, here, wrong⟩ := h
    · exact .person here wrong
    · exact .group here wrong
    · exact .constraint here wrong
  · intro h
    cases h with
    | person here wrong => exact .inl (.inl ⟨_, _, here, wrong⟩)
    | group here wrong => exact .inl (.inr ⟨_, _, here, wrong⟩)
    | constraint here wrong => exact .inr ⟨_, _, here, wrong⟩

structure WellFormed (p : Problem) : Prop where
  people : (p.people.map (·.id)).Nodup
  attendance : ∀ person ∈ p.people, ∀ listed, person.sessions = some listed →
    ∀ t ∈ listed, t < p.sessionCount
  groups : (p.groups.map (·.id)).Nodup
  seats : ∀ group ∈ p.groups, 0 < group.size
  named : ∀ c ∈ p.constraints, ∀ n id, c.NamesPerson n id → ∃ person ∈ p.people, person.id = id
  namedGroups : ∀ c ∈ p.constraints, ∀ id, c.NamesGroup id → ∃ group ∈ p.groups, group.id = id
  covered : ∀ r listed, .rule r (some listed) ∈ p.constraints → ∀ t ∈ listed, t < p.sessionCount
  pairs : ∀ first second target mode weight sessions,
    .rule (.pairMeetingCount first second target mode weight) sessions ∈ p.constraints →
      first ≠ second

theorem WellFormed.not_defectAt (sound : p.WellFormed) (spot : Spot) (d : Defect) :
    ¬ p.DefectAt spot d := by
  intro h
  cases h with
  | person here wrong =>
    cases wrong with
    | repeated earlier =>
      obtain ⟨other, before, same⟩ := earlier
      exact nodup_map_iff_take.1 sound.people _ _ here other before same
    | session attends lists beyond =>
      have inside := sound.attendance _ (List.mem_of_getElem? here) _ attends _
        (List.mem_of_getElem? lists)
      omega
  | group here wrong =>
    cases wrong with
    | repeated earlier =>
      obtain ⟨other, before, same⟩ := earlier
      exact nodup_map_iff_take.1 sound.groups _ _ here other before same
    | empty noSeats => exact absurd noSeats (sound.seats _ (List.mem_of_getElem? here)).ne'
  | constraint here wrong =>
    have listed := List.mem_of_getElem? here
    cases wrong with
    | slip wrong =>
      cases wrong with
      | person named unknown =>
        obtain ⟨person, declared, same⟩ := sound.named _ listed _ _ named
        exact unknown person declared same
      | group named unknown =>
        obtain ⟨group, declared, same⟩ := sound.namedGroups _ listed _ named
        exact unknown group declared same
      | session lists beyond =>
        have inside := sound.covered _ _ listed _ (List.mem_of_getElem? lists)
        omega
      | selfPair => exact sound.pairs _ _ _ _ _ _ listed rfl

theorem wellFormed_of_not_defectAt (nothing : ∀ spot d, ¬ p.DefectAt spot d) : p.WellFormed where
  people := nodup_map_iff_take.2 fun _ _ here other before same =>
    nothing _ _ (.person here (.repeated ⟨other, before, same⟩))
  attendance person declared listed attends t lists := by
    obtain ⟨i, here⟩ := List.mem_iff_getElem?.1 declared
    obtain ⟨n, position⟩ := List.mem_iff_getElem?.1 lists
    exact Nat.lt_of_not_le fun beyond =>
      nothing _ _ (.person here (.session attends position beyond))
  groups := nodup_map_iff_take.2 fun _ _ here other before same =>
    nothing _ _ (.group here (.repeated ⟨other, before, same⟩))
  seats group declared := by
    obtain ⟨i, here⟩ := List.mem_iff_getElem?.1 declared
    exact Nat.pos_of_ne_zero fun noSeats => nothing _ _ (.group here (.empty noSeats))
  named c listed n id names := by
    obtain ⟨i, here⟩ := List.mem_iff_getElem?.1 listed
    by_contra unknown
    refine nothing _ _ (.constraint here (.slip (.person names fun person declared same => ?_)))
    exact unknown ⟨person, declared, same⟩
  namedGroups c listed id names := by
    obtain ⟨i, here⟩ := List.mem_iff_getElem?.1 listed
    by_contra unknown
    refine nothing _ _ (.constraint here (.slip (.group names fun group declared same => ?_)))
    exact unknown ⟨group, declared, same⟩
  covered r sessions listed t lists := by
    obtain ⟨i, here⟩ := List.mem_iff_getElem?.1 listed
    obtain ⟨n, position⟩ := List.mem_iff_getElem?.1 lists
    exact Nat.lt_of_not_le fun beyond =>
      nothing _ _ (.constraint here (.slip (.session position beyond)))
  pairs first second target mode weight sessions listed same := by
    obtain ⟨i, here⟩ := List.mem_iff_getElem?.1 listed
    subst same
    exact nothing _ _ (.constraint here (.slip .selfPair))

end Problem

/-- Problems are passed exactly when they are well-formed. In general each place where something is
wrong is reported once, in order and as what it is. -/
theorem defects_exact (p : Problem) :
    (p.defects = [] ↔ p.WellFormed) ∧
    ReportsInOrder Spot.Before p.DefectAt p.defects ∧
    ∀ spot d, p.DefectAt spot d → d.kind = spot.kind := by
  refine ⟨?_, p.reportsInOrder_defects, fun _ _ => Problem.DefectAt.kind_eq⟩
  rw [p.reportsInOrder_defects.eq_nil_iff]
  exact ⟨Problem.wellFormed_of_not_defectAt, Problem.WellFormed.not_defectAt⟩

def hackathon : Problem where
  people := [{ id := "ann", sessions := some (.ofList [4, 0, 2]) }, { id := "bob" },
    { id := "ann" }]
  groups := [⟨"lab", 0⟩, ⟨"lab", 3⟩]
  sessionCount := 2
  constraints := [.rule (.mustStayTogether ["cy", "bob", "cy"]) (some [3, 1, 3]),
    .repeatEncounter 1, .rule (.immovablePerson "dee" "attic") none,
    .rule (.pairMeetingCount "bob" "bob" 1) (some [2])]

theorem defects_exact_hackathon :
    hackathon.defects =
      [.personSession "ann" 2 2, .personSession "ann" 4 2, .repeatedPerson "ann",
        .emptyGroup "lab", .repeatedGroup "lab",
        .constraint 0 "MustStayTogether" (.person "cy"),
        .constraint 0 "MustStayTogether" (.person "cy"),
        .constraint 0 "MustStayTogether" (.session 3 2),
        .constraint 0 "MustStayTogether" (.session 3 2),
        .constraint 2 "ImmovablePerson" (.person "dee"),
        .constraint 2 "ImmovablePerson" (.group "attic"),
        .constraint 3 "PairMeetingCount" (.session 2 2),
        .constraint 3 "PairMeetingCount" (.selfPair "bob")] ∧
    ¬ hackathon.WellFormed ∧
    hackathon.DefectAt ⟨.people, 2, .duplicateId, 0⟩ (.repeatedPerson "ann") ∧
    (Defect.repeatedPerson "ann").kind = .duplicateId ∧
    tangle.WellFormed := by
  have reported : hackathon.defects ≠ [] := by decide +kernel
  have third : hackathon.people[2]? = some { id := "ann" } := rfl
  have again : hackathon.DefectAt ⟨.people, 2, .duplicateId, 0⟩ (.repeatedPerson "ann") :=
    .person third (.repeated ⟨_, List.mem_cons_self, rfl⟩)
  refine ⟨by decide +kernel, mt (defects_exact hackathon).1.2 reported, again, ?_, ?_⟩
  · exact (defects_exact hackathon).2.2 _ _ again
  · exact (defects_exact tangle).1.1 (by decide +kernel)

end Roster
