import Roster.Proofs.SameSession

/-! Sessions one at a time. A session can be cut out of a problem as a problem with no other
session; it is then filled as it was among the others. So a reconciliation is nothing but
the sessions reconciled alone, in order, until one of them fails. -/

namespace Roster

def Person.alone (person : Person) (session : Nat) : Person :=
  { person with sessions := some (.ofList (if person.ActiveIn session then [0] else [])) }

theorem Person.activeIn_alone {person : Person} {session : Nat} :
    (person.alone session).ActiveIn 0 ↔ person.ActiveIn session := by
  simp [alone, ActiveIn]

def Constraint.unlisted : Constraint → Constraint
  | rule r _ => rule r
  | c => c

section Unlisted

variable {c : Constraint} {session : Nat}

theorem Constraint.appliesTo_none (r : Rule) (session : Nat) : (rule r none).AppliesTo session := by
  simp [AppliesTo, sessions?]

theorem Constraint.pins_unlisted (h : c.AppliesTo session) :
    c.unlisted.pins 0 = c.pins session := by
  cases c with
  | rule r sessions => rw [unlisted, pins, pins, if_pos (appliesTo_none r 0), if_pos h]
  | _ => rfl

theorem Constraint.pins_eq_nil (h : ¬ c.AppliesTo session) : c.pins session = [] := by
  cases c with
  | rule r sessions => exact if_neg h
  | _ => rfl

theorem Constraint.together?_unlisted (h : c.AppliesTo session) :
    c.unlisted.together? 0 = c.together? session := by
  cases c with
  | rule r sessions => rw [unlisted, together?, together?, if_pos (appliesTo_none r 0), if_pos h]
  | _ => rfl

theorem Constraint.together?_eq_none (h : ¬ c.AppliesTo session) : c.together? session = none := by
  cases c with
  | rule r sessions => exact if_neg h
  | _ => rfl

end Unlisted

namespace Problem

/-- One session as a problem of its own, in which it is session 0. -/
def alone (p : Problem) (session : Nat) : Problem where
  people := p.people.map (·.alone session)
  groups := p.groups
  sessionCount := 1
  constraints := (p.constraints.filter (·.AppliesTo session)).map (·.unlisted)

variable {p : Problem} {session : Nat}

theorem pins_alone : (p.alone session).pins 0 = p.pins session := by
  rw [pins, alone, List.flatMap_map, pins]
  calc (p.constraints.filter (·.AppliesTo session)).flatMap (·.unlisted.pins 0)
      = (p.constraints.filter (·.AppliesTo session)).flatMap (·.pins session) :=
        List.flatMap_congr fun c hc =>
          Constraint.pins_unlisted (by simpa using (List.mem_filter.1 hc).2)
    _ = p.constraints.flatMap (·.pins session) :=
        flatMap_filter_eq fun c _ away => Constraint.pins_eq_nil (by simpa using away)

theorem togetherLists_alone : (p.alone session).togetherLists 0 = p.togetherLists session := by
  rw [togetherLists_eq, togetherLists_eq, alone, List.filterMap_map, List.filterMap_filter]
  refine List.filterMap_congr fun c _ => ?_
  by_cases here : c.AppliesTo session
  · simp [here, Constraint.together?_unlisted here]
  · simp [here, Constraint.together?_eq_none here]

theorem activeIds_alone : (p.alone session).activeIds 0 = p.activeIds session := by
  simp only [activeIds, alone, List.filter_map, List.map_map, Function.comp_def,
    Person.activeIn_alone]
  rfl

theorem person?_alone (id : String) :
    (p.alone session).person? id = (p.person? id).map (·.alone session) := by
  rw [person?, alone, List.find?_map]
  rfl

theorem sameSession_alone (p : Problem) (session : Nat) :
    SameSession (p.alone session) 0 p session where
  groups := rfl
  active := activeIds_alone
  present id := by simp [person?_alone, Function.comp_def, Person.activeIn_alone]
  pins := pins_alone
  tied a b := by rw [Tied, togetherLists_alone, Tied]

end Problem

def previousAlone (previous : List Assignment) (session : Nat) : List Assignment :=
  (previous.filter (·.session = session)).map fun a => { a with session := 0 }

theorem earlierGroup?_previousAlone (previous : List Assignment) (session : Nat) :
    earlierGroup? (previousAlone previous session) 0 = earlierGroup? previous session := by
  funext person
  simp [earlierGroup?, previousAlone, List.find?_map, List.find?_filter, Function.comp_def]

theorem wishes_previousAlone (previous : List Assignment) (seeding : Bool) (session : Nat) :
    wishes (previousAlone previous session) seeding 0 = wishes previous seeding session := by
  cases seeding with
  | false => rfl
  | true => exact earlierGroup?_previousAlone previous session

namespace Problem

def reconcileAlone (p : Problem) (previous : List Assignment) (seeding : Bool) (session : Nat) :
    Except Impasse (List (Nat × SessionGroups)) :=
  match (p.alone session).reconcile (previousAlone previous session) seeding with
  | .error i => .error { i with session := session }
  | .ok schedule => .ok ((schedule.session? 0).toList.map (session, ·))

theorem reconcile_eq_outcome {p : Problem} (one : p.sessionCount = 1) (previous : List Assignment)
    (seeding : Bool) : p.reconcile previous seeding =
      (p.outcome (wishes previous seeding) 0).map fun entry => ⟨.ofList [entry]⟩ := by
  rw [reconcile_eq_mapM, one, List.range_one, List.mapM_cons, List.mapM_nil]
  cases p.outcome (wishes previous seeding) 0 <;> rfl

theorem reconcileAlone_eq (p : Problem) (previous : List Assignment) (seeding : Bool)
    (session : Nat) : p.reconcileAlone previous seeding session =
      (p.outcome (wishes previous seeding) session).map fun entry => [entry] := by
  have same := p.sameSession_alone session
  have written := eq_of_groups same.groups Seating.groups fun _ => rfl
  rw [reconcileAlone, reconcile_eq_outcome rfl, outcome, outcome, Seating.fill_congr same,
    wishes_previousAlone, written]
  cases Seating.fill p session (wishes previous seeding session) with
  | stopped s why => rfl
  | done s => rfl

end Problem

/-- Reconciling a problem is reconciling its sessions alone, in order: the first that fails is
where the whole fails, and else each gives its entry of the schedule. -/
theorem reconcile_eq_mapM_reconcileAlone (p : Problem) (previous : List Assignment)
    (seeding : Bool) : p.reconcile previous seeding =
      ((List.range p.sessionCount).mapM (p.reconcileAlone previous seeding)).map fun found =>
        ⟨.ofList found.flatten⟩ := by
  have each := mapM_eq_map (l := List.range p.sessionCount) fun session _ =>
    p.reconcileAlone_eq previous seeding session
  rw [Problem.reconcile_eq_mapM, each]
  cases (List.range p.sessionCount).mapM (p.outcome (wishes previous seeding)) with
  | error i => rfl
  | ok found =>
    simp only [Except.map, ← List.flatMap_def, List.flatMap_singleton']

end Roster
