import Roster.Problem
import Roster.Schedule

/-! Structural mistakes in a problem or a list of assignments, each reported once per
place where it occurs: people first, then groups, then constraints. -/

namespace Roster

inductive Slip
  | person (id : String)
  | group (id : String)
  | session (listed count : Nat)
  | selfPair (id : String)
  deriving DecidableEq

inductive Defect
  | repeatedPerson (id : String)
  | personSession (id : String) (session count : Nat)
  | repeatedGroup (id : String)
  | emptyGroup (id : String)
  | constraint (index : Nat) (kind : String) (slip : Slip)
  | assignedPerson (id : String)
  | assignedGroup (id : String)
  | assignedSession (person : String) (session count : Nat)
  | assignedTwice (person : String) (session : Nat) (earlier later : String)
  deriving DecidableEq

inductive DefectKind
  | duplicateId
  | emptyGroup
  | invalidPersonReference
  | invalidGroupReference
  | sessionOutOfRange
  | malformedConstraint
  | duplicateAssignment
  deriving DecidableEq

def Slip.kind : Slip → DefectKind
  | person _ => .invalidPersonReference
  | group _ => .invalidGroupReference
  | session _ _ => .sessionOutOfRange
  | selfPair _ => .malformedConstraint

def Slip.message : Slip → String
  | person id => s!"references unknown person '{id}'"
  | group id => s!"references unknown group '{id}'"
  | session listed count => s!"lists session {listed} (have {count})"
  | selfPair id => s!"pairs '{id}' with itself"

namespace Defect

def kind : Defect → DefectKind
  | repeatedPerson _ | repeatedGroup _ => .duplicateId
  | emptyGroup _ => .emptyGroup
  | personSession .. | assignedSession .. => .sessionOutOfRange
  | constraint _ _ slip => slip.kind
  | assignedPerson _ => .invalidPersonReference
  | assignedGroup _ => .invalidGroupReference
  | assignedTwice .. => .duplicateAssignment

def message : Defect → String
  | repeatedPerson id => s!"Duplicate person ID: {id}"
  | personSession id session count => s!"Person '{id}' lists session {session} (have {count})"
  | repeatedGroup id => s!"Duplicate group ID: {id}"
  | emptyGroup id => s!"Group '{id}' has size 0"
  | constraint index kind slip =>
    let reason := slip.message
    s!"Constraint #{index} ({kind}) {reason}"
  | assignedPerson id => s!"Assignment references unknown person '{id}'"
  | assignedGroup id => s!"Assignment references unknown group '{id}'"
  | assignedSession person session count =>
    s!"Assignment of '{person}' uses session {session} (have {count})"
  | assignedTwice person session earlier later =>
    s!"Person '{person}' assigned twice in session {session} ('{earlier}' and '{later}')"

def ofPeople (count : Nat) : (seen : List String) → List Person → List Defect
  | _, [] => []
  | seen, p :: rest =>
    (if p.id ∈ seen then [repeatedPerson p.id] else []) ++
    ((((p.sessions.map (·.toList)).getD []).filter (count ≤ ·)).map (personSession p.id · count)) ++
    ofPeople count (p.id :: seen) rest

def ofGroups : (seen : List String) → List Group → List Defect
  | _, [] => []
  | seen, g :: rest =>
    (if g.id ∈ seen then [repeatedGroup g.id] else []) ++
    (if g.size = 0 then [emptyGroup g.id] else []) ++
    ofGroups (g.id :: seen) rest

end Defect

namespace Problem

def declaresPerson (p : Problem) (id : String) : Bool := p.people.any (·.id = id)

def declaresGroup (p : Problem) (id : String) : Bool := p.groups.any (·.id = id)

def slips (p : Problem) (c : Constraint) : List Slip :=
  ((c.people.filter (!p.declaresPerson ·)).map .person) ++
  ((c.group?.toList.filter (!p.declaresGroup ·)).map .group) ++
  (((c.sessions?.getD []).filter (p.sessionCount ≤ ·)).map (.session · p.sessionCount)) ++
  (match c with
    | .rule (.pairMeetingCount first second _ _ _) _ =>
      if first = second then [.selfPair first] else []
    | _ => [])

def defects (p : Problem) : List Defect :=
  Defect.ofPeople p.sessionCount [] p.people ++
  Defect.ofGroups [] p.groups ++
  p.constraints.zipIdx.flatMap fun (c, index) => (p.slips c).map (.constraint index c.kind)

/-- What is wrong with an assignment that comes after the `earlier` ones, the last of
them first. -/
def assignmentFaults (p : Problem) (earlier : List Assignment) (a : Assignment) : List Defect :=
  (if p.declaresPerson a.person then [] else [.assignedPerson a.person]) ++
  (if p.declaresGroup a.group then [] else [.assignedGroup a.group]) ++
  (if a.session < p.sessionCount then []
    else [.assignedSession a.person a.session p.sessionCount]) ++
  (match earlier.find? fun b => b.session = a.session ∧ b.person = a.person with
    | some b => [.assignedTwice a.person a.session b.group a.group]
    | none => [])

def assignmentDefectsAfter (p : Problem) : (earlier l : List Assignment) → List Defect
  | _, [] => []
  | earlier, a :: rest =>
    p.assignmentFaults earlier a ++ p.assignmentDefectsAfter (a :: earlier) rest

def assignmentDefects (p : Problem) (l : List Assignment) : List Defect :=
  p.assignmentDefectsAfter [] l

end Problem

end Roster
