import Roster.Count
import Roster.SortedMap

/-! Who sits where. An assignment is one placement; a schedule gathers placements by
session and group, sessions and groups ascending and people in the order they came.
A session or group may be present and empty. -/

namespace Roster

structure Assignment where
  person : String
  group : String
  session : Nat
  deriving DecidableEq

abbrev SessionGroups := SortedMap String (List String)

structure Schedule where
  sessions : SortedMap Nat SessionGroups
  deriving DecidableEq

namespace Schedule

def empty : Schedule := ⟨.empty⟩

def touch (s : Schedule) (session : Nat) : Schedule := ⟨s.sessions.insertNew session .empty⟩

def place (s : Schedule) (session : Nat) (group person : String) : Schedule :=
  ⟨s.sessions.pushAt session group person⟩

def ofAssignments (l : List Assignment) : Schedule :=
  l.foldl (fun s a => s.place a.session a.group a.person) empty

def session? (s : Schedule) (session : Nat) : Option SessionGroups := s.sessions.get? session

def peopleIn (s : Schedule) (session : Nat) (group : String) : List String :=
  s.sessions.listAt session group

def occupancy (s : Schedule) (session : Nat) (group : String) : Nat :=
  (s.peopleIn session group).length

/-- The first group, by id, that holds the person. -/
def groupOf? (s : Schedule) (session : Nat) (person : String) : Option String :=
  (s.session? session).bind fun groups =>
    (groups.entries.find? fun e => person ∈ e.2).map Prod.fst

def toAssignments (s : Schedule) : List Assignment :=
  s.sessions.entries.flatMap fun (session, groups) =>
    groups.entries.flatMap fun (group, people) =>
      people.map fun person => ⟨person, group, session⟩

def assignmentCount (s : Schedule) : Nat :=
  total (s.sessions.entries.map fun e => total (e.2.entries.map fun g => g.2.length))

def isEmpty (s : Schedule) : Bool := s.assignmentCount == 0

theorem length_toAssignments (s : Schedule) : s.toAssignments.length = s.assignmentCount := by
  simp only [toAssignments, assignmentCount, length_flatMap_eq_total, List.length_map]

end Schedule

end Roster
