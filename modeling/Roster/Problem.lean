import Roster.Constraint
import Roster.Count
import Roster.Person

/-! A grouping problem: people, groups with a number of seats per session, how many
sessions there are, and the rules. Ids may be declared repeatedly; `person?`, `group?`
and `groupIndex?` take the first declaration. -/

namespace Roster

structure Group where
  id : String
  size : Nat
  deriving DecidableEq

structure Problem where
  people : List Person
  groups : List Group
  sessionCount : Nat
  constraints : List Constraint := []
  deriving DecidableEq

namespace Problem

def withSessions (count : Nat) : Problem := ⟨[], [], count, []⟩

def addPeople (p : Problem) (people : List Person) : Problem :=
  { p with people := p.people ++ people }

def addGroup (p : Problem) (group : Group) : Problem :=
  { p with groups := p.groups ++ [group] }

def addConstraint (p : Problem) (c : Constraint) : Problem :=
  { p with constraints := p.constraints ++ [c] }

def person? (p : Problem) (id : String) : Option Person := p.people.find? (·.id = id)

def group? (p : Problem) (id : String) : Option Group := p.groups.find? (·.id = id)

def groupIndex? (p : Problem) (id : String) : Option Nat := p.groups.findIdx? (·.id = id)

def activeIds (p : Problem) (session : Nat) : List String :=
  (p.people.filter (·.ActiveIn session)).map (·.id)

def seats (p : Problem) : Nat := total (p.groups.map (·.size))

/-- The seats of all groups together, when they can be counted in 64 bits. -/
def capacity (p : Problem) : Except Overflow Nat := checkedTotal indexLimit (p.groups.map (·.size))

end Problem

end Roster
