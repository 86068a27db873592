import Roster.Text.Quoted

/-! Why a session cannot be filled. Ids stand raw in a message; the members of a
clique are listed in quotation marks. -/

namespace Roster

inductive Obstacle
  | unknownPerson (person : String)
  | inactivePerson (person group : String)
  | unknownGroup (person group : String)
  | conflictingPlacement (person first second : String)
  | capacityExceeded (person group : String) (capacity : Nat)
  | cliqueConflict (members : List String) (first second : String)
  | cliqueInfeasible (members : List String)
  | noCapacity (person : String)
  deriving DecidableEq

def Obstacle.message : Obstacle → String
  | unknownPerson person => s!"pinned person '{person}' does not exist"
  | inactivePerson person group => s!"person '{person}' is pinned to '{group}' but is not active"
  | unknownGroup person group => s!"group '{group}' required for '{person}' does not exist"
  | conflictingPlacement person first second =>
    s!"person '{person}' is pinned to both '{first}' and '{second}'"
  | capacityExceeded person group capacity =>
    s!"cannot place '{person}' in '{group}', capacity {capacity} reached"
  | cliqueConflict members first second =>
    let listed := Text.quotedList members
    s!"clique {listed} is pinned to both '{first}' and '{second}'"
  | cliqueInfeasible members =>
    let listed := Text.quotedList members
    s!"no group can hold clique {listed} ({members.length} people)"
  | noCapacity person => s!"no group has spare capacity for '{person}'"

structure Impasse where
  session : Nat
  obstacle : Obstacle
  deriving DecidableEq

def Impasse.message (i : Impasse) : String :=
  let reason := i.obstacle.message
  s!"session {i.session}: {reason}"

end Roster
