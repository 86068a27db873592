import Roster.SessionSet
import Roster.Binary64
import Roster.Count
import Roster.Headcounts

/-! Rules over people, groups and sessions.
A rule covers the sessions listed with it, or every session when no list is
given. Weights of soft rules are carried for an optimizer and count nowhere here. -/

namespace Roster

inductive PenaltyFunction
  | linear
  | squared
  deriving DecidableEq

inductive BalanceMode
  | exact
  | atLeast
  deriving DecidableEq

def BalanceMode.deviation (mode : BalanceMode) (desired actual : Nat) : Nat :=
  match mode with
  | exact => (desired - actual) + (actual - desired)
  | atLeast => desired - actual

inductive MeetingMode
  | atLeast
  | exact
  | atMost
  deriving DecidableEq

def MeetingMode.deviation (mode : MeetingMode) (target actual : Nat) : Nat :=
  match mode with
  | atLeast => target - actual
  | exact => (target - actual) + (actual - target)
  | atMost => actual - target

inductive Rule
  | attributeBalance (group key : String) (desired : Headcounts)
      (mode : BalanceMode := .exact) (weight : Binary64 := .one)
  | immovablePerson (person group : String)
  | immovablePeople (people : List String) (group : String)
  | mustStayTogether (people : List String)
  | shouldStayTogether (people : List String) (weight : Binary64 := .one)
  | shouldNotBeTogether (people : List String) (weight : Binary64 := .one)
  | pairMeetingCount (first second : String) (target : Nat)
      (mode : MeetingMode := .atLeast) (weight : Binary64 := .one)
  deriving DecidableEq

namespace Rule

def kind : Rule → String
  | attributeBalance .. => "AttributeBalance"
  | immovablePerson .. => "ImmovablePerson"
  | immovablePeople .. => "ImmovablePeople"
  | mustStayTogether .. => "MustStayTogether"
  | shouldStayTogether .. => "ShouldStayTogether"
  | shouldNotBeTogether .. => "ShouldNotBeTogether"
  | pairMeetingCount .. => "PairMeetingCount"

def isHard : Rule → Bool
  | immovablePerson .. | immovablePeople .. | mustStayTogether .. => true
  | _ => false

def weight? : Rule → Option Binary64
  | attributeBalance _ _ _ _ weight | shouldStayTogether _ weight | shouldNotBeTogether _ weight
  | pairMeetingCount _ _ _ _ weight => some weight
  | immovablePerson .. | immovablePeople .. | mustStayTogether .. => none

def people : Rule → List String
  | attributeBalance .. => []
  | immovablePerson person _ => [person]
  | immovablePeople people _ | mustStayTogether people | shouldStayTogether people _
  | shouldNotBeTogether people _ => people
  | pairMeetingCount first second _ _ _ => [first, second]

def group? : Rule → Option String
  | attributeBalance group _ _ _ _ | immovablePerson _ group | immovablePeople _ group => some group
  | _ => none

end Rule

inductive Constraint
  | repeatEncounter (limit : Nat) (penalty : PenaltyFunction := .linear)
      (weight : Binary64 := .one)
  | rule (r : Rule) (sessions : Option (List Nat) := none)
  | unknown
  deriving DecidableEq

namespace Constraint

def kind : Constraint → String
  | repeatEncounter .. => "RepeatEncounter"
  | rule r _ => r.kind
  | unknown => "Unknown"

/-- Every acceptable schedule keeps a hard constraint. -/
def isHard : Constraint → Bool
  | rule r _ => r.isHard
  | _ => false

def weight? : Constraint → Option Binary64
  | repeatEncounter _ _ weight => some weight
  | rule r _ => r.weight?
  | unknown => none

def people : Constraint → List String
  | rule r _ => r.people
  | _ => []

def group? : Constraint → Option String
  | rule r _ => r.group?
  | _ => none

def sessions? : Constraint → Option (List Nat)
  | rule _ sessions => sessions
  | _ => none

def withSessions (sessions : List Nat) : Constraint → Constraint
  | rule r _ => rule r sessions
  | c => c

def AppliesTo (c : Constraint) (session : Nat) : Prop := ∀ listed ∈ c.sessions?, session ∈ listed

instance (c : Constraint) (session : Nat) : Decidable (c.AppliesTo session) :=
  inferInstanceAs (Decidable (∀ listed ∈ c.sessions?, session ∈ listed))

/-- The sessions a constraint covers when there are `count` of them. A list is taken as
it stands: sessions at or beyond `count` stay in. -/
def covered (c : Constraint) (count : Nat) : SessionSet :=
  match c.sessions? with
  | none => .below count
  | some listed => .ofList listed

/-- The covered sessions are few enough to be listed. A list that is given always is. -/
def Listable (c : Constraint) (count : Nat) : Prop := c.sessions? = none → count < listLimit

instance (c : Constraint) (count : Nat) : Decidable (c.Listable count) :=
  inferInstanceAs (Decidable (c.sessions? = none → count < listLimit))

def listed (c : Constraint) (count : Nat) : Except Overflow SessionSet :=
  if c.Listable count then .ok (c.covered count) else .error .capacity

theorem mem_covered {c : Constraint} {count session : Nat} :
    session ∈ c.covered count ↔ c.AppliesTo session ∧ (c.sessions? = none → session < count) := by
  cases h : c.sessions? <;> simp [covered, AppliesTo, h]

end Constraint

end Roster
