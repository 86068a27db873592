import Roster.Finding
import Roster.Problem
import Roster.Schedule

/-! Looking at a schedule, whatever it holds, for what each constraint asks.
A person who sits in several groups of a session counts as sitting in the first of
them by id, except where a rule asks for everyone in a group. Capacity is not looked
at. Findings come session by session, and within one in declared order. -/

namespace Roster

/-- The group of every placed person, session by session; the first group by id stays. -/
def Schedule.placements (s : Schedule) : SortedMap Nat (SortedMap String String) :=
  s.sessions.mapValues fun groups =>
    groups.entries.foldl
      (fun seats e => e.2.foldl (fun seats person => seats.insertNew person e.1) seats) .empty

/-- All pairs of different people in a list, as often as they occur in it, the smaller
id first. -/
def pairs : List String → List (String × String)
  | [] => []
  | a :: rest =>
    ((rest.filter (· ≠ a)).map fun b => if a < b then (a, b) else (b, a)) ++ pairs rest

def Schedule.meetings (s : Schedule) : List ((String × String) × Nat) :=
  s.sessions.entries.flatMap fun (session, groups) =>
    groups.entries.flatMap fun (_, people) => (pairs people).map (·, session)

/-- The sessions in which two people met, one entry a meeting, by smaller and larger id. -/
def Schedule.encounters (s : Schedule) : SortedMap String (SortedMap String (List Nat)) :=
  s.meetings.foldl (fun table m => table.pushAt m.1.1 m.1.2 m.2) .empty

/-- What inspections look at: the people and groups of a problem, a schedule, and where
the schedule has placed whom. -/
structure View where
  people : List Person
  groups : List Group
  schedule : Schedule
  placements : SortedMap Nat (SortedMap String String)

namespace View

def of (p : Problem) (s : Schedule) : View := ⟨p.people, p.groups, s, s.placements⟩

def groupOf? (v : View) (session : Nat) (person : String) : Option String :=
  (v.placements.get? session).bind (·.get? person)

/-- The last declaration of a person stands for all of them. -/
def person? (v : View) (id : String) : Option Person := v.people.reverse.find? (·.id = id)

/-- The groups of a session, declared ones first in the order of their first
declarations, then the others by id. -/
def inDeclaredOrder (v : View) (groups : SessionGroups) : List (String × List String) :=
  let declared := (v.groups.map (·.id)).eraseDups
  declared.filterMap (fun id => (groups.get? id).map (id, ·)) ++
    groups.entries.filter (·.1 ∉ declared)

def meet (v : View) (first second : String) (session : Nat) : Bool :=
  (v.groupOf? session first).isSome &&
    v.groupOf? session first == v.groupOf? session second

def pairMeetingCount (v : View) (first second : String) (target : Nat) (mode : MeetingMode)
    (sessions : List Nat) : Verdict :=
  let actual := (sessions.filter (v.meet first second)).length
  ⟨mode.deviation target actual,
    .pairMeetingSummary (first, second) target actual mode sessions ::
      sessions.map fun session =>
        .pairMeetingSession session (first, second) (v.meet first second session)
          (v.groupOf? session first, v.groupOf? session second)⟩

/-- Meetings are counted whatever their number; where it has to fit 32 bits, `Countable` says so.
Of the sessions only neighbouring repeats are left out. -/
def repeatEncounter (v : View) (limit : Nat) : Verdict :=
  .sum <| v.schedule.encounters.entries.flatMap fun (first, row) =>
    row.entries.map fun (second, sessions) =>
      .ofFinding (sessions.length - limit) <|
        .repeatEncounter (first, second) sessions.length limit sessions.eraseReps

def headcount (v : View) (key value : String) (members : List String) : Nat :=
  (members.filter fun id => ((v.person? id).bind (·.attribute? key)) = some value).length

def attributeBalance (v : View) (group key : String) (desired : Headcounts) (mode : BalanceMode)
    (session : Nat) : Verdict :=
  .sum <| desired.entries.map fun (value, wanted) =>
    let actual := v.headcount key value (v.schedule.peopleIn session group)
    .ofFinding (mode.deviation wanted actual) <|
      .attributeBalance session group key value wanted actual

def immovablePerson (v : View) (person group : String) (session : Nat) : Verdict :=
  let actual := v.groupOf? session person
  if actual = some group then .clear
  else .ofFinding 1 (.immovablePerson session person group actual)

def immovablePeople (v : View) (people : List String) (group : String) (session : Nat) :
    Verdict :=
  .sum <| (people.filter (· ∉ v.schedule.peopleIn session group)).map fun person =>
    .ofFinding 1 (.immovablePeople session person group)

/-- One violation for each group beyond the first that the people are found in, where
being in no group counts as a group. -/
def stayTogether (v : View) (people : List String) (session : Nat) : Verdict :=
  let found := people.map (v.groupOf? session)
  .ofFinding (found.eraseDups.length - 1) <|
    .togetherSplit session (people.map fun person => ⟨person, v.groupOf? session person⟩)

def notTogether (v : View) (people : List String) (session : Nat) : Verdict :=
  match v.schedule.session? session with
  | none => .clear
  | some groups =>
    .sum <| (v.inDeclaredOrder groups).map fun (group, members) =>
      let involved := people.filter (· ∈ members)
      .ofFinding (involved.length - 1) (.notTogether session group involved)

def inspectRule (v : View) (sessions : List Nat) : Rule → Verdict
  | .pairMeetingCount first second target mode _ =>
    v.pairMeetingCount first second target mode sessions
  | .attributeBalance group key desired mode _ =>
    .sum (sessions.map (v.attributeBalance group key desired mode))
  | .immovablePerson person group => .sum (sessions.map (v.immovablePerson person group))
  | .immovablePeople people group => .sum (sessions.map (v.immovablePeople people group))
  | .mustStayTogether people | .shouldStayTogether people _ =>
    .sum (sessions.map (v.stayTogether people))
  | .shouldNotBeTogether people _ => .sum (sessions.map (v.notTogether people))

/-- What a constraint finds in the sessions it covers. A limit on encounters looks at
every session of the schedule, an unknown kind at nothing. -/
def inspect (v : View) (covered : SessionSet) : Constraint → Verdict
  | .repeatEncounter limit _ _ => v.repeatEncounter limit
  | .rule r _ => v.inspectRule covered.toList r
  | .unknown => .clear

/-- The verdict on a constraint when there are `count` sessions. The covered sessions are
listed first, also for a kind that does not look at them. -/
def judge (v : View) (count : Nat) (c : Constraint) : Except Overflow Verdict :=
  (c.listed count).bind fun covered => (v.inspect covered c).checked

end View

end Roster
