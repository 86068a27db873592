import Roster.Exchange.Problem
import Roster.Schedule

/-! Assignments and schedules in JSON. Session indices are member names there, written
as plain decimal numbers without escapes; only the form that is written is read. -/

namespace Roster

open Json

namespace Assignment

def toJson (a : Assignment) : Json :=
  object [("person_id", string a.person), ("group_id", string a.group),
    ("session_id", ofNat a.session)]

def ofJson? (v : Json) : Option Assignment := do
  let l ← v.members? ["person_id", "group_id", "session_id"]
  return {
    person := ← required? "person_id" text? l
    group := ← required? "group_id" text? l
    session := ← required? "session_id" index? l }

end Assignment

namespace Schedule

def sessionOfName? (name : String) : Option Nat :=
  name.toNat?.filter fun n => n < indexLimit && toString n == name

def groupsToJson (groups : SessionGroups) : Json :=
  object (groups.entries.map fun e => (e.1, ofTexts e.2))

def groupsOfJson? (v : Json) : Option SessionGroups := (v.table? (list? text?)).map .ofList

def toJson (s : Schedule) : Json :=
  object [("sessions",
    object (s.sessions.entries.map fun e => (toString e.1, groupsToJson e.2)))]

def ofJson? (v : Json) : Option Schedule := do
  let l ← v.members? ["sessions"]
  let named ← required? "sessions" (plainTable? groupsOfJson?) l
  let sessions ← named.mapM fun (name, groups) => (sessionOfName? name).map (·, groups)
  return ⟨.ofList sessions⟩

end Schedule

end Roster
