import Roster.Seating

/-! A fresh schedule for a problem that reuses an earlier, possibly stale result.
Sessions are filled one by one, each for itself; the first obstacle ends the whole
attempt and nothing is returned but the reason. -/

namespace Roster

/-- The group an earlier result first names for a person in a session. -/
def earlierGroup? (previous : List Assignment) (session : Nat) (person : String) :
    Option String :=
  (previous.find? fun a => a.session = session ∧ a.person = person).map (·.group)

namespace Problem

def fillFrom (p : Problem) (wish : Nat → String → Option String) :
    (count session : Nat) → Schedule → Except Impasse Schedule
  | 0, _, schedule => .ok schedule
  | count + 1, session, schedule =>
    match Seating.fill p session (wish session) with
    | .stopped _ why => .error ⟨session, why⟩
    | .done s => fillFrom p wish count (session + 1) (s.writeInto p session schedule)

/-- Fill every session; with `seeding` off the earlier result is left aside. -/
def reconcile (p : Problem) (previous : List Assignment) (seeding : Bool := true) :
    Except Impasse Schedule :=
  p.fillFrom (if seeding then earlierGroup? previous else fun _ _ => none) p.sessionCount 0 .empty

end Problem

end Roster
