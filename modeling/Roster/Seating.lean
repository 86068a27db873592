import Roster.Clique
import Roster.Impasse
import Roster.Schedule

/-! Filling one session. Pinned people are placed first, then cliques, then people who
can keep an earlier group, then everyone left; a seat once given is never taken back.
Groups are meant by their index in the problem. -/

namespace Roster

def Problem.groupId (p : Problem) (index : Nat) : String :=
  (p.groups[index]?.map (·.id)).getD ""

def Problem.groupSize (p : Problem) (index : Nat) : Nat :=
  (p.groups[index]?.map (·.size)).getD 0

/-- Who has to sit where, person and group, in the order the rules say it. -/
def Rule.pins : Rule → List (String × String)
  | immovablePerson person group => [(person, group)]
  | immovablePeople people group => people.map fun person => (person, group)
  | _ => []

def Constraint.pins (c : Constraint) (session : Nat) : List (String × String) :=
  match c with
  | rule r _ => if c.AppliesTo session then r.pins else []
  | _ => []

def Problem.pins (p : Problem) (session : Nat) : List (String × String) :=
  p.constraints.flatMap (·.pins session)

/-- The seats given so far: how many in each group, to whom, and in which order. -/
structure Seating where
  occupancy : List Nat
  placed : SortedMap String Nat
  order : List (String × Nat)
  deriving DecidableEq

/-- Placing people either comes through or is stopped, with the seats given until then. -/
inductive Attempt
  | done (s : Seating)
  | stopped (s : Seating) (why : Obstacle)
  deriving DecidableEq

namespace Attempt

def seating : Attempt → Seating
  | done s | stopped s _ => s

def andThen : Attempt → (Seating → Attempt) → Attempt
  | done s, next => next s
  | stopped s why, _ => stopped s why

def each {α : Type} (step : Seating → α → Attempt) : Seating → List α → Attempt
  | s, [] => done s
  | s, a :: rest => (step s a).andThen fun s => each step s rest

@[simp] theorem seating_done (s : Seating) : (done s).seating = s := rfl

@[simp] theorem seating_stopped (s : Seating) (why : Obstacle) : (stopped s why).seating = s := rfl

theorem each_append {α : Type} (step : Seating → α → Attempt) (s : Seating) (l m : List α) :
    each step s (l ++ m) = (each step s l).andThen fun s => each step s m := by
  induction l generalizing s with
  | nil => rfl
  | cons a rest ih =>
    simp only [List.cons_append, each]
    cases step s a with
    | done s => exact ih s
    | stopped s why => rfl

end Attempt

namespace Seating

def empty (p : Problem) : Seating := ⟨List.replicate p.groups.length 0, .empty, []⟩

def spare (p : Problem) (s : Seating) (index : Nat) : Nat :=
  p.groupSize index - s.occupancy[index]?.getD 0

/-- A group is the best so far when it has a spare seat, as many as are needed, and more than the
best before it. -/
def consider (p : Problem) (s : Seating) (needed : Nat) (best : Option (Nat × Nat))
    (index : Nat) : Option (Nat × Nat) :=
  if s.spare p index < needed ∨ s.spare p index = 0 then best
  else if ∀ b ∈ best, b.2 < s.spare p index then some (index, s.spare p index)
  else best

def roomiest? (p : Problem) (s : Seating) (needed : Nat) : Option Nat :=
  ((List.range p.groups.length).foldl (s.consider p needed) none).map Prod.fst

def put (s : Seating) (person : String) (index : Nat) : Seating where
  occupancy := s.occupancy.modify index (· + 1)
  placed := s.placed.insert person index
  order := s.order ++ [(person, index)]

def putInto (p : Problem) (index : Nat) (s : Seating) (person : String) : Attempt :=
  if s.spare p index = 0 then
    .stopped s (.capacityExceeded person (p.groupId index) (p.groupSize index))
  else .done (s.put person index)

def pin (p : Problem) (session : Nat) (s : Seating) : String × String → Attempt
  | (person, group) =>
    match p.person? person with
    | none => .stopped s (.unknownPerson person)
    | some found =>
      if ¬ found.ActiveIn session then .stopped s (.inactivePerson person group)
      else match p.groupIndex? group with
        | none => .stopped s (.unknownGroup person group)
        | some index =>
          match s.placed.get? person with
          | none => s.putInto p index person
          | some current =>
            if current = index then .done s
            else .stopped s (.conflictingPlacement person (p.groupId current) group)

/-- A clique goes where its placed members are; with none placed, to the roomiest
group that holds all of it. -/
def placeClique (p : Problem) (s : Seating) (clique : List String) : Attempt :=
  let unplaced := clique.filter fun member => (s.placed.get? member).isNone
  match clique.filterMap s.placed.get? with
  | [] =>
    match s.roomiest? p unplaced.length with
    | none => .stopped s (.cliqueInfeasible clique)
    | some index => .each (putInto p index) s unplaced
  | index :: others =>
    match others.find? (· ≠ index) with
    | some other =>
      .stopped s (.cliqueConflict clique (p.groupId index) (p.groupId other))
    | none => .each (putInto p index) s unplaced

def keep (p : Problem) (wish : String → Option String) (s : Seating) (person : String) : Seating :=
  match s.placed.get? person, (wish person).bind p.groupIndex? with
  | none, some index => if s.spare p index = 0 then s else s.put person index
  | _, _ => s

def seatAnywhere (p : Problem) (s : Seating) (person : String) : Attempt :=
  match s.placed.get? person with
  | some _ => .done s
  | none =>
    match s.roomiest? p 1 with
    | none => .stopped s (.noCapacity person)
    | some index => .done (s.put person index)

def placePinned (p : Problem) (session : Nat) (s : Seating) : Attempt :=
  .each (pin p session) s (p.pins session)

def placeCliques (p : Problem) (session : Nat) (s : Seating) : Attempt :=
  .each (placeClique p) s (p.cliques session (p.activeIds session))

def placeSeeded (p : Problem) (session : Nat) (wish : String → Option String) (s : Seating) :
    Seating :=
  (p.activeIds session).foldl (keep p wish) s

def placeRemaining (p : Problem) (session : Nat) (s : Seating) : Attempt :=
  .each (seatAnywhere p) s (p.activeIds session)

def fill (p : Problem) (session : Nat) (wish : String → Option String) : Attempt :=
  (placePinned p session (empty p)).andThen fun s =>
  (placeCliques p session s).andThen fun s =>
  placeRemaining p session (placeSeeded p session wish s)

def writeInto (p : Problem) (session : Nat) (s : Seating) (schedule : Schedule) : Schedule :=
  s.order.foldl (fun schedule e => schedule.place session (p.groupId e.2) e.1)
    (schedule.touch session)

end Seating

end Roster
