import Roster.Proofs.Ties
import Roster.Proofs.Walks
import Roster.Proofs.Written

/-! What filling a session looks at: the groups, who is active, who of those named first
is, the pins and the ties. Sessions that agree in this are filled alike, step by step, whatever
else the two problems are. -/

namespace Roster

namespace Problem

def bare (p : Problem) : Problem where
  people := []
  groups := p.groups
  sessionCount := 0

theorem eq_of_groups {α : Type} {p q : Problem} (same : p.groups = q.groups) (f : Problem → α)
    (reads : ∀ p, f p = f p.bare) : f p = f q := by
  rw [reads p, reads q, bare, bare, same]

end Problem

/-- Session `session` of `p` and session `other` of `q` ask for the same. -/
structure SameSession (p : Problem) (session : Nat) (q : Problem) (other : Nat) : Prop where
  groups : p.groups = q.groups
  active : p.activeIds session = q.activeIds other
  present : ∀ id, (p.person? id).map (fun person => decide (person.ActiveIn session)) =
    (q.person? id).map fun person => decide (person.ActiveIn other)
  pins : p.pins session = q.pins other
  tied : ∀ a b, p.Tied session a b ↔ q.Tied other a b

namespace Seating

variable {p q : Problem} {session other : Nat}

theorem pin_congr (same : SameSession p session q other) : pin p session = pin q other := by
  have index := Problem.eq_of_groups same.groups Problem.groupIndex? fun _ => rfl
  have id := Problem.eq_of_groups same.groups Problem.groupId fun _ => rfl
  have into := Problem.eq_of_groups same.groups putInto fun _ => rfl
  funext s e
  obtain ⟨person, group⟩ := e
  have present := same.present person
  simp only [pin, index, id, into]
  cases first : p.person? person with
  | none =>
    cases second : q.person? person with
    | none => rfl
    | some there => simp [first, second] at present
  | some here =>
    cases second : q.person? person with
    | none => simp [first, second] at present
    | some there =>
      have agree : here.ActiveIn session ↔ there.ActiveIn other := by
        simpa [first, second] using present
      simp only [agree]

theorem afterPins_congr (groups : p.groups = q.groups)
    (active : p.activeIds session = q.activeIds other)
    (tied : ∀ a b, p.Tied session a b ↔ q.Tied other a b) (wish : String → Option String) :
    afterPins p session wish = afterPins q other wish := by
  have clique := Problem.eq_of_groups groups placeClique fun _ => rfl
  have kept := Problem.eq_of_groups groups keep fun _ => rfl
  have anywhere := Problem.eq_of_groups groups seatAnywhere fun _ => rfl
  funext s
  simp only [afterPins, placeCliques, placeSeeded, placeRemaining, clique, kept, anywhere, active,
    Problem.cliques_congr tied]

theorem fill_congr (same : SameSession p session q other) (wish : String → Option String) :
    fill p session wish = fill q other wish := by
  have start := Problem.eq_of_groups same.groups empty fun _ => rfl
  rw [fill_eq_afterPins, fill_eq_afterPins, placePinned, placePinned, start, pin_congr same,
    same.pins, afterPins_congr same.groups same.active same.tied]

end Seating

namespace Problem

variable {p q : Problem}

theorem outcome_congr {session : Nat} (same : SameSession p session q session)
    (wish : Nat → String → Option String) : p.outcome wish session = q.outcome wish session := by
  have written := eq_of_groups same.groups Seating.groups fun _ => rfl
  rw [outcome, outcome, Seating.fill_congr same, written]

theorem reconcile_eq_of_outcome_eq (sessions : p.sessionCount = q.sessionCount)
    {previous earlier : List Assignment} {seeding again : Bool}
    (same : ∀ t < p.sessionCount,
      p.outcome (wishes previous seeding) t = q.outcome (wishes earlier again) t) :
    p.reconcile previous seeding = q.reconcile earlier again := by
  rw [reconcile_eq_mapM, reconcile_eq_mapM, ← sessions,
    mapM_congr fun t inside => same t (List.mem_range.1 inside)]

theorem reconcile_congr (sessions : p.sessionCount = q.sessionCount)
    (same : ∀ t < p.sessionCount, SameSession p t q t) (previous : List Assignment)
    (seeding : Bool) : p.reconcile previous seeding = q.reconcile previous seeding :=
  reconcile_eq_of_outcome_eq sessions fun t inside => outcome_congr (same t inside) _

end Problem

end Roster
