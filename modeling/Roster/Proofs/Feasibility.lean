import Roster.Proofs.Seats
import Roster.WarmStart

/-! What was sat before decides who sits where, never whether there is a schedule. Two
reconciliations of one problem end alike: both with a schedule, or both in the same
session at the same obstacle, but for the person who finds no seat left. -/

namespace Roster

inductive Obstacle.Alike : Obstacle → Obstacle → Prop
  | same (why : Obstacle) : Alike why why
  | noCapacity (person other : String) : Alike (.noCapacity person) (.noCapacity other)

/-- Both come through, or both are stopped alike in one session. -/
inductive EndAlike : Except Impasse Schedule → Except Impasse Schedule → Prop
  | ok (schedule other : Schedule) : EndAlike (.ok schedule) (.ok other)
  | error (session : Nat) {why why' : Obstacle} (alike : why.Alike why') :
      EndAlike (.error ⟨session, why⟩) (.error ⟨session, why'⟩)

namespace Seating

theorem fill_alike (p : Problem) (session : Nat) (wish wish' : String → Option String) :
    (∃ s t, fill p session wish = .done s ∧ fill p session wish' = .done t) ∨
      ∃ s t why why', fill p session wish = .stopped s why ∧
        fill p session wish' = .stopped t why' ∧ why.Alike why' := by
  unfold fill
  cases pinned : placePinned p session (empty p) with
  | stopped a why => exact .inr ⟨a, a, why, why, rfl, rfl, .same why⟩
  | done a =>
    simp only [Attempt.andThen]
    cases grouped : placeCliques p session a with
    | stopped b why => exact .inr ⟨b, b, why, why, rfl, rfl, .same why⟩
    | done b =>
      have records := coherent_placeSeeded pinned grouped
      simp only
      cases first : placeRemaining p session (placeSeeded p session wish b) with
      | done s =>
        have few := card_active_le_of_placeRemaining (records wish) first
        cases second : placeRemaining p session (placeSeeded p session wish' b) with
        | done t => exact .inl ⟨s, t, rfl, rfl⟩
        | stopped t why' =>
          obtain ⟨_, many⟩ := seats_lt_of_placeRemaining (records wish') second
          omega
      | stopped s why =>
        obtain ⟨⟨person, rfl⟩, many⟩ := seats_lt_of_placeRemaining (records wish) first
        cases second : placeRemaining p session (placeSeeded p session wish' b) with
        | done t =>
          have few := card_active_le_of_placeRemaining (records wish') second
          omega
        | stopped t why' =>
          obtain ⟨⟨other, rfl⟩, _⟩ := seats_lt_of_placeRemaining (records wish') second
          exact .inr ⟨s, t, _, _, rfl, rfl, .noCapacity person other⟩

end Seating

theorem Problem.fillFrom_alike (p : Problem) (wish wish' : Nat → String → Option String)
    (count session : Nat) (schedule other : Schedule) :
    EndAlike (p.fillFrom wish count session schedule) (p.fillFrom wish' count session other) := by
  induction count generalizing session schedule other with
  | zero => exact .ok schedule other
  | succ count ih =>
    rw [fillFrom, fillFrom]
    cases Seating.fill_alike p session (wish session) (wish' session) with
    | inl both =>
      obtain ⟨s, t, first, second⟩ := both
      rw [first, second]
      exact ih _ _ _
    | inr neither =>
      obtain ⟨s, t, why, why', first, second, alike⟩ := neither
      rw [first, second]
      exact .error session alike

theorem reconcile_endAlike (p : Problem) (previous other : List Assignment)
    (seeding seeding' : Bool) :
    EndAlike (p.reconcile previous seeding) (p.reconcile other seeding') :=
  p.fillFrom_alike _ _ _ _ _ _

end Roster
