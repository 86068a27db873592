import Roster.Proofs.Outcome
import Roster.Proofs.Pinning
import Roster.Proofs.Ties

/-! Where no one is tied to anyone, whether there is a schedule is a matter of pins and of
seats: each session needs its pins to be such as can be met, and no more active people than
there are seats. What was sat before does not come into it. -/

namespace Roster

/-- No keep-together list in force names two different active people. -/
def Problem.Untied (p : Problem) (session : Nat) : Prop :=
  ∀ a ∈ p.activeIds session, ∀ b ∈ p.activeIds session, p.Tied session a b → a = b

instance (p : Problem) (session : Nat) : Decidable (p.Untied session) :=
  inferInstanceAs (Decidable (∀ a ∈ p.activeIds session, ∀ b ∈ p.activeIds session,
    (∃ people ∈ p.togetherLists session, a ∈ people ∧ b ∈ people) → a = b))

namespace Seating

variable {p : Problem} {session : Nat} {s : Seating}

theorem placeRemaining_eq_done_iff (h : s.Coherent p session) :
    (∃ t, placeRemaining p session s = .done t) ↔
      (p.activeIds session).toFinset.card ≤ p.seats := by
  constructor
  · intro through
    obtain ⟨t, run⟩ := through
    exact card_active_le_of_placeRemaining h run
  · intro few
    cases ended : placeRemaining p session s with
    | done t => exact ⟨t, rfl⟩
    | stopped t why =>
      have many := (seats_lt_of_placeRemaining h ended).2
      omega

theorem placeCliques_of_untied (untied : p.Untied session) (s : Seating) :
    placeCliques p session s = .done s := by
  rw [placeCliques, Problem.cliques_eq_nil untied]
  rfl

theorem fill_eq_done_iff (untied : p.Untied session) (wish : String → Option String) :
    (∃ s, fill p session wish = .done s) ↔
      p.Pinnable session ∧ (p.activeIds session).toFinset.card ≤ p.seats := by
  have records : ∀ a, placePinned p session (empty p) = .done a →
      (placeSeeded p session wish a).Coherent p session := fun a pinned =>
    coherent_placeSeeded pinned (placeCliques_of_untied untied a) wish
  constructor
  · intro filled
    obtain ⟨s, h⟩ := filled
    obtain ⟨a, b, pinned, grouped, rest⟩ := fill_eq_done.1 h
    rw [placeCliques_of_untied untied] at grouped
    obtain rfl := Attempt.done.inj grouped
    exact ⟨pinnable_of_placePinned pinned,
      (placeRemaining_eq_done_iff (records a pinned)).1 ⟨s, rest⟩⟩
  · intro able
    obtain ⟨a, pinned⟩ := placePinned_eq_done_iff.2 able.1
    obtain ⟨s, rest⟩ := (placeRemaining_eq_done_iff (records a pinned)).2 able.2
    exact ⟨s, fill_eq_done.2 ⟨a, a, pinned, placeCliques_of_untied untied a, rest⟩⟩

end Seating

/-- Without ties a problem has a schedule exactly when in every session its pins can be met
and the active people find seats. -/
theorem reconcile_ok_iff_of_untied {p : Problem} (untied : ∀ t < p.sessionCount, p.Untied t)
    (previous : List Assignment) (seeding : Bool) :
    (∃ schedule, p.reconcile previous seeding = .ok schedule) ↔
      ∀ t < p.sessionCount, p.Pinnable t ∧ (p.activeIds t).toFinset.card ≤ p.seats := by
  rw [Problem.reconcile_ok_iff]
  refine forall₂_congr fun t inside => ?_
  exact Seating.fill_eq_done_iff (untied t inside) _

def lounge : Problem where
  people := [⟨"a", .empty, none⟩, ⟨"b", .empty, some (.ofList [0])⟩,
    ⟨"a", .empty, some (.ofList [1])⟩, ⟨"c", .empty, none⟩]
  groups := [⟨"x", 2⟩, ⟨"y", 1⟩, ⟨"x", 0⟩]
  sessionCount := 2
  constraints := [.rule (.immovablePerson "a" "x") (some [0]),
    .rule (.immovablePeople ["b", "a"] "x") (some [0]), .rule (.mustStayTogether ["a", "ghost"]),
    .rule (.mustStayTogether ["b", "c"]) (some [1])]

def crowdedLounge : Problem := lounge.addConstraint (.rule (.immovablePerson "c" "x"))

theorem reconcile_ok_iff_lounge :
    (∀ t < lounge.sessionCount, lounge.Untied t) ∧
      (∃ schedule, lounge.reconcile [⟨"c", "x", 1⟩] = .ok schedule) ∧
      (∀ t < 2, lounge.Pinnable t ∧ (lounge.activeIds t).toFinset.card ≤ lounge.seats) ∧
      (∀ t < crowdedLounge.sessionCount, crowdedLounge.Untied t) ∧
      ¬ crowdedLounge.Pinnable 0 ∧
      ¬ ∃ schedule, crowdedLounge.reconcile [⟨"c", "x", 1⟩] = .ok schedule := by
  have apart : ∀ t < lounge.sessionCount, lounge.Untied t := by decide
  have apart' : ∀ t < crowdedLounge.sessionCount, crowdedLounge.Untied t := by decide
  have filled : lounge.reconcile [⟨"c", "x", 1⟩] =
      .ok (.ofAssignments [⟨"a", "x", 0⟩, ⟨"b", "x", 0⟩, ⟨"c", "y", 0⟩, ⟨"c", "x", 1⟩,
        ⟨"a", "x", 1⟩]) := by decide +kernel
  have crowded : ¬ crowdedLounge.Pinnable 0 := by
    intro able
    have bound : _ ≤ 2 := able.room "x" ⟨"x", 2⟩ rfl
    have pinned : (crowdedLounge.pinnedTo 0 "x").card = 3 := by decide
    omega
  refine ⟨apart, ⟨_, filled⟩, ?_, apart', crowded, fun h => ?_⟩
  · exact (reconcile_ok_iff_of_untied apart _ true).1 ⟨_, filled⟩
  · exact crowded ((reconcile_ok_iff_of_untied apart' _ true).1 h 0 (by decide)).1

end Roster
