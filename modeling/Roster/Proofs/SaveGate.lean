import Roster.Proofs.HardRules
import Roster.Proofs.OfAssignments

/-! When assignments may be saved. What stands in the way is said of the assignments alone,
whoever they name and however often, and without a schedule. -/

namespace Roster

/-- What a hard rule asks of the assignments to a session. A soft rule asks nothing. -/
def Rule.KeptBy (l : List Assignment) (session : Nat) : Rule → Prop
  | .immovablePerson person group => LeastGroup l session person group
  | .immovablePeople people group => ∀ person ∈ people, ⟨person, group, session⟩ ∈ l
  | .mustStayTogether people =>
    (∀ person ∈ people, ∀ group, ⟨person, group, session⟩ ∉ l) ∨
      ∃ group, ∀ person ∈ people, LeastGroup l session person group
  | _ => True

def Problem.HardRulesKept (p : Problem) (l : List Assignment) : Prop :=
  ∀ r sessions, .rule r sessions ∈ p.constraints → r.isHard →
    ∀ t ∈ (Constraint.rule r sessions).covered p.sessionCount, r.KeptBy l t

namespace View

variable {p : Problem} {l : List Assignment} {t : Nat}

theorem violations_immovablePerson_eq_zero {person group : String} :
    ((of p (.ofAssignments l)).immovablePerson person group t).violations = 0 ↔
      LeastGroup l t person group := by
  rw [immovablePerson, groupOf?_of, ← Schedule.groupOf?_ofAssignments_eq_some]
  split
  · exact iff_of_true rfl ‹_›
  · exact iff_of_false (by simp) ‹_›

theorem violations_immovablePeople_eq_zero {people : List String} {group : String} :
    ((of p (.ofAssignments l)).immovablePeople people group t).violations = 0 ↔
      ∀ person ∈ people, ⟨person, group, t⟩ ∈ l := by
  rw [violations_immovablePeople, List.length_eq_zero_iff, List.filter_eq_nil_iff]
  refine forall₂_congr fun person _ => ?_
  rw [← Schedule.mem_peopleIn_ofAssignments, decide_eq_true_eq, not_not]
  rfl

theorem violations_stayTogether_eq_zero {people : List String} :
    ((of p (.ofAssignments l)).stayTogether people t).violations = 0 ↔
      (∀ person ∈ people, ∀ group, ⟨person, group, t⟩ ∉ l) ∨
        ∃ group, ∀ person ∈ people, LeastGroup l t person group := by
  simp only [← Schedule.groupOf?_ofAssignments_eq_none, ← Schedule.groupOf?_ofAssignments_eq_some]
  rw [stayTogether, Verdict.violations_ofFinding, Nat.sub_eq_zero_iff_le,
    length_eraseDups_map_le_one, Option.exists]
  simp only [groupOf?_of]

theorem violations_inspectRule_eq_zero {r : Rule} (hard : r.isHard) (sessions : List Nat) :
    ((of p (.ofAssignments l)).inspectRule sessions r).violations = 0 ↔
      ∀ t ∈ sessions, r.KeptBy l t := by
  cases r with
  | immovablePerson person group =>
    rw [inspectRule, Verdict.violations_sum_map, total_eq_zero, List.forall_mem_map]
    exact forall₂_congr fun t _ => violations_immovablePerson_eq_zero
  | immovablePeople people group =>
    rw [inspectRule, Verdict.violations_sum_map, total_eq_zero, List.forall_mem_map]
    exact forall₂_congr fun t _ => violations_immovablePeople_eq_zero
  | mustStayTogether people =>
    rw [inspectRule, Verdict.violations_sum_map, total_eq_zero, List.forall_mem_map]
    exact forall₂_congr fun t _ => violations_stayTogether_eq_zero
  | _ => simp [Rule.isHard] at hard

end View

namespace Problem

theorem hardViolations_eq_zero_iff {p : Problem} {l : List Assignment} :
    (Summary.ofCards (p.cards (.ofAssignments l))).hardViolations = 0 ↔ p.HardRulesKept l := by
  rw [hardViolations_cards_eq_zero]
  constructor
  · intro clear r sessions hc hard
    exact (View.violations_inspectRule_eq_zero hard _).1 (clear _ hc hard)
  · intro kept c hc hard
    cases c with
    | rule r sessions =>
      exact (View.violations_inspectRule_eq_zero hard _).2 (kept r sessions hc hard)
    | repeatEncounter => simp [Constraint.isHard] at hard
    | unknown => simp [Constraint.isHard] at hard

theorem HardRulesKept.congr {p q : Problem} {l : List Assignment}
    (count : q.sessionCount = p.sessionCount)
    (hard : ∀ c : Constraint, c.isHard → (c ∈ q.constraints ↔ c ∈ p.constraints)) :
    q.HardRulesKept l ↔ p.HardRulesKept l := by
  rw [HardRulesKept, HardRulesKept, count]
  refine forall₂_congr fun r sessions => ?_
  constructor
  · intro kept hc ruled
    exact kept ((hard (.rule r sessions) ruled).2 hc) ruled
  · intro kept hc ruled
    exact kept ((hard (.rule r sessions) ruled).1 hc) ruled

theorem hasHardViolations_of_evaluateAssignments {p : Problem} {l : List Assignment}
    {cards : List Card} (h : p.evaluateAssignments l = .ok cards) :
    (Summary.ofCards cards).hasHardViolations = false ↔ p.HardRulesKept l := by
  obtain ⟨-, -, rfl⟩ := evaluate_eq_ok.1 h
  rw [← hardViolations_eq_zero_iff, Summary.hasHardViolations, decide_eq_false_iff_not, Nat.not_lt,
    Nat.le_zero]

end Problem

/-- Assignments whose counts fit are evaluated, and show no hard violations exactly when they
keep all hard rules. Another problem with the same hard rules finds the same. -/
theorem hasHardViolations_eq_false_iff (p : Problem) (l : List Assignment) :
    ((∀ c ∈ p.constraints, c.Listable p.sessionCount) →
      (∀ card ∈ p.cards (.ofAssignments l), card.violations < countLimit) →
        ∃ cards, p.evaluateAssignments l = .ok cards) ∧
    ∀ cards, p.evaluateAssignments l = .ok cards →
      ((Summary.ofCards cards).hasHardViolations = false ↔ p.HardRulesKept l) ∧
      ∀ (q : Problem) (others : List Card), q.sessionCount = p.sessionCount →
        (∀ c : Constraint, c.isHard → (c ∈ q.constraints ↔ c ∈ p.constraints)) →
          q.evaluateAssignments l = .ok others →
            (Summary.ofCards others).hasHardViolations =
              (Summary.ofCards cards).hasHardViolations := by
  constructor
  · intro listable small
    exact ⟨_, Problem.evaluate_eq_ok.2 ⟨listable, small, rfl⟩⟩
  · intro cards evaluated
    have gate := Problem.hasHardViolations_of_evaluateAssignments evaluated
    refine ⟨gate, fun q others count hard reevaluated => ?_⟩
    have other := Problem.hasHardViolations_of_evaluateAssignments reevaluated
    rw [Problem.HardRulesKept.congr count hard, ← gate] at other
    exact Bool.eq_iff_iff.2 (by simpa using not_congr other)

def studio : Problem where
  people := [⟨"a", .empty, none⟩, ⟨"b", .empty, none⟩]
  groups := [⟨"x", 2⟩, ⟨"y", 1⟩]
  sessionCount := 2
  constraints := [.rule (.immovablePerson "a" "x") (some [0, 7]), .unknown,
    .rule (.immovablePeople ["a", "guest"] "hall") (some [1]),
    .rule (.mustStayTogether ["a", "b", "guest"]), .rule (.shouldNotBeTogether ["a", "b"]),
    .repeatEncounter 0]

def bareStudio : Problem :=
  { studio with people := [], groups := [], constraints := studio.constraints.filter (·.isHard) }

def studioSeats : List Assignment :=
  [⟨"a", "y", 0⟩, ⟨"b", "x", 0⟩, ⟨"guest", "x", 0⟩, ⟨"a", "x", 0⟩, ⟨"a", "x", 7⟩,
    ⟨"guest", "hall", 1⟩, ⟨"b", "hall", 1⟩, ⟨"a", "hall", 1⟩, ⟨"a", "hall", 1⟩]

theorem hasHardViolations_studio :
    ∃ cards others more, studio.evaluateAssignments studioSeats = .ok cards ∧
      studio.HardRulesKept studioSeats ∧
      bareStudio.evaluateAssignments studioSeats = .ok others ∧
      (Summary.ofCards others).hasHardViolations = (Summary.ofCards cards).hasHardViolations ∧
      studio.evaluateAssignments (⟨"b", "arch", 0⟩ :: studioSeats) = .ok more ∧
      ¬ studio.HardRulesKept (⟨"b", "arch", 0⟩ :: studioSeats) := by
  obtain ⟨fits, settled⟩ := hasHardViolations_eq_false_iff studio studioSeats
  obtain ⟨fitsBare, -⟩ := hasHardViolations_eq_false_iff bareStudio studioSeats
  obtain ⟨fitsMore, settledMore⟩ :=
    hasHardViolations_eq_false_iff studio (⟨"b", "arch", 0⟩ :: studioSeats)
  obtain ⟨cards, evaluated⟩ := fits (by decide) (by decide +kernel)
  obtain ⟨others, alone⟩ := fitsBare (by decide) (by decide +kernel)
  obtain ⟨more, reevaluated⟩ := fitsMore (by decide) (by decide +kernel)
  obtain ⟨gate, same⟩ := settled cards evaluated
  have clean : (Summary.ofCards cards).hasHardViolations = false := by
    obtain ⟨-, -, rfl⟩ := Problem.evaluate_eq_ok.1 evaluated
    decide +kernel
  have broken : (Summary.ofCards more).hasHardViolations = true := by
    obtain ⟨-, -, rfl⟩ := Problem.evaluate_eq_ok.1 reevaluated
    decide +kernel
  have hard : ∀ c : Constraint, c.isHard → (c ∈ bareStudio.constraints ↔ c ∈ studio.constraints) :=
    fun c ruled => List.mem_filter.trans (and_iff_left ruled)
  refine ⟨cards, others, more, evaluated, gate.1 clean, alone, ?_, reevaluated, ?_⟩
  · exact same bareStudio others rfl hard alone
  · rw [← (settledMore more reevaluated).1, broken]
    decide

end Roster
