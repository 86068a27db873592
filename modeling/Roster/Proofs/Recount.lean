import Mathlib.Tactic.Common
import Roster.Proofs.Count
import Roster.Report

/-! Violations counted again from what was noted down. A finding stands for as many violations
as it shows, and a constraint has as many as its findings show together, each at least one.
Meeting counts alone note down sessions in which nothing is wrong, so there the violations
are read off the summary. -/

namespace Roster

def Rule.shown : Rule → Finding → Nat
  | .attributeBalance _ _ _ .exact _, .attributeBalance _ _ _ _ desired actual =>
    ((desired : Int) - actual).natAbs
  | .attributeBalance _ _ _ .atLeast _, .attributeBalance _ _ _ _ desired actual =>
    desired - actual
  | .immovablePerson .., .immovablePerson .. => 1
  | .immovablePeople .., .immovablePeople .. => 1
  | .mustStayTogether _, .togetherSplit _ placements
  | .shouldStayTogether .., .togetherSplit _ placements =>
    (placements.map (·.group)).toFinset.card - 1
  | .shouldNotBeTogether .., .notTogether _ _ people => people.length - 1
  | _, _ => 0

def Constraint.shown : Constraint → Finding → Nat
  | .repeatEncounter .., .repeatEncounter _ count limit _ => count - limit
  | .rule r _, finding => r.shown finding
  | _, _ => 0

def Constraint.countsMeetings : Constraint → Bool
  | .rule (.pairMeetingCount ..) _ => true
  | _ => false

def Finding.metIn? : Finding → Option Nat
  | pairMeetingSession session _ true _ => some session
  | _ => none

namespace Verdict

variable {shown : Finding → Nat} {v : Verdict}

/-- The findings show all violations, and each shows some. -/
structure Accounts (shown : Finding → Nat) (v : Verdict) : Prop where
  violations : v.violations = total (v.findings.map shown)
  positive : ∀ f ∈ v.findings, 0 < shown f

theorem Accounts.violations_eq_zero (h : v.Accounts shown) :
    v.violations = 0 ↔ v.findings = [] := by
  rw [h.violations, total_eq_zero, List.forall_mem_map, List.eq_nil_iff_forall_not_mem]
  exact forall₂_congr fun f hf => iff_false_intro (Nat.pos_iff_ne_zero.1 (h.positive f hf))

theorem accounts_clear : clear.Accounts shown := ⟨rfl, by simp [clear]⟩

theorem accounts_ofFinding {n : Nat} {f : Finding} (same : shown f = n) :
    (ofFinding n f).Accounts shown := by
  unfold ofFinding
  split
  · exact accounts_clear
  · constructor
    · simp [same]
    · simp only [List.mem_singleton, forall_eq]
      omega

theorem accounts_sum {l : List Verdict} (each : ∀ v ∈ l, v.Accounts shown) :
    (sum l).Accounts shown := by
  induction l with
  | nil => exact accounts_clear
  | cons v rest ih =>
    obtain ⟨first, others⟩ := List.forall_mem_cons.1 each
    have later := ih others
    rw [sum_cons]
    constructor
    · rw [List.map_append, total_append, first.violations, later.violations]
    · intro f hf
      cases List.mem_append.1 hf with
      | inl here => exact first.positive f here
      | inr after => exact later.positive f after

theorem accounts_sum_map {α : Type} {f : α → Verdict} (each : ∀ a, (f a).Accounts shown)
    (l : List α) : (sum (l.map f)).Accounts shown :=
  accounts_sum (List.forall_mem_map.2 fun a _ => each a)

end Verdict

namespace View

open Verdict

theorem accounts_repeatEncounter (v : View) (limit : Nat) (penalty : PenaltyFunction)
    (weight : Binary64) :
    (v.repeatEncounter limit).Accounts (Constraint.repeatEncounter limit penalty weight).shown := by
  refine accounts_sum fun verdict hv => ?_
  obtain ⟨e, -, row⟩ := List.mem_flatMap.1 hv
  obtain ⟨cell, -, rfl⟩ := List.mem_map.1 row
  exact accounts_ofFinding rfl

theorem accounts_attributeBalance (v : View) (group key : String) (desired : Headcounts)
    (mode : BalanceMode) (weight : Binary64) (t : Nat) :
    (v.attributeBalance group key desired mode t).Accounts
      (Rule.attributeBalance group key desired mode weight).shown := by
  refine accounts_sum_map (fun e => accounts_ofFinding ?_) _
  cases mode with
  | exact =>
    dsimp only [Rule.shown, BalanceMode.deviation]
    omega
  | atLeast => rfl

theorem accounts_immovablePerson (v : View) (person group : String) (t : Nat) :
    (v.immovablePerson person group t).Accounts (Rule.immovablePerson person group).shown := by
  unfold immovablePerson
  dsimp only
  split
  · exact accounts_clear
  · exact accounts_ofFinding rfl

theorem accounts_immovablePeople (v : View) (people : List String) (group : String) (t : Nat) :
    (v.immovablePeople people group t).Accounts (Rule.immovablePeople people group).shown := by
  refine accounts_sum fun verdict hv => ?_
  obtain ⟨person, -, rfl⟩ := List.mem_map.1 hv
  exact accounts_ofFinding rfl

theorem accounts_stayTogether {shown : Finding → Nat}
    (reads : ∀ t placements, shown (.togetherSplit t placements) =
      (placements.map (·.group)).toFinset.card - 1)
    (v : View) (people : List String) (t : Nat) : (v.stayTogether people t).Accounts shown := by
  refine accounts_ofFinding ?_
  rw [reads, length_eraseDups, List.map_map]
  rfl

theorem accounts_notTogether (v : View) (people : List String) (weight : Binary64) (t : Nat) :
    (v.notTogether people t).Accounts (Rule.shouldNotBeTogether people weight).shown := by
  unfold notTogether
  split
  · exact accounts_clear
  · refine accounts_sum fun verdict hv => ?_
    obtain ⟨e, -, rfl⟩ := List.mem_map.1 hv
    exact accounts_ofFinding rfl

theorem accounts_inspectRule (v : View) (sessions : List Nat) {r : Rule}
    {listed : Option (List Nat)} (plain : ¬ (Constraint.rule r listed).countsMeetings) :
    (v.inspectRule sessions r).Accounts r.shown := by
  cases r with
  | attributeBalance => exact accounts_sum_map (v.accounts_attributeBalance _ _ _ _ _) _
  | immovablePerson => exact accounts_sum_map (v.accounts_immovablePerson _ _) _
  | immovablePeople => exact accounts_sum_map (v.accounts_immovablePeople _ _) _
  | mustStayTogether => exact accounts_sum_map (accounts_stayTogether (fun _ _ => rfl) v _) _
  | shouldStayTogether => exact accounts_sum_map (accounts_stayTogether (fun _ _ => rfl) v _) _
  | shouldNotBeTogether => exact accounts_sum_map (v.accounts_notTogether _ _) _
  | pairMeetingCount => simp [Constraint.countsMeetings] at plain

theorem accounts_inspect (v : View) (covered : SessionSet) {c : Constraint}
    (plain : ¬ c.countsMeetings) : (v.inspect covered c).Accounts c.shown := by
  cases c with
  | repeatEncounter limit penalty weight => exact v.accounts_repeatEncounter limit penalty weight
  | rule r => exact accounts_inspectRule v _ plain
  | unknown => exact accounts_clear

theorem filterMap_metIn?_pairMeetingCount (v : View) (first second : String) (target : Nat)
    (mode : MeetingMode) (sessions : List Nat) :
    (v.pairMeetingCount first second target mode sessions).findings.filterMap Finding.metIn? =
      sessions.filter (v.meet first second) := by
  rw [pairMeetingCount, List.filterMap_cons_none rfl, List.filterMap_map]
  induction sessions with
  | nil => rfl
  | cons t rest ih => cases met : v.meet first second t <;> simp [Finding.metIn?, met, ih]

end View

/-- The violations on a card are those its findings show, one or more each, so that a card without
findings is one that adheres. A meeting count is noted down as a summary and then one record for
each covered session, and its violations follow from the number of meetings recorded. -/
theorem violations_recounted {p : Problem} {s : Schedule} {cards : List Card}
    (h : p.evaluate s = .ok cards) {card : Card} (hc : card ∈ cards) :
    (card.adheres ↔ card.violations = 0) ∧
    (¬ card.constraint.countsMeetings →
      card.violations = total (card.findings.map card.constraint.shown) ∧
      (∀ f ∈ card.findings, 1 ≤ card.constraint.shown f) ∧
      (card.adheres ↔ card.findings = [])) ∧
    ∀ first second target mode weight listed,
      card.constraint = .rule (.pairMeetingCount first second target mode weight) listed →
        ∃ (actual : Nat) (together : Nat → Bool) (places : Nat → Option String × Option String),
          card.findings =
            .pairMeetingSummary (first, second) target actual mode
                (card.constraint.covered p.sessionCount).toList ::
              (card.constraint.covered p.sessionCount).toList.map (fun t =>
                .pairMeetingSession t (first, second) (together t) (places t)) ∧
          actual = (card.findings.filterMap Finding.metIn?).length ∧
          card.violations = mode.deviation target actual := by
  obtain ⟨-, -, rfl⟩ := Problem.evaluate_eq_ok.1 h
  obtain ⟨⟨c, index⟩, -, rfl⟩ := List.mem_map.1 hc
  have adheres : ∀ card : Card, card.adheres ↔ card.violations = 0 := fun _ => beq_iff_eq
  refine ⟨adheres _, fun plain => ?_, ?_⟩
  · have accounts := (View.of p s).accounts_inspect (c.covered p.sessionCount) plain
    exact ⟨accounts.violations, accounts.positive, (adheres _).trans accounts.violations_eq_zero⟩
  · intro first second target mode weight listed same
    dsimp only at same
    subst same
    exact ⟨_, _, _, rfl,
      congrArg List.length (View.filterMap_metIn?_pairMeetingCount _ _ _ _ _ _).symm, rfl⟩

def gallery : Problem where
  people := [⟨"a", .ofList [("role", "lead")], none⟩, ⟨"b", .empty, none⟩, ⟨"c", .empty, none⟩]
  groups := [⟨"y", 2⟩, ⟨"x", 2⟩]
  sessionCount := 2
  constraints := [.repeatEncounter 1,
    .rule (.attributeBalance "x" "role" (.ofList [("lead", 3), ("none", 0)])),
    .rule (.immovablePerson "a" "y") (some [3, 1]), .rule (.immovablePeople ["b", "c"] "x"),
    .rule (.mustStayTogether ["a", "b", "guest"]), .rule (.shouldNotBeTogether ["a", "b", "c"]),
    .rule (.pairMeetingCount "b" "a" 3), .unknown]

def gallerySeats : Schedule :=
  .ofAssignments [⟨"b", "x", 0⟩, ⟨"a", "x", 0⟩, ⟨"c", "x", 0⟩, ⟨"guest", "hall", 0⟩, ⟨"a", "y", 0⟩,
    ⟨"b", "x", 1⟩, ⟨"a", "x", 1⟩]

theorem violations_recounted_gallery :
    ∃ cards, gallery.evaluate gallerySeats = .ok cards ∧
      cards.map (·.violations) = [1, 4, 2, 1, 2, 3, 1, 0] ∧
      (∀ card ∈ cards, ¬ card.constraint.countsMeetings →
        card.violations = total (card.findings.map card.constraint.shown) ∧
        (card.adheres ↔ card.findings = [])) ∧
      ∃ card ∈ cards, card.constraint = .rule (.pairMeetingCount "b" "a" 3) ∧
        card.findings = [.pairMeetingSummary ("b", "a") 3 2 .atLeast [0, 1],
          .pairMeetingSession 0 ("b", "a") true (some "x", some "x"),
          .pairMeetingSession 1 ("b", "a") true (some "x", some "x")] := by
  have evaluated : gallery.evaluate gallerySeats = .ok (gallery.cards gallerySeats) :=
    Problem.evaluate_eq_ok.2 ⟨by decide, by decide +kernel, rfl⟩
  refine ⟨_, evaluated, by decide +kernel, fun card hc plain => ?_, by decide +kernel⟩
  obtain ⟨-, recounted, -⟩ := violations_recounted evaluated hc
  obtain ⟨counted, -, adheres⟩ := recounted plain
  exact ⟨counted, adheres⟩

end Roster
