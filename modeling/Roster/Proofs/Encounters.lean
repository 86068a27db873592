import Roster.Proofs.Meetings
import Roster.Proofs.Recount

/-! A limit on encounters against the same limit for each pair of people. The one goes through the
groups of a schedule, the other looks two people up in every session; for assignments without a
defect they find the same. -/

namespace Roster

def Constraint.atMost (a b : String) (limit : Nat) : Constraint :=
  .rule (.pairMeetingCount a b limit .atMost)

namespace Problem

def sessionsMet (p : Problem) (l : List Assignment) (a b : String) : List Nat :=
  (SessionSet.below p.sessionCount).toList.filter ((View.of p (.ofAssignments l)).meet a b)

def overMet (p : Problem) (l : List Assignment) (limit : Nat) (a b : String) : Verdict :=
  (View.of p (.ofAssignments l)).inspect (.below p.sessionCount) (.atMost a b limit)

def couples (p : Problem) : Finset (String × String) :=
  ((p.people.map (·.id)).toFinset ×ˢ (p.people.map (·.id)).toFinset).filter fun e => e.1 < e.2

variable {p : Problem} {l : List Assignment} {limit : Nat} {a b : String}

theorem mem_couples {e : String × String} :
    e ∈ p.couples ↔ (p.declaresPerson e.1 ∧ p.declaresPerson e.2) ∧ e.1 < e.2 := by
  simp [couples, declaresPerson]

theorem sessionsMet_comm (p : Problem) (l : List Assignment) (a b : String) :
    p.sessionsMet l a b = p.sessionsMet l b a := by
  rw [sessionsMet, sessionsMet, View.meet_comm]

theorem eraseReps_sessionsMet : (p.sessionsMet l a b).eraseReps = p.sessionsMet l a b :=
  eraseReps_of_nodup (((SessionSet.below p.sessionCount).ascending.filter _).imp Nat.ne_of_lt)

theorem violations_overMet :
    (p.overMet l limit a b).violations = (p.sessionsMet l a b).length - limit := rfl

theorem filterMap_metIn?_overMet :
    (p.overMet l limit a b).findings.filterMap Finding.metIn? = p.sessionsMet l a b :=
  View.filterMap_metIn?_pairMeetingCount _ a b limit .atMost _

theorem mem_summary_overMet {actual : Nat} {covered : List Nat} :
    .pairMeetingSummary (a, b) limit actual .atMost covered ∈ (p.overMet l limit a b).findings ↔
      actual = (p.sessionsMet l a b).length ∧
        covered = (SessionSet.below p.sessionCount).toList := by
  simp [overMet, Constraint.atMost, View.inspect, View.inspectRule, View.pairMeetingCount,
    sessionsMet]

section Sound

variable (sound : p.assignmentDefects l = [])

include sound

theorem known_of_meet {t : Nat} (met : (View.of p (.ofAssignments l)).meet a b t) :
    p.declaresPerson a ∧ p.declaresPerson b ∧ t < p.sessionCount ∧
      t ∈ (Schedule.ofAssignments l).sessions.entries.map Prod.fst := by
  obtain ⟨knows, once⟩ := assignmentDefects_eq_nil.1 sound
  obtain ⟨group, first, second⟩ := (View.meet_iff once.orderly).1 met
  have ka := knows _ (Schedule.mem_peopleIn_ofAssignments.1 first)
  have kb := knows _ (Schedule.mem_peopleIn_ofAssignments.1 second)
  obtain ⟨groups, here, -⟩ := Schedule.mem_peopleIn.1 first
  exact ⟨ka.person, kb.person, ka.session,
    List.mem_map_of_mem ((SortedMap.mem_entries_iff _ t groups).2 here)⟩

theorem valuesOf_meetings_eq (smaller : a < b) :
    SortedMap.valuesOf (Schedule.ofAssignments l).meetings (a, b) = p.sessionsMet l a b := by
  have keys : ((Schedule.ofAssignments l).sessions.entries.map Prod.fst).Pairwise (· < ·) :=
    List.pairwise_map.2 (Schedule.ofAssignments l).sessions.ascending
  rw [View.valuesOf_meetings_of_orderly p (assignmentDefects_eq_nil.1 sound).2.orderly smaller]
  refine eq_of_mem_iff_of_ascending (keys.filter _)
    ((SessionSet.below p.sessionCount).ascending.filter _) fun t => ?_
  rw [List.mem_filter, sessionsMet, List.mem_filter, ← SessionSet.mem_def, SessionSet.mem_below]
  refine and_congr_left fun met => ?_
  obtain ⟨-, -, inside, present⟩ := known_of_meet sound met
  exact iff_of_true present inside

theorem valuesOf_meetings_couple {e : String × String} (couple : e ∈ p.couples) :
    SortedMap.valuesOf (Schedule.ofAssignments l).meetings e = p.sessionsMet l e.1 e.2 :=
  valuesOf_meetings_eq sound (mem_couples.1 couple).2

theorem mem_couples_of_meetings {e : String × String}
    (met : SortedMap.valuesOf (Schedule.ofAssignments l).meetings e ≠ []) : e ∈ p.couples := by
  have smaller := Schedule.lt_of_valuesOf_meetings met
  obtain ⟨t, ht⟩ := List.exists_mem_of_ne_nil _ met
  have together : t ∈ p.sessionsMet l e.1 e.2 := valuesOf_meetings_eq sound smaller ▸ ht
  obtain ⟨first, second, -⟩ := known_of_meet sound (List.mem_filter.1 together).2
  exact mem_couples.2 ⟨⟨first, second⟩, smaller⟩

theorem violations_repeatEncounter_eq :
    ((View.of p (.ofAssignments l)).repeatEncounter limit).violations =
      ∑ e ∈ p.couples, (p.overMet l limit e.1 e.2).violations := by
  rw [View.violations_repeatEncounter _ limit fun e => mem_couples_of_meetings sound]
  refine Finset.sum_congr rfl fun e couple => ?_
  rw [View.schedule_of, violations_overMet, valuesOf_meetings_couple sound couple]

theorem violations_overMet_le (apart : a ≠ b) : (p.overMet l limit a b).violations ≤
    ((View.of p (.ofAssignments l)).repeatEncounter limit).violations := by
  wlog smaller : a < b generalizing a b
  · have turned : b < a := Std.lt_of_le_of_ne (Std.not_lt.1 smaller) apart.symm
    rw [violations_overMet, sessionsMet_comm]
    exact this apart.symm turned
  · rw [violations_repeatEncounter_eq sound]
    by_cases met : SortedMap.valuesOf (Schedule.ofAssignments l).meetings (a, b) = []
    · rw [violations_overMet, ← valuesOf_meetings_eq sound smaller, met, List.length_nil,
        Nat.zero_sub]
      exact Nat.zero_le _
    · exact Finset.single_le_sum
        (f := fun e : String × String => (p.overMet l limit e.1 e.2).violations)
        (fun _ _ => Nat.zero_le _) (mem_couples_of_meetings sound met)

theorem mem_findings_repeatEncounter_iff {f : Finding} :
    f ∈ ((View.of p (.ofAssignments l)).repeatEncounter limit).findings ↔
      ∃ e ∈ p.couples, 0 < (p.overMet l limit e.1 e.2).violations ∧
        ∃ actual covered,
          .pairMeetingSummary e limit actual .atMost covered ∈
            (p.overMet l limit e.1 e.2).findings ∧
          f = .repeatEncounter e actual limit
            ((p.overMet l limit e.1 e.2).findings.filterMap Finding.metIn?) := by
  rw [View.mem_findings_repeatEncounter, View.schedule_of]
  constructor
  · intro h
    obtain ⟨e, excess, rfl⟩ := h
    have couple : e ∈ p.couples := mem_couples_of_meetings sound fun never => by
      simp [never] at excess
    rw [valuesOf_meetings_couple sound couple] at excess ⊢
    refine ⟨e, couple, excess, _, _, mem_summary_overMet.2 ⟨rfl, rfl⟩, ?_⟩
    rw [filterMap_metIn?_overMet, eraseReps_sessionsMet]
  · intro h
    obtain ⟨e, couple, excess, actual, covered, summary, rfl⟩ := h
    obtain ⟨rfl, -⟩ := mem_summary_overMet.1 summary
    refine ⟨e, ?_⟩
    rw [valuesOf_meetings_couple sound couple, filterMap_metIn?_overMet, eraseReps_sessionsMet]
    exact ⟨excess, rfl⟩

end Sound

end Problem

/-- For assignments without a defect, a limit on encounters is violated as often as the same limit
for each pair of people together, and it reports the pairs whose limit is violated, each with the
number and the sessions of their meetings. -/
theorem judge_repeatEncounter {p : Problem} {l : List Assignment}
    (sound : p.assignmentDefects l = []) (limit : Nat) (penalty : PenaltyFunction)
    (weight : Binary64) :
    (∀ pair : String → String → Verdict,
      (∀ a b, a ≠ b → p.judge (.ofAssignments l) (.atMost a b limit) = .ok (pair a b)) →
      ∑ e ∈ p.couples, (pair e.1 e.2).violations < countLimit →
      ∃ verdict, p.judge (.ofAssignments l) (.repeatEncounter limit penalty weight) = .ok verdict) ∧
    ∀ verdict, p.judge (.ofAssignments l) (.repeatEncounter limit penalty weight) = .ok verdict →
      ∃ pair : String → String → Verdict,
        (∀ a b, a ≠ b → p.judge (.ofAssignments l) (.atMost a b limit) = .ok (pair a b)) ∧
        (∀ a b, (pair b a).violations = (pair a b).violations ∧
          (pair b a).findings.filterMap Finding.metIn? =
            (pair a b).findings.filterMap Finding.metIn?) ∧
        verdict.violations = ∑ e ∈ p.couples, (pair e.1 e.2).violations ∧
        ∀ f, f ∈ verdict.findings ↔ ∃ e ∈ p.couples, 0 < (pair e.1 e.2).violations ∧
          ∃ actual covered,
            .pairMeetingSummary e limit actual .atMost covered ∈ (pair e.1 e.2).findings ∧
            f = .repeatEncounter e actual limit
              ((pair e.1 e.2).findings.filterMap Finding.metIn?) := by
  constructor
  · intro pair judged fits
    have first := judged "" "a" (by decide)
    refine ⟨_, Problem.judge_eq_ok.2 ⟨⟨(Problem.judge_eq_ok.1 first).1.1, ?_⟩, rfl⟩⟩
    rw [View.inspect, Problem.violations_repeatEncounter_eq sound]
    refine (Finset.sum_congr rfl fun e couple => ?_).trans_lt fits
    have apart := Std.ne_of_lt (Problem.mem_couples.1 couple).2
    rw [(Problem.judge_eq_ok.1 (judged e.1 e.2 apart)).2]
    rfl
  · intro verdict judged
    obtain ⟨⟨listable, fits⟩, rfl⟩ := Problem.judge_eq_ok.1 judged
    refine ⟨p.overMet l limit, ?_, ?_, Problem.violations_repeatEncounter_eq sound,
      fun f => Problem.mem_findings_repeatEncounter_iff sound⟩
    · intro a b apart
      have least : (p.overMet l limit a b).violations ≤ _ :=
        Problem.violations_overMet_le sound apart
      exact Problem.judge_eq_ok.2 ⟨⟨listable, least.trans_lt fits⟩, rfl⟩
    · intro a b
      rw [Problem.filterMap_metIn?_overMet, Problem.filterMap_metIn?_overMet,
        Problem.violations_overMet, Problem.violations_overMet, p.sessionsMet_comm l b a]
      exact ⟨rfl, rfl⟩

def league : Problem where
  people := [⟨"c", .empty, none⟩, ⟨"a", .empty, none⟩, ⟨"b", .empty, none⟩, ⟨"new", .empty, none⟩]
  groups := [⟨"y", 3⟩, ⟨"x", 3⟩]
  sessionCount := 4

def leagueSeats : List Assignment :=
  [⟨"b", "x", 0⟩, ⟨"c", "x", 0⟩, ⟨"a", "x", 0⟩, ⟨"a", "y", 2⟩, ⟨"b", "y", 2⟩, ⟨"c", "x", 2⟩,
    ⟨"a", "x", 1⟩, ⟨"b", "x", 1⟩, ⟨"a", "y", 3⟩, ⟨"b", "x", 3⟩, ⟨"c", "y", 3⟩]

theorem judge_repeatEncounter_league :
    league.assignmentDefects leagueSeats = [] ∧
    ∃ (verdict : Verdict) (pair : String → String → Verdict),
      league.judge (.ofAssignments leagueSeats) (.repeatEncounter 1) = .ok verdict ∧
      league.judge (.ofAssignments leagueSeats) (.atMost "b" "a" 1) = .ok (pair "b" "a") ∧
      (pair "b" "a").violations = (pair "a" "b").violations ∧
      verdict.violations = 3 ∧
      verdict.violations = ∑ e ∈ league.couples, (pair e.1 e.2).violations ∧
      verdict.findings = [.repeatEncounter ("a", "b") 3 1 [0, 1, 2],
        .repeatEncounter ("a", "c") 2 1 [0, 3]] := by
  have sound : league.assignmentDefects leagueSeats = [] := by decide
  have judged : league.judge (.ofAssignments leagueSeats) (.repeatEncounter 1) =
      .ok ((View.of league (.ofAssignments leagueSeats)).repeatEncounter 1) :=
    Problem.judge_eq_ok.2 ⟨⟨by decide, by decide +kernel⟩, rfl⟩
  obtain ⟨pair, each, turned, added, -⟩ := (judge_repeatEncounter sound 1 .linear .one).2 _ judged
  exact ⟨sound, _, pair, judged, each "b" "a" (by decide), (turned "a" "b").1, by decide +kernel,
    added, by decide +kernel⟩

end Roster
