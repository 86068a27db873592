import Mathlib.Data.List.Nodup
import Roster.Proofs.BySession

/-! Keeping people apart, counted by people and counted by entries. In each group the rule counts
the entries of its list that name someone there, beyond the first. These are the different people
beyond the first as long as nobody who sits in a covered session is listed twice; someone who is
counts as their own company. -/

namespace Roster

theorem length_sub_one_eq {α : Type} [DecidableEq α] (l : List α) :
    l.length - 1 = (l.toFinset.card - 1) + (l.length - l.toFinset.card) := by
  have fewer := List.toFinset_card_le l
  cases l with
  | nil => rfl
  | cons a rest =>
    have some : 0 < (a :: rest).toFinset.card := Finset.card_pos.2 ⟨a, by simp⟩
    omega

theorem length_sub_card_eq_zero {α : Type} [DecidableEq α] {l : List α} :
    l.length - l.toFinset.card = 0 ↔ l.Nodup := by
  have fewer := List.toFinset_card_le l
  rw [← Multiset.coe_nodup, ← Multiset.toFinset_card_eq_card_iff_nodup, Multiset.coe_card,
    List.toFinset_coe]
  omega

def heads (people members : List String) : Nat := (people.toFinset.filter (· ∈ members)).card

theorem heads_eq (people members : List String) :
    heads people members = (people.filter (· ∈ members)).toFinset.card := by
  simp [heads, List.toFinset_filter]

theorem heads_eq_length {people members : List String}
    (once : (people.filter (· ∈ members)).Nodup) :
    heads people members = (people.filter (· ∈ members)).length := by
  rw [heads_eq, List.toFinset_card_of_nodup once]

theorem nodup_filter_mem_iff {people members : List String} :
    (people.filter (· ∈ members)).Nodup ↔ ∀ person, 1 < people.count person → person ∉ members := by
  rw [List.nodup_iff_count_le_one]
  refine forall_congr' fun person => ?_
  by_cases here : person ∈ members
  · rw [List.count_filter (by simpa using here)]
    simp [here]
  · rw [List.count_eq_zero.2 (by simp [here])]
    simp [here]

namespace Schedule

variable {s : Schedule} {people : List String} {t : Nat}

/-- Different people of a list beyond the first in each group of a session. -/
def crowding (s : Schedule) (people : List String) (t : Nat) : Nat :=
  total (((s.session? t).getD .empty).entries.map fun e => heads people e.2 - 1)

def echoes (s : Schedule) (people : List String) (t : Nat) : Nat :=
  total (((s.session? t).getD .empty).entries.map fun e =>
    (people.filter (· ∈ e.2)).length - heads people e.2)

theorem unseated_iff {person : String} : s.Unseated t person ↔
    ∀ e ∈ ((s.session? t).getD .empty).entries, person ∉ e.2 := by
  simp only [Unseated, mem_peopleIn_iff_exists_entry, not_exists, not_and, Prod.forall]

theorem echoes_eq_zero : s.echoes people t = 0 ↔
    ∀ person, 1 < people.count person → s.Unseated t person := by
  simp only [echoes, total_eq_zero, List.forall_mem_map, unseated_iff, heads_eq,
    length_sub_card_eq_zero, nodup_filter_mem_iff]
  exact ⟨fun once person again e he => once e he person again,
    fun unseated e he person again => unseated person again e he⟩

end Schedule

namespace View

theorem violations_notTogether_eq (p : Problem) (s : Schedule) (people : List String) (t : Nat) :
    ((of p s).notTogether people t).violations = s.crowding people t + s.echoes people t := by
  rw [notTogether_eq_visits, Verdict.violations_sum_map]
  simp only [Verdict.violations_ofFinding]
  rw [total_perm ((inDeclaredOrder_perm _ _).map _), Schedule.crowding, Schedule.echoes,
    ← total_map_add]
  refine congrArg total (List.map_congr_left fun e _ => ?_)
  rw [heads_eq]
  exact length_sub_one_eq _

theorem mem_findings_notTogether {p : Problem} {s : Schedule} {people : List String} {t : Nat}
    {f : Finding} : f ∈ ((of p s).notTogether people t).findings ↔
      ∃ group, 2 ≤ (people.filter (· ∈ s.peopleIn t group)).length ∧
        f = .notTogether t group (people.filter (· ∈ s.peopleIn t group)) := by
  rw [notTogether_eq_company, Verdict.sum_map_ofFinding]
  simp only [List.mem_map, List.mem_filter, mem_inDeclaredOrder, decide_eq_true_eq, schedule_of,
    Prod.exists, SortedMap.mem_entries_iff, Schedule.get?_company, occupied?_eq_some]
  constructor
  · intro h
    obtain ⟨group, _, ⟨⟨rfl, -⟩, several⟩, rfl⟩ := h
    exact ⟨group, by omega, rfl⟩
  · intro h
    obtain ⟨group, several, rfl⟩ := h
    refine ⟨group, _, ⟨⟨rfl, fun nobody => ?_⟩, by omega⟩, rfl⟩
    rw [nobody] at several
    simp at several

end View

/-- People who are to be kept apart are counted by the entries that name them. That comes to the
different people beyond the first of each group, and to the echoes besides; there are none exactly
where nobody who sits in a covered session is listed twice. Each group with two entries or more is
noted down, which without echoes takes two different people. -/
theorem judge_shouldNotBeTogether (p : Problem) (s : Schedule) {c : Constraint}
    {people : List String} {weight : Binary64} {listed : Option (List Nat)}
    (apart : c = .rule (.shouldNotBeTogether people weight) listed) :
    ((∃ verdict, p.judge s c = .ok verdict) ↔ c.Listable p.sessionCount ∧
      total ((c.covered p.sessionCount).toList.map (s.crowding people)) +
        total ((c.covered p.sessionCount).toList.map (s.echoes people)) < countLimit) ∧
    ∀ verdict, p.judge s c = .ok verdict →
      verdict.violations = total ((c.covered p.sessionCount).toList.map (s.crowding people)) +
        total ((c.covered p.sessionCount).toList.map (s.echoes people)) ∧
      (∀ f, f ∈ verdict.findings ↔ ∃ t ∈ c.covered p.sessionCount, ∃ group,
        2 ≤ (people.filter (· ∈ s.peopleIn t group)).length ∧
          f = .notTogether t group (people.filter (· ∈ s.peopleIn t group))) ∧
      (verdict.violations = total ((c.covered p.sessionCount).toList.map (s.crowding people)) ↔
        ∀ t ∈ c.covered p.sessionCount, ∀ person, 1 < people.count person → s.Unseated t person) ∧
      ((∀ t ∈ c.covered p.sessionCount, ∀ person, 1 < people.count person → s.Unseated t person) →
        ∀ t group names, .notTogether t group names ∈ verdict.findings →
          2 ≤ heads people (s.peopleIn t group)) := by
  have inspected : (View.of p s).inspect (c.covered p.sessionCount) c =
      .sum ((c.covered p.sessionCount).toList.map ((View.of p s).notTogether people)) := by
    rw [apart]
    rfl
  have counted : ((View.of p s).inspect (c.covered p.sessionCount) c).violations =
      total ((c.covered p.sessionCount).toList.map (s.crowding people)) +
        total ((c.covered p.sessionCount).toList.map (s.echoes people)) := by
    rw [inspected, Verdict.violations_sum_map, ← total_map_add]
    simp only [View.violations_notTogether_eq]
  have noted : ∀ f, f ∈ ((View.of p s).inspect (c.covered p.sessionCount) c).findings ↔
      ∃ t ∈ c.covered p.sessionCount, ∃ group,
        2 ≤ (people.filter (· ∈ s.peopleIn t group)).length ∧
          f = .notTogether t group (people.filter (· ∈ s.peopleIn t group)) := by
    intro f
    rw [inspected, Verdict.sum, List.flatMap_map, List.mem_flatMap]
    simp only [View.mem_findings_notTogether, SessionSet.mem_def]
  refine ⟨?_, fun verdict judged => ?_⟩
  · rw [Problem.exists_judge_eq_ok_iff, counted]
  · obtain ⟨-, rfl⟩ := Problem.judge_eq_ok.1 judged
    refine ⟨counted, noted, ?_, ?_⟩
    · rw [counted, Nat.add_eq_left, total_eq_zero, List.forall_mem_map]
      simp only [Schedule.echoes_eq_zero, SessionSet.mem_def]
    · intro unseated t group names reported
      obtain ⟨t', covered, group', several, same⟩ := (noted _).1 reported
      obtain ⟨rfl, rfl, -⟩ := Finding.notTogether.inj same
      rwa [heads_eq_length (nodup_filter_mem_iff.2 fun person again =>
        unseated t covered person again group)]

def recital : Problem where
  people := [⟨"a", .empty, none⟩, ⟨"b", .empty, none⟩, ⟨"c", .empty, none⟩]
  groups := [⟨"x", 2⟩]
  sessionCount := 2

def recitalSeats : Schedule := .ofAssignments [⟨"a", "x", 0⟩, ⟨"b", "x", 1⟩, ⟨"c", "x", 1⟩]

theorem judge_shouldNotBeTogether_recital :
    (∃ verdict, recital.judge recitalSeats (.rule (.shouldNotBeTogether ["a", "b", "a", "c"])) =
        .ok verdict ∧ verdict.violations = 2 ∧
      .notTogether 0 "x" ["a", "a"] ∈ verdict.findings) ∧
    ∃ verdict, recital.judge recitalSeats
        (.rule (.shouldNotBeTogether ["a", "b", "a", "c"]) (some [1])) = .ok verdict ∧
      verdict.violations = recitalSeats.crowding ["a", "b", "a", "c"] 1 ∧
      verdict.violations = 1 := by
  obtain ⟨given, whole⟩ := judge_shouldNotBeTogether recital recitalSeats
    (c := .rule (.shouldNotBeTogether ["a", "b", "a", "c"])) rfl
  obtain ⟨givenLater, later⟩ := judge_shouldNotBeTogether recital recitalSeats
    (c := .rule (.shouldNotBeTogether ["a", "b", "a", "c"]) (some [1])) rfl
  refine ⟨?_, ?_⟩
  · obtain ⟨verdict, judged⟩ := given.2 ⟨by decide, by decide +kernel⟩
    obtain ⟨counted, noted, -⟩ := whole verdict judged
    exact ⟨verdict, judged, counted.trans (by decide +kernel),
      (noted _).2 ⟨0, by decide, "x", by decide +kernel⟩⟩
  · obtain ⟨verdict, judged⟩ := givenLater.2 ⟨by decide, by decide +kernel⟩
    have counted := (later verdict judged).1
    exact ⟨verdict, judged, counted.trans (by decide +kernel), counted.trans (by decide +kernel)⟩

/-- Someone listed twice who sits alone is taken for two people sharing the group. -/
theorem judge_shouldNotBeTogether_alone :
    recital.judge recitalSeats (.rule (.shouldNotBeTogether ["a", "a"]) (some [0])) =
      .ok ⟨1, [.notTogether 0 "x" ["a", "a"]]⟩ ∧
    recitalSeats.crowding ["a", "a"] 0 = 0 ∧
    heads ["a", "a"] (recitalSeats.peopleIn 0 "x") = 1 := by
  decide +kernel

end Roster
