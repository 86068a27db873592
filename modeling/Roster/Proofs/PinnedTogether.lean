import Roster.Proofs.HardRules
import Roster.Proofs.Scope

/-! People pinned to a group by one rule against the same people pinned by a rule each. The one
rule asks who is listed in the group, the others where each of them is found, which is in the first
of the groups that list them. So the one rule finds less, by the sessions in which someone is also
in a group before the one they are pinned to. -/

namespace Roster

namespace Schedule

variable {s : Schedule} {t : Nat} {person group : String}

/-- Someone is in the group but found in another one, which comes before it. -/
def Shadowed (s : Schedule) (person group : String) (t : Nat) : Prop :=
  person ∈ s.peopleIn t group ∧ ∃ other, other < group ∧ person ∈ s.peopleIn t other

theorem shadowed_iff : s.Shadowed person group t ↔
    person ∈ s.peopleIn t group ∧ s.groupOf? t person ≠ some group := by
  refine and_congr_right fun here => ?_
  rw [ne_eq, groupOf?_eq_some, and_iff_right here]
  simp only [not_forall, Std.not_le, exists_prop, and_comm]

instance (s : Schedule) (person group : String) : DecidablePred (s.Shadowed person group) :=
  fun _ => decidable_of_iff _ shadowed_iff.symm

theorem Settled.not_shadowed (settled : s.Settled t person) : ¬ s.Shadowed person group t := by
  intro shadowed
  obtain ⟨here, other, before, there⟩ := shadowed
  rw [settled group other here there] at before
  exact Std.lt_irrefl before

def missing (s : Schedule) (person group : String) (sessions : List Nat) : List Nat :=
  sessions.filter fun t => person ∉ s.peopleIn t group

def astray (s : Schedule) (person group : String) (sessions : List Nat) : List Nat :=
  sessions.filter fun t => s.groupOf? t person ≠ some group

theorem length_astray (s : Schedule) (person group : String) (sessions : List Nat) :
    (s.astray person group sessions).length = (s.missing person group sessions).length +
      (sessions.filter (s.Shadowed person group ·)).length := by
  have listed : ∀ t, s.groupOf? t person = some group → person ∈ s.peopleIn t group :=
    fun t found => (groupOf?_eq_some.1 found).1
  rw [astray, missing, List.length_eq_length_filter_add fun t => person ∉ s.peopleIn t group,
    List.filter_filter, List.filter_filter]
  congr 2
  · refine List.filter_congr fun t _ => ?_
    have here := listed t
    grind
  · simp [shadowed_iff]

theorem total_astray (s : Schedule) (people : List String) (group : String) (sessions : List Nat) :
    total (people.map fun person => (s.astray person group sessions).length) =
      total (people.map fun person => (s.missing person group sessions).length) +
        total (people.map fun person => (sessions.filter (s.Shadowed person group ·)).length) := by
  simp only [length_astray, total_map_add]

theorem total_shadowed_eq_zero {people : List String} {sessions : List Nat}
    (settled : ∀ t ∈ sessions, ∀ person ∈ people, s.Settled t person) :
    total (people.map fun person => (sessions.filter (s.Shadowed person group ·)).length) = 0 := by
  refine total_eq_zero.2 (List.forall_mem_map.2 fun person named => ?_)
  rw [List.length_eq_zero_iff, List.filter_eq_nil_iff]
  intro t covered shadowed
  exact (settled t covered person named).not_shadowed (of_decide_eq_true shadowed)

end Schedule

namespace View

theorem violations_inspectRule_immovablePerson (p : Problem) (s : Schedule) (person group : String)
    (sessions : List Nat) :
    ((of p s).inspectRule sessions (.immovablePerson person group)).violations =
      (s.astray person group sessions).length := by
  have each : ∀ t, ((of p s).immovablePerson person group t).violations =
      if s.groupOf? t person ≠ some group then 1 else 0 := by
    intro t
    rw [immovablePerson, groupOf?_of]
    by_cases found : s.groupOf? t person = some group
    · simp [found, Verdict.clear]
    · simp [found]
  rw [inspectRule, Verdict.violations_sum_map]
  simp only [each]
  rw [total_map_ite, Nat.one_mul, Schedule.astray]

theorem violations_inspectRule_immovablePeople (p : Problem) (s : Schedule) (people : List String)
    (group : String) (sessions : List Nat) :
    ((of p s).inspectRule sessions (.immovablePeople people group)).violations =
      total (people.map fun person => (s.missing person group sessions).length) := by
  rw [inspectRule, Verdict.violations_sum_map]
  simp only [violations_immovablePeople]
  exact total_length_filter_comm (fun t person => person ∉ s.peopleIn t group) sessions people

end View

/-- People pinned to a group by one rule are judged as if each entry were pinned by a rule of its
own, but for the sessions in which one of them is shadowed; those count for the single rules only.
So where nobody is in two groups at once the two ways come to the same. -/
theorem judge_immovablePeople_le (p : Problem) (s : Schedule) {c : Constraint}
    {people : List String} {group : String} {listed : Option (List Nat)}
    (pins : c = .rule (.immovablePeople people group) listed) :
    ((∃ whole, p.judge s c = .ok whole) ↔ c.Listable p.sessionCount ∧
      total (people.map fun person =>
        (s.missing person group (c.covered p.sessionCount).toList).length) < countLimit) ∧
    (∀ person, (∃ single, p.judge s (.rule (.immovablePerson person group) listed) = .ok single) ↔
      c.Listable p.sessionCount ∧
        (s.astray person group (c.covered p.sessionCount).toList).length < countLimit) ∧
    ∀ (whole : Verdict) (single : String → Verdict), p.judge s c = .ok whole →
      (∀ person ∈ people,
        p.judge s (.rule (.immovablePerson person group) listed) = .ok (single person)) →
      whole.violations ≤ total (people.map fun person => (single person).violations) ∧
      total (people.map fun person => (single person).violations) =
        whole.violations + total (people.map fun person =>
          ((c.covered p.sessionCount).toList.filter (s.Shadowed person group ·)).length) ∧
      ((∀ t ∈ c.covered p.sessionCount, ∀ person ∈ people, s.Settled t person) →
        whole.violations = total (people.map fun person => (single person).violations)) := by
  have found : ((View.of p s).inspect (c.covered p.sessionCount) c).violations =
      total (people.map fun person =>
        (s.missing person group (c.covered p.sessionCount).toList).length) := by
    rw [pins]
    exact View.violations_inspectRule_immovablePeople p s people group _
  have foundAlone : ∀ person, ((View.of p s).inspect (c.covered p.sessionCount)
      (.rule (.immovablePerson person group) listed)).violations =
        (s.astray person group (c.covered p.sessionCount).toList).length :=
    fun person => View.violations_inspectRule_immovablePerson p s person group _
  have covers : ∀ person, (Constraint.rule (.immovablePerson person group) listed).covered
      p.sessionCount = c.covered p.sessionCount := fun person => by rw [pins]; rfl
  have listable : ∀ person, (Constraint.rule (.immovablePerson person group) listed).Listable
      p.sessionCount ↔ c.Listable p.sessionCount := fun person => by rw [pins]; rfl
  refine ⟨?_, fun person => ?_, fun whole single judged each => ?_⟩
  · rw [← found]
    exact Problem.exists_judge_eq_ok_iff
  · rw [← foundAlone, ← listable person, ← covers person]
    exact Problem.exists_judge_eq_ok_iff
  · obtain ⟨-, rfl⟩ := Problem.judge_eq_ok.1 judged
    have alone : people.map (fun person => (single person).violations) =
        people.map fun person => (s.astray person group (c.covered p.sessionCount).toList).length :=
      List.map_congr_left fun person named => by
        obtain ⟨-, same⟩ := Problem.judge_eq_ok.1 (each person named)
        rw [same, covers, foundAlone]
    rw [alone, found, Schedule.total_astray]
    refine ⟨Nat.le_add_right _ _, rfl, fun settled => ?_⟩
    rw [Schedule.total_shadowed_eq_zero settled, Nat.add_zero]

def locker : Problem where
  people := [⟨"a", .empty, none⟩, ⟨"b", .empty, none⟩]
  groups := [⟨"y", 2⟩, ⟨"x", 2⟩]
  sessionCount := 2

def lockerSeats : Schedule :=
  .ofAssignments [⟨"a", "y", 0⟩, ⟨"a", "x", 0⟩, ⟨"b", "y", 0⟩, ⟨"a", "y", 1⟩, ⟨"b", "x", 5⟩]

theorem judge_immovablePeople_locker :
    (∃ whole, ∃ single : String → Verdict,
      locker.judge lockerSeats (.rule (.immovablePeople ["a", "b", "a"] "y")) = .ok whole ∧
      (∀ person ∈ ["a", "b", "a"],
        locker.judge lockerSeats (.rule (.immovablePerson person "y")) = .ok (single person)) ∧
      whole.violations = 1 ∧
      total (["a", "b", "a"].map fun person => (single person).violations) = 1 + 2) ∧
    (∀ t ∈ (Constraint.rule (.immovablePeople ["a", "b", "a"] "y") (some [5, 1, 5])).covered
      locker.sessionCount, ∀ person ∈ ["a", "b", "a"], lockerSeats.Settled t person) ∧
    ∃ whole, ∃ single : String → Verdict,
      locker.judge lockerSeats (.rule (.immovablePeople ["a", "b", "a"] "y") (some [5, 1, 5])) =
        .ok whole ∧
      (∀ person ∈ ["a", "b", "a"], locker.judge lockerSeats
        (.rule (.immovablePerson person "y") (some [5, 1, 5])) = .ok (single person)) ∧
      whole.violations = 4 ∧
      whole.violations = total (["a", "b", "a"].map fun person => (single person).violations) := by
  have settled : ∀ t ∈ (Constraint.rule (.immovablePeople ["a", "b", "a"] "y")
      (some [5, 1, 5])).covered locker.sessionCount,
        ∀ person ∈ ["a", "b", "a"], lockerSeats.Settled t person := by
    change ∀ t ∈ [1, 5], ∀ person ∈ ["a", "b", "a"], lockerSeats.Settled t person
    decide +kernel
  obtain ⟨-, -, agree⟩ := judge_immovablePeople_le locker lockerSeats
    (c := .rule (.immovablePeople ["a", "b", "a"] "y")) rfl
  obtain ⟨-, -, agreeLater⟩ := judge_immovablePeople_le locker lockerSeats
    (c := .rule (.immovablePeople ["a", "b", "a"] "y") (some [5, 1, 5])) rfl
  have judged : locker.judge lockerSeats (.rule (.immovablePeople ["a", "b", "a"] "y")) =
      .ok ⟨1, [.immovablePeople 1 "b" "y"]⟩ := by decide +kernel
  have each : ∀ person ∈ ["a", "b", "a"],
      locker.judge lockerSeats (.rule (.immovablePerson person "y")) =
        .ok (if person = "a" then ⟨1, [.immovablePerson 0 "a" "y" (some "x")]⟩
          else ⟨1, [.immovablePerson 1 "b" "y" none]⟩) := by decide +kernel
  have judgedLater : locker.judge lockerSeats
      (.rule (.immovablePeople ["a", "b", "a"] "y") (some [5, 1, 5])) =
        .ok ⟨4, [.immovablePeople 1 "b" "y", .immovablePeople 5 "a" "y",
          .immovablePeople 5 "b" "y", .immovablePeople 5 "a" "y"]⟩ := by decide +kernel
  have eachLater : ∀ person ∈ ["a", "b", "a"],
      locker.judge lockerSeats (.rule (.immovablePerson person "y") (some [5, 1, 5])) =
        .ok (if person = "a" then ⟨1, [.immovablePerson 5 "a" "y" none]⟩
          else ⟨2, [.immovablePerson 1 "b" "y" none, .immovablePerson 5 "b" "y" (some "x")]⟩) := by
    decide +kernel
  refine ⟨⟨_, _, judged, each, rfl, ?_⟩, settled, _, _, judgedLater, eachLater, rfl, ?_⟩
  · rw [(agree _ _ judged each).2.1]
    decide +kernel
  · exact (agreeLater _ _ judgedLater eachLater).2.2 settled

end Roster
