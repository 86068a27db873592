import Roster.Proofs.Count
import Roster.Proofs.Flatten

/-! Keeping people together against keeping them apart. Each person beyond the first of their
group is one who is not apart, and each group beyond the first one in which they are not
together. So the violations of the two add up to what the list of people alone would give, less
those of them who are nowhere. -/

namespace Roster

/-- Different places beyond the first, and entries beyond the first of each place that is some
place, come to all entries beyond the first, but for those beyond the first that are nowhere. -/
theorem places_add_repeats {places : List (Option String)} (someone : places ≠ []) :
    (places.toFinset.card - 1) + ∑ place ∈ places.toFinset.erase none, (places.count place - 1) =
      places.length - 1 - (places.count none - 1) := by
  have entries := sum_count_sub_one_add_card places
  have positive : 0 < places.toFinset.card :=
    Finset.card_pos.2 ((List.toFinset_nonempty_iff places).2 someone)
  by_cases away : none ∈ places
  · have split := Finset.sum_erase_add places.toFinset (fun place => places.count place - 1)
      (List.mem_toFinset.2 away)
    omega
  · rw [Finset.erase_eq_of_notMem (mt List.mem_toFinset.1 away), List.count_eq_zero.2 away]
    omega

namespace View

theorem mem_inDeclaredOrder (v : View) (groups : SessionGroups) (e : String × List String) :
    e ∈ v.inDeclaredOrder groups ↔ e ∈ groups.entries := by
  simp only [inDeclaredOrder, List.mem_append, List.mem_filterMap, List.mem_eraseDups,
    Option.map_eq_some_iff, List.mem_filter, decide_eq_true_eq]
  constructor
  · intro h
    obtain ⟨id, -, members, found, rfl⟩ | other := h
    · exact (groups.mem_entries_iff id members).2 found
    · exact other.1
  · intro entry
    by_cases declared : e.1 ∈ v.groups.map (·.id)
    · exact .inl ⟨e.1, declared, e.2, (groups.mem_entries_iff e.1 e.2).1 entry, rfl⟩
    · exact .inr ⟨entry, declared⟩

theorem inDeclaredOrder_perm (v : View) (groups : SessionGroups) :
    (v.inDeclaredOrder groups).Perm groups.entries := by
  have entries : groups.entries.Nodup := groups.nodup_entries
  refine (List.perm_ext_iff_of_nodup ?_ entries).2 (v.mem_inDeclaredOrder groups)
  refine List.Nodup.append ?_ (entries.filter _) ?_
  · refine (nodup_eraseDups _).filterMap fun id other e here there => ?_
    obtain ⟨_, -, rfl⟩ := Option.map_eq_some_iff.1 here
    obtain ⟨_, -, same⟩ := Option.map_eq_some_iff.1 there
    exact (Prod.mk.inj same).1.symm
  · intro e here there
    obtain ⟨id, declared, found⟩ := List.mem_filterMap.1 here
    obtain ⟨_, -, rfl⟩ := Option.map_eq_some_iff.1 found
    simpa [declared] using (List.mem_filter.1 there).2

variable {p : Problem} {s : Schedule} {people : List String} {t : Nat}

theorem length_filter_mem (settled : ∀ person ∈ people, s.Settled t person)
    {e : String × List String} (he : e ∈ (s.occupiedGroups t).entries) :
    (people.filter (· ∈ e.2)).length = (people.map (s.groupOf? t)).count (some e.1) := by
  rw [SortedMap.mem_entries_iff, Schedule.get?_occupiedGroups, occupied?_eq_some] at he
  rw [List.count_eq_length_filter, List.filter_map, List.length_map, he.1]
  refine congrArg List.length (List.filter_congr fun person listed => ?_)
  rw [Function.comp_apply, beq_eq_decide, decide_eq_decide]
  exact (settled person listed).groupOf?_eq_some.symm

theorem places_subset_occupiedGroups (s : Schedule) (people : List String) (t : Nat) :
    (people.map (s.groupOf? t)).toFinset.erase none ⊆
      ((s.occupiedGroups t).entries.map Prod.fst).toFinset.image some := by
  intro place named
  obtain ⟨somewhere, found⟩ := Finset.mem_erase.1 named
  obtain ⟨person, -, rfl⟩ := List.mem_map.1 (List.mem_toFinset.1 found)
  obtain ⟨group, here⟩ := Option.ne_none_iff_exists'.1 somewhere
  have entry : (group, s.peopleIn t group) ∈ (s.occupiedGroups t).entries := by
    rw [SortedMap.mem_entries_iff, Schedule.get?_occupiedGroups, occupied?_eq_some]
    exact ⟨rfl, List.ne_nil_of_mem (Schedule.groupOf?_eq_some.1 here).1⟩
  exact Finset.mem_image.2 ⟨group, List.mem_toFinset.2 (List.mem_map_of_mem entry), here.symm⟩

theorem violations_notTogether (settled : ∀ person ∈ people, s.Settled t person) :
    ((of p s).notTogether people t).violations =
      ∑ place ∈ (people.map (s.groupOf? t)).toFinset.erase none,
        ((people.map (s.groupOf? t)).count place - 1) := by
  have each : ∀ e ∈ (s.occupiedGroups t).entries, (people.filter (· ∈ e.2)).length - 1 =
      (people.map (s.groupOf? t)).count (some e.1) - 1 :=
    fun e he => congrArg (· - 1) (length_filter_mem settled he)
  have idle : ∀ place ∈ ((s.occupiedGroups t).entries.map Prod.fst).toFinset.image some,
      place ∉ (people.map (s.groupOf? t)).toFinset.erase none →
        (people.map (s.groupOf? t)).count place - 1 = 0 := by
    intro place declared absent
    obtain ⟨group, -, rfl⟩ := Finset.mem_image.1 declared
    have nobody : some group ∉ people.map (s.groupOf? t) := fun listed =>
      absent (Finset.mem_erase.2 ⟨by simp, List.mem_toFinset.2 listed⟩)
    rw [List.count_eq_zero.2 nobody]
  rw [notTogether_eq_occupiedGroups, Verdict.violations_sum_map]
  simp only [Verdict.violations_ofFinding]
  rw [total_perm ((inDeclaredOrder_perm _ _).map _), schedule_of, List.map_congr_left each,
    Finset.sum_subset (places_subset_occupiedGroups s people t) idle,
    Finset.sum_image fun _ _ _ _ => Option.some.inj, sum_toFinset (SortedMap.nodup_keys _),
    List.map_map]
  rfl

theorem violations_stayTogether (p : Problem) (s : Schedule) (people : List String) (t : Nat) :
    ((of p s).stayTogether people t).violations =
      (people.map (s.groupOf? t)).toFinset.card - 1 := by
  have places : people.map ((of p s).groupOf? t) = people.map (s.groupOf? t) :=
    List.map_congr_left fun person _ => groupOf?_of p s t person
  rw [stayTogether, Verdict.violations_ofFinding, places, length_eraseDups]

theorem violations_stayTogether_add_notTogether (p : Problem) (someone : people ≠ [])
    (settled : ∀ person ∈ people, s.Settled t person) :
    ((of p s).stayTogether people t).violations + ((of p s).notTogether people t).violations =
      people.length - 1 - ((people.filter (s.Unseated t ·)).length - 1) := by
  have away : (people.filter (s.Unseated t ·)).length =
      (people.map (s.groupOf? t)).count none := by
    rw [List.count_eq_length_filter, List.filter_map, List.length_map]
    refine congrArg List.length (List.filter_congr fun person _ => ?_)
    rw [Function.comp_apply, beq_eq_decide, decide_eq_decide]
    exact Schedule.groupOf?_eq_none.symm
  have places : people.map (s.groupOf? t) ≠ [] := mt List.map_eq_nil_iff.1 someone
  rw [violations_stayTogether, violations_notTogether settled, places_add_repeats places, away,
    List.length_map]

end View

/-- Keeping people together, strictly or not, and keeping the same people apart in the same
sessions are violated as often together as there are people beyond the first, but for those
beyond the first who are nowhere, where no one is in two groups at once. Someone listed twice
counts twice. -/
theorem judge_together_add_apart {p : Problem} {s : Schedule} {people : List String}
    (someone : people ≠ []) {listed : Option (List Nat)} {together : Rule}
    (keeps : together = .mustStayTogether people ∨
      ∃ weight, together = .shouldStayTogether people weight) (weight : Binary64)
    (settled : ∀ t ∈ (Constraint.rule together listed).covered p.sessionCount,
      ∀ person ∈ people, s.Settled t person) :
    ((Constraint.rule together listed).Listable p.sessionCount →
      total (((Constraint.rule together listed).covered p.sessionCount).toList.map fun t =>
        people.length - 1 - ((people.filter (s.Unseated t ·)).length - 1)) < countLimit →
      ∃ kept parted, p.judge s (.rule together listed) = .ok kept ∧
        p.judge s (.rule (.shouldNotBeTogether people weight) listed) = .ok parted) ∧
    ∀ kept parted, p.judge s (.rule together listed) = .ok kept →
      p.judge s (.rule (.shouldNotBeTogether people weight) listed) = .ok parted →
      kept.violations + parted.violations =
        total (((Constraint.rule together listed).covered p.sessionCount).toList.map fun t =>
          people.length - 1 - ((people.filter (s.Unseated t ·)).length - 1)) := by
  have covers : (Constraint.rule (.shouldNotBeTogether people weight) listed).covered
      p.sessionCount = (Constraint.rule together listed).covered p.sessionCount := rfl
  have found : ∀ sessions, (View.of p s).inspectRule sessions together =
      .sum (sessions.map ((View.of p s).stayTogether people)) := by
    obtain rfl | ⟨weight, rfl⟩ := keeps <;> exact fun _ => rfl
  have added : ((View.of p s).inspect ((Constraint.rule together listed).covered p.sessionCount)
          (.rule together listed)).violations +
        ((View.of p s).inspect ((Constraint.rule together listed).covered p.sessionCount)
          (.rule (.shouldNotBeTogether people weight) listed)).violations =
      total (((Constraint.rule together listed).covered p.sessionCount).toList.map fun t =>
        people.length - 1 - ((people.filter (s.Unseated t ·)).length - 1)) := by
    rw [View.inspect, View.inspect, found, View.inspectRule, Verdict.violations_sum_map,
      Verdict.violations_sum_map, ← total_map_add]
    refine congrArg total (List.map_congr_left fun t ht => ?_)
    exact View.violations_stayTogether_add_notTogether p someone (settled t ht)
  constructor
  · intro listable fits
    refine ⟨_, _, Problem.judge_eq_ok.2 ⟨⟨listable, ?_⟩, rfl⟩,
      Problem.judge_eq_ok.2 ⟨⟨listable, ?_⟩, rfl⟩⟩
    · omega
    · rw [covers]
      omega
  · intro kept parted first second
    obtain ⟨-, rfl⟩ := Problem.judge_eq_ok.1 first
    obtain ⟨-, rfl⟩ := Problem.judge_eq_ok.1 second
    exact added

def annex : Problem where
  people := [⟨"a", .empty, none⟩, ⟨"b", .empty, none⟩, ⟨"c", .empty, none⟩]
  groups := [⟨"y", 2⟩, ⟨"x", 2⟩]
  sessionCount := 2

def annexSeats : Schedule :=
  .ofAssignments [⟨"a", "x", 0⟩, ⟨"c", "hall", 0⟩, ⟨"b", "x", 0⟩, ⟨"b", "y", 5⟩, ⟨"a", "y", 5⟩,
    ⟨"b", "y", 5⟩]

theorem judge_together_add_apart_annex :
    ["a", "b", "c", "d", "guest"] ≠ [] ∧
    (∀ t ∈ (Constraint.rule (.shouldStayTogether ["a", "b", "c", "d", "guest"])
      (some [5, 0, 1])).covered annex.sessionCount,
        ∀ person ∈ ["a", "b", "c", "d", "guest"], annexSeats.Settled t person) ∧
    ∃ kept parted,
      annex.judge annexSeats (.rule (.shouldStayTogether ["a", "b", "c", "d", "guest"])
        (some [5, 0, 1])) = .ok kept ∧
      annex.judge annexSeats (.rule (.shouldNotBeTogether ["a", "b", "c", "d", "guest"])
        (some [5, 0, 1])) = .ok parted ∧
      kept.violations = 3 ∧ parted.violations = 2 ∧
      kept.violations + parted.violations = 3 + 0 + 2 := by
  have settled : ∀ t person, annexSeats.Settled t person :=
    Schedule.settled_ofAssignments (by decide)
  obtain ⟨fits, sum⟩ := @judge_together_add_apart annex annexSeats ["a", "b", "c", "d", "guest"]
    (by decide) (some [5, 0, 1]) _ (.inr ⟨.one, rfl⟩) .one fun t _ person _ => settled t person
  obtain ⟨kept, parted, first, second⟩ := fits (by decide) (by decide +kernel)
  refine ⟨by decide, fun t _ person _ => settled t person, kept, parted, first, second, ?_, ?_, ?_⟩
  · obtain ⟨-, rfl⟩ := Problem.judge_eq_ok.1 first
    decide +kernel
  · obtain ⟨-, rfl⟩ := Problem.judge_eq_ok.1 second
    decide +kernel
  · rw [sum kept parted first second]
    decide +kernel

end Roster
