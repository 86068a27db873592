import Roster.Proofs.Meetings

/-! A limit on encounters, for schedules of any kind. Two people meet in a group as often as an
entry of one and an entry of the other stand in its list, in whatever sessions and groups, and
every pair that met more often than allowed is reported, pairs in alphabetical order, with the
number of its meetings and the sessions in which the two share a group. -/

namespace Roster

namespace SortedMap

theorem pairwise_cells {κ ι ν : Type} [LT κ] [LT ι] (m : SortedMap κ (SortedMap ι ν)) :
    (m.cells.map Prod.fst).Pairwise (Prod.Lex (· < ·) (· < ·)) := by
  rw [cells, List.map_flatMap, List.pairwise_flatMap]
  constructor
  · intro row _
    rw [List.map_map, List.pairwise_map]
    exact row.2.ascending.imp fun earlier => .right row.1 earlier
  · refine m.ascending.imp fun earlier c hc d hd => ?_
    rw [List.map_map] at hc hd
    obtain ⟨_, -, rfl⟩ := List.mem_map.1 hc
    obtain ⟨_, -, rfl⟩ := List.mem_map.1 hd
    exact .left _ _ earlier

end SortedMap

namespace Schedule

variable {s : Schedule} {a b : String} {t : Nat}

/-- How often two people meet, once for every entry of one and every entry of the other in the
list of a group. -/
def timesMet (s : Schedule) (a b : String) : Nat :=
  total (s.sessions.entries.map fun e => total (e.2.entries.map fun g => g.2.count a * g.2.count b))

def sessionsShared (s : Schedule) (a b : String) : List Nat :=
  (s.sessions.entries.filter fun e => ∃ g ∈ e.2.entries, a ∈ g.2 ∧ b ∈ g.2).map Prod.fst

def attendees (s : Schedule) : Finset String :=
  (s.sessions.entries.flatMap fun e => e.2.entries.flatMap Prod.snd).toFinset

def couples (s : Schedule) : Finset (String × String) :=
  (s.attendees ×ˢ s.attendees).filter fun e => e.1 < e.2

theorem timesMet_comm (s : Schedule) (a b : String) : s.timesMet a b = s.timesMet b a := by
  simp only [timesMet, Nat.mul_comm]

theorem mem_couples {e : String × String} :
    e ∈ s.couples ↔ (e.1 ∈ s.attendees ∧ e.2 ∈ s.attendees) ∧ e.1 < e.2 := by
  rw [couples, Finset.mem_filter, Finset.mem_product]

theorem total_count_mul_ne_zero {groups : SessionGroups} :
    total (groups.entries.map fun g => g.2.count a * g.2.count b) ≠ 0 ↔
      ∃ g ∈ groups.entries, a ∈ g.2 ∧ b ∈ g.2 := by
  rw [ne_eq, total_eq_zero, List.forall_mem_map, not_forall₂]
  simp only [Nat.mul_eq_zero, List.count_eq_zero, not_or, not_not, exists_prop]

theorem mem_sessionsShared :
    t ∈ s.sessionsShared a b ↔ ∃ group, a ∈ s.peopleIn t group ∧ b ∈ s.peopleIn t group := by
  simp only [sessionsShared, List.mem_map, List.mem_filter, decide_eq_true_eq]
  constructor
  · intro h
    obtain ⟨e, ⟨he, g, hg, first, second⟩, rfl⟩ := h
    have here := (s.sessions.mem_entries_iff e.1 e.2).1 he
    refine ⟨g.1, ?_⟩
    rw [peopleIn_of_mem here hg]
    exact ⟨first, second⟩
  · intro h
    obtain ⟨group, first, second⟩ := h
    obtain ⟨groups, here, people, hg, listed⟩ := mem_peopleIn.1 first
    rw [peopleIn_of_mem here hg] at second
    exact ⟨(t, groups), ⟨(s.sessions.mem_entries_iff t groups).2 here, _, hg, listed, second⟩, rfl⟩

theorem pairwise_sessionsShared (s : Schedule) (a b : String) :
    (s.sessionsShared a b).Pairwise (· < ·) :=
  List.pairwise_map.2 (s.sessions.ascending.filter _)

theorem length_valuesOf_meetings (smaller : a < b) :
    (SortedMap.valuesOf s.meetings (a, b)).length = s.timesMet a b := by
  rw [valuesOf_meetings_of_lt smaller, length_flatMap_eq_total]
  simp only [List.length_replicate, timesMet]

theorem mem_valuesOf_meetings (smaller : a < b) :
    t ∈ SortedMap.valuesOf s.meetings (a, b) ↔ t ∈ s.sessionsShared a b := by
  simp only [valuesOf_meetings_of_lt smaller, sessionsShared, List.mem_flatMap, List.mem_replicate,
    total_count_mul_ne_zero, List.mem_map, List.mem_filter, decide_eq_true_eq]
  refine exists_congr fun e => ?_
  rw [and_assoc, eq_comm]

theorem eraseReps_valuesOf_meetings (smaller : a < b) :
    (SortedMap.valuesOf s.meetings (a, b)).eraseReps = s.sessionsShared a b := by
  rw [valuesOf_meetings_of_lt smaller, eraseReps_flatMap_replicate _ _ s.sessions.nodup_keys]
  simp only [total_count_mul_ne_zero, sessionsShared]

theorem mem_attendees : a ∈ s.attendees ↔ ∃ t group, a ∈ s.peopleIn t group := by
  simp only [attendees, List.mem_toFinset, List.mem_flatMap]
  constructor
  · intro h
    obtain ⟨e, he, g, hg, listed⟩ := h
    have here := (s.sessions.mem_entries_iff e.1 e.2).1 he
    refine ⟨e.1, g.1, ?_⟩
    rwa [peopleIn_of_mem here hg]
  · intro h
    obtain ⟨t, group, listed⟩ := h
    obtain ⟨groups, here, people, hg, within⟩ := mem_peopleIn.1 listed
    exact ⟨(t, groups), (s.sessions.mem_entries_iff t groups).2 here, _, hg, within⟩

theorem mem_couples_of_timesMet (smaller : a < b) (met : s.timesMet a b ≠ 0) :
    (a, b) ∈ s.couples := by
  rw [← length_valuesOf_meetings smaller, ne_eq, List.length_eq_zero_iff] at met
  obtain ⟨t, listed⟩ := List.exists_mem_of_ne_nil _ met
  obtain ⟨group, first, second⟩ := mem_sessionsShared.1 ((mem_valuesOf_meetings smaller).1 listed)
  exact mem_couples.2 ⟨⟨mem_attendees.2 ⟨t, group, first⟩, mem_attendees.2 ⟨t, group, second⟩⟩,
    smaller⟩

def overLimit (s : Schedule) (limit : Nat) : List (String × String) :=
  (s.encounters.cells.filter (limit < ·.2.length)).map Prod.fst

theorem pairwise_overLimit (s : Schedule) (limit : Nat) :
    (s.overLimit limit).Pairwise (Prod.Lex (· < ·) (· < ·)) :=
  s.encounters.pairwise_cells.sublist (List.filter_sublist.map _)

theorem of_mem_cells_encounters {cell : (String × String) × List Nat}
    (held : cell ∈ s.encounters.cells) :
    cell.1.1 < cell.1.2 ∧ cell.2.length = s.timesMet cell.1.1 cell.1.2 ∧
      cell.2.eraseReps = s.sessionsShared cell.1.1 cell.1.2 := by
  obtain ⟨same, met⟩ := mem_cells_encounters.1 held
  have smaller := lt_of_valuesOf_meetings (same ▸ met)
  rw [same]
  exact ⟨smaller, length_valuesOf_meetings smaller, eraseReps_valuesOf_meetings smaller⟩

theorem mem_overLimit {limit : Nat} {e : String × String} :
    e ∈ s.overLimit limit ↔ e.1 < e.2 ∧ limit < s.timesMet e.1 e.2 := by
  simp only [overLimit, List.mem_map, List.mem_filter, decide_eq_true_eq]
  constructor
  · intro h
    obtain ⟨cell, ⟨held, above⟩, rfl⟩ := h
    obtain ⟨smaller, counted, -⟩ := of_mem_cells_encounters held
    exact ⟨smaller, counted ▸ above⟩
  · intro h
    obtain ⟨smaller, above⟩ := h
    rw [← length_valuesOf_meetings smaller] at above
    have met : SortedMap.valuesOf s.meetings (e.1, e.2) ≠ [] := List.ne_nil_of_length_pos (by omega)
    exact ⟨(e, _), ⟨mem_cells_encounters.2 ⟨rfl, met⟩, above⟩, rfl⟩

/-- The meetings of every pair can be counted in 32 bits, and so can all beyond the limit. -/
structure Countable (s : Schedule) (limit : Nat) : Prop where
  meetings : ∀ e ∈ s.couples, s.timesMet e.1 e.2 < countLimit
  beyond : ∑ e ∈ s.couples, (s.timesMet e.1 e.2 - limit) < countLimit

end Schedule

namespace View

theorem violations_repeatEncounter_eq_sum (v : View) (limit : Nat)
    {among : Finset (String × String)} (ordered : ∀ e ∈ among, e.1 < e.2)
    (all : ∀ a b, a < b → v.schedule.timesMet a b ≠ 0 → (a, b) ∈ among) :
    (v.repeatEncounter limit).violations =
      ∑ e ∈ among, (v.schedule.timesMet e.1 e.2 - limit) := by
  rw [violations_repeatEncounter v limit fun e met => ?_]
  · refine Finset.sum_congr rfl fun e he => ?_
    rw [← Schedule.length_valuesOf_meetings (ordered e he)]
  · have smaller := Schedule.lt_of_valuesOf_meetings met
    refine all e.1 e.2 smaller ?_
    rwa [← Schedule.length_valuesOf_meetings smaller, ne_eq, List.length_eq_zero_iff]

theorem repeatEncounter_eq (v : View) (limit : Nat) : v.repeatEncounter limit =
    ⟨∑ e ∈ v.schedule.couples, (v.schedule.timesMet e.1 e.2 - limit),
      (v.schedule.overLimit limit).map fun e =>
        .repeatEncounter e (v.schedule.timesMet e.1 e.2) limit
          (v.schedule.sessionsShared e.1 e.2)⟩ := by
  have violations := violations_repeatEncounter_eq_sum v limit
    (fun _ he => (Schedule.mem_couples.1 he).2) fun _ _ => Schedule.mem_couples_of_timesMet
  have findings : (v.repeatEncounter limit).findings = (v.schedule.overLimit limit).map fun e =>
      .repeatEncounter e (v.schedule.timesMet e.1 e.2) limit
        (v.schedule.sessionsShared e.1 e.2) := by
    rw [repeatEncounter_eq_cells, Verdict.sum_map_ofFinding, Schedule.overLimit,
      List.map_map]
    simp only [Nat.sub_pos_iff_lt]
    refine List.map_congr_left fun cell listed => ?_
    obtain ⟨-, counted, shared⟩ :=
      Schedule.of_mem_cells_encounters (List.mem_of_mem_filter listed)
    rw [Function.comp_apply, counted, shared]
  rw [← violations, ← findings]

theorem checked_repeatEncounter (v : View) {limit : Nat} (counts : v.schedule.Countable limit) :
    (v.repeatEncounter limit).checked =
      .ok ⟨∑ e ∈ v.schedule.couples, (v.schedule.timesMet e.1 e.2 - limit),
        (v.schedule.overLimit limit).map fun e =>
          .repeatEncounter e (v.schedule.timesMet e.1 e.2) limit
            (v.schedule.sessionsShared e.1 e.2)⟩ := by
  rw [repeatEncounter_eq, Verdict.checked]
  exact if_pos counts.beyond

/-- A limit on encounters is checked by what every two people met, whatever the schedule, however
often people are placed in it and whatever sessions are covered: each pair over the limit is
violated by its excess and reported once, in alphabetical order. -/
theorem repeatEncounter_of_countable (v : View) {limit : Nat}
    (counts : v.schedule.Countable limit) :
    ∃ exceeding : List (String × String),
      exceeding.Pairwise (Prod.Lex (· < ·) (· < ·)) ∧
      (∀ e, e ∈ exceeding ↔ e.1 < e.2 ∧ limit < v.schedule.timesMet e.1 e.2) ∧
      (∀ a b, (v.schedule.sessionsShared a b).Pairwise (· < ·) ∧
        ∀ t, t ∈ v.schedule.sessionsShared a b ↔
          ∃ group, a ∈ v.schedule.peopleIn t group ∧ b ∈ v.schedule.peopleIn t group) ∧
      ∀ covered penalty weight,
        (v.inspect covered (.repeatEncounter limit penalty weight)).checked =
          .ok ⟨∑ e ∈ v.schedule.couples, (v.schedule.timesMet e.1 e.2 - limit),
            exceeding.map fun e => .repeatEncounter e (v.schedule.timesMet e.1 e.2) limit
              (v.schedule.sessionsShared e.1 e.2)⟩ :=
  ⟨v.schedule.overLimit limit, v.schedule.pairwise_overLimit limit,
    fun _ => Schedule.mem_overLimit,
    fun a b => ⟨v.schedule.pairwise_sessionsShared a b, fun _ => Schedule.mem_sessionsShared⟩,
    fun _ _ _ => v.checked_repeatEncounter counts⟩

end View

def jamboree : Problem where
  people := [⟨"a", .empty, none⟩, ⟨"b", .empty, none⟩, ⟨"c", .empty, none⟩]
  groups := [⟨"x", 2⟩]
  sessionCount := 1

def jamboreeSeats : Schedule :=
  .ofAssignments [⟨"c", "z", 7⟩, ⟨"b", "z", 7⟩, ⟨"c", "z", 7⟩, ⟨"a", "x", 0⟩, ⟨"b", "x", 0⟩,
    ⟨"a", "x", 0⟩, ⟨"b", "y", 0⟩, ⟨"a", "y", 0⟩, ⟨"c", "y", 0⟩]

theorem View.repeatEncounter_jamboree :
    jamboreeSeats.Countable 2 ∧ ∃ exceeding : List (String × String),
      exceeding.Pairwise (Prod.Lex (· < ·) (· < ·)) ∧
      (∀ e, e ∈ exceeding ↔ e.1 < e.2 ∧ 2 < jamboreeSeats.timesMet e.1 e.2) ∧
      ((View.of jamboree jamboreeSeats).inspect (.below 1) (.repeatEncounter 2)).checked =
        .ok ⟨2, exceeding.map fun e => .repeatEncounter e (jamboreeSeats.timesMet e.1 e.2) 2
          (jamboreeSeats.sessionsShared e.1 e.2)⟩ ∧
      exceeding.map (fun e => Finding.repeatEncounter e (jamboreeSeats.timesMet e.1 e.2) 2
        (jamboreeSeats.sessionsShared e.1 e.2)) =
        [.repeatEncounter ("a", "b") 3 2 [0], .repeatEncounter ("b", "c") 3 2 [0, 7]] := by
  have counts : jamboreeSeats.Countable 2 := ⟨by decide +kernel, by decide +kernel⟩
  have excess : ∑ e ∈ jamboreeSeats.couples, (jamboreeSeats.timesMet e.1 e.2 - 2) = 2 := by
    decide +kernel
  have found : ((View.of jamboree jamboreeSeats).inspect (.below 1) (.repeatEncounter 2)).checked =
      .ok ⟨2, [.repeatEncounter ("a", "b") 3 2 [0], .repeatEncounter ("b", "c") 3 2 [0, 7]]⟩ := by
    decide +kernel
  obtain ⟨exceeding, ordered, members, -, checked⟩ :=
    (View.of jamboree jamboreeSeats).repeatEncounter_of_countable counts
  have judged := checked (.below 1) .linear .one
  rw [View.schedule_of, excess] at judged
  have findings := (Verdict.mk.inj (Except.ok.inj (judged.symm.trans found))).2
  exact ⟨counts, exceeding, ordered, members, judged, findings⟩

end Roster
