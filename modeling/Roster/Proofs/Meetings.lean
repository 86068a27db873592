import Roster.Proofs.Defects
import Roster.Proofs.OrderFree

/-! The tally of meetings. Two people meet in a group as often as they are listed in it together,
and the tally holds for each pair the sessions of their meetings. Where no one is in two groups
of a session, or twice in one, those are the sessions in which both are found in one group. -/

namespace Roster

theorem count_map_pair {a b c : String} (smaller : a < b) (rest : List String) :
    ((rest.filter (· ≠ c)).map fun d => if c < d then (c, d) else (d, c)).count (a, b) =
      (if c = a then rest.count b else 0) + if c = b then rest.count a else 0 := by
  have apart : a ≠ b := Std.ne_of_lt smaller
  induction rest with
  | nil => simp
  | cons d rest ih => grind

/-- Two people meet in a group as often as an entry of one and an entry of the other do. -/
theorem count_pairs {a b : String} (smaller : a < b) (l : List String) :
    (pairs l).count (a, b) = l.count a * l.count b := by
  have apart : a ≠ b := Std.ne_of_lt smaller
  induction l with
  | nil => rfl
  | cons c rest ih =>
    rw [pairs, List.count_append, count_map_pair smaller, ih]
    grind

theorem lt_of_mem_pairs {l : List String} {e : String × String} (he : e ∈ pairs l) :
    e.1 < e.2 := by
  induction l with
  | nil => simp [pairs] at he
  | cons c rest ih =>
    obtain here | later := List.mem_append.1 he
    · obtain ⟨d, hd, rfl⟩ := List.mem_map.1 here
      have other : d ≠ c := by simpa using (List.mem_filter.1 hd).2
      grind
    · exact ih later

namespace Schedule

variable {s : Schedule} {a b : String} {t : Nat}

theorem mem_cells_encounters {e : String × String} {sessions : List Nat} :
    (e, sessions) ∈ s.encounters.cells ↔
      sessions = SortedMap.valuesOf s.meetings e ∧ sessions ≠ [] := by
  rw [← occupied?_eq_some]
  exact (SortedMap.mem_cells _ e.1 e.2 sessions).trans
    (Eq.congr_left (SortedMap.bind_get?_tabulate s.meetings e.1 e.2))

theorem lt_of_valuesOf_meetings {e : String × String}
    (met : SortedMap.valuesOf s.meetings e ≠ []) : e.1 < e.2 := by
  obtain ⟨t, ht⟩ := List.exists_mem_of_ne_nil _ met
  obtain ⟨meeting, listed, -⟩ := List.mem_map.1 ht
  obtain ⟨there, same⟩ := List.mem_filter.1 listed
  obtain ⟨_, -, within⟩ := List.mem_flatMap.1 there
  obtain ⟨group, -, pair⟩ := List.mem_flatMap.1 within
  obtain ⟨_, hp, rfl⟩ := List.mem_map.1 pair
  rw [← of_decide_eq_true same]
  exact lt_of_mem_pairs hp

theorem valuesOf_meetings_of_lt (smaller : a < b) : SortedMap.valuesOf s.meetings (a, b) =
    s.sessions.entries.flatMap fun e =>
      List.replicate (total (e.2.entries.map fun g => g.2.count a * g.2.count b)) e.1 := by
  rw [valuesOf_meetings, SortedMap.mapValues, List.flatMap_map]
  refine List.flatMap_congr fun e _ => ?_
  rw [SortedMap.mapValues, List.flatMap_map, ← flatMap_replicate]
  simp only [count_pairs smaller]

theorem peopleIn_of_mem {groups : SessionGroups} (here : s.session? t = some groups)
    {g : String × List String} (hg : g ∈ groups.entries) : s.peopleIn t g.1 = g.2 := by
  rw [peopleIn, SortedMap.listAt, ← session?, here, Option.bind_some,
    (groups.mem_entries_iff g.1 g.2).1 hg, Option.getD_some]

/-- No one is in two groups of a session, or twice in one. -/
structure Orderly (s : Schedule) : Prop where
  settled : ∀ t person, s.Settled t person
  once : ∀ t group, (s.peopleIn t group).Nodup

theorem Orderly.eq_of_mem (orderly : s.Orderly) {groups : SessionGroups}
    (here : s.session? t = some groups) {g other : String × List String}
    (hg : g ∈ groups.entries) (ho : other ∈ groups.entries) (listed : a ∈ g.2)
    (again : a ∈ other.2) : g = other := by
  rw [← peopleIn_of_mem here hg] at listed
  rw [← peopleIn_of_mem here ho] at again
  have same : g.1 = other.1 := orderly.settled t a g.1 other.1 listed again
  refine Prod.ext same ?_
  rw [← peopleIn_of_mem here hg, same, peopleIn_of_mem here ho]

end Schedule

theorem OnePerSeat.orderly {l : List Assignment} (h : OnePerSeat l) :
    (Schedule.ofAssignments l).Orderly where
  settled := Schedule.settled_ofAssignments fun a ha b hb session person =>
    congrArg Assignment.group (List.inj_on_of_nodup_map h ha hb (Prod.ext session person))
  once t group := by
    have seats : ((l.filter fun a => a.session = t ∧ a.group = group).map (·.seat)).Nodup :=
      h.sublist (List.filter_sublist.map _)
    have named : (l.filter fun a => a.session = t ∧ a.group = group).map (·.seat) =
        ((l.filter fun a => a.session = t ∧ a.group = group).map (·.person)).map (t, ·) := by
      rw [List.map_map]
      refine List.map_congr_left fun a ha => ?_
      have here := of_decide_eq_true (List.mem_filter.1 ha).2
      rw [Function.comp_apply, ← here.1]
      rfl
    rw [Schedule.peopleIn_ofAssignments]
    rw [named] at seats
    exact seats.of_map

namespace View

variable {p : Problem} {s : Schedule} {a b : String} {t : Nat}

theorem meet_iff (orderly : s.Orderly) : (of p s).meet a b t ↔
    ∃ group, a ∈ s.peopleIn t group ∧ b ∈ s.peopleIn t group := by
  rw [meet, groupOf?_of, groupOf?_of, Bool.and_eq_true, beq_iff_eq, Option.isSome_iff_exists]
  constructor
  · intro h
    obtain ⟨⟨group, here⟩, same⟩ := h
    exact ⟨group, (orderly.settled t a).groupOf?_eq_some.1 here,
      (orderly.settled t b).groupOf?_eq_some.1 (same ▸ here)⟩
  · intro h
    obtain ⟨group, first, second⟩ := h
    rw [(orderly.settled t a).groupOf?_eq_some.2 first,
      (orderly.settled t b).groupOf?_eq_some.2 second]
    exact ⟨⟨group, rfl⟩, rfl⟩

theorem total_count_mul (p : Problem) (orderly : s.Orderly) {groups : SessionGroups}
    (here : s.session? t = some groups) (a b : String) :
    total (groups.entries.map fun g => g.2.count a * g.2.count b) =
      if (of p s).meet a b t then 1 else 0 := by
  split
  · rename_i together
    obtain ⟨group, first, second⟩ := (meet_iff orderly).1 together
    have once := orderly.once t group
    have entry : (group, s.peopleIn t group) ∈ groups.entries := by
      obtain ⟨_, same, people, listed, -⟩ := Schedule.mem_peopleIn.1 first
      obtain rfl := Option.some.inj (here.symm.trans same)
      rwa [Schedule.peopleIn_of_mem here listed]
    have others : ∀ g ∈ groups.entries, g ≠ (group, s.peopleIn t group) →
        g.2.count a * g.2.count b = 0 := by
      intro g hg other
      have absent : a ∉ g.2 := fun again => other (orderly.eq_of_mem here hg entry again first)
      rw [List.count_eq_zero.2 absent, Nat.zero_mul]
    rw [total_map_eq_single groups.nodup_entries entry others,
      List.count_eq_one_of_mem once first, List.count_eq_one_of_mem once second]
  · rename_i apart
    rw [total_eq_zero, List.forall_mem_map]
    intro g hg
    by_contra met
    obtain ⟨first, second⟩ := Nat.mul_ne_zero_iff.1 met
    have listed := Schedule.peopleIn_of_mem here hg
    refine apart ((meet_iff orderly).2 ⟨g.1, ?_, ?_⟩)
    · rw [listed]
      exact List.count_pos_iff.1 (Nat.pos_of_ne_zero first)
    · rw [listed]
      exact List.count_pos_iff.1 (Nat.pos_of_ne_zero second)

theorem meet_comm (v : View) (a b : String) : v.meet a b = v.meet b a := by
  funext t
  rw [Bool.eq_iff_iff]
  simp only [meet, Bool.and_eq_true, beq_iff_eq]
  constructor
  · intro h
    exact ⟨h.2 ▸ h.1, h.2.symm⟩
  · intro h
    exact ⟨h.2 ▸ h.1, h.2.symm⟩

theorem valuesOf_meetings_of_orderly (p : Problem) (orderly : s.Orderly) (smaller : a < b) :
    SortedMap.valuesOf s.meetings (a, b) =
      (s.sessions.entries.map Prod.fst).filter ((of p s).meet a b) := by
  have each : ∀ e ∈ s.sessions.entries,
      total (e.2.entries.map fun g => g.2.count a * g.2.count b) =
        if (of p s).meet a b e.1 then 1 else 0 :=
    fun e he => total_count_mul p orderly ((s.sessions.mem_entries_iff e.1 e.2).1 he) a b
  rw [Schedule.valuesOf_meetings_of_lt smaller, List.filter_map]
  generalize s.sessions.entries = entries at each ⊢
  induction entries with
  | nil => rfl
  | cons e rest ih =>
    obtain ⟨first, others⟩ := List.forall_mem_cons.1 each
    rw [List.flatMap_cons, ih others, first]
    by_cases met : (of p s).meet a b e.1
    · simp [met]
    · simp [met]

end View

namespace View

theorem repeatEncounter_eq_cells (v : View) (limit : Nat) : v.repeatEncounter limit =
    .sum (v.schedule.encounters.cells.map fun cell =>
      .ofFinding (cell.2.length - limit) (.repeatEncounter cell.1 cell.2.length limit
        cell.2.eraseReps)) := by
  rw [SortedMap.cells, List.map_flatMap]
  simp only [List.map_map]
  rfl

theorem violations_repeatEncounter (v : View) (limit : Nat) {among : Finset (String × String)}
    (all : ∀ e, SortedMap.valuesOf v.schedule.meetings e ≠ [] → e ∈ among) :
    (v.repeatEncounter limit).violations =
      ∑ e ∈ among, ((SortedMap.valuesOf v.schedule.meetings e).length - limit) := by
  have tallied : ∀ cell ∈ v.schedule.encounters.cells, cell.2.length - limit =
      (SortedMap.valuesOf v.schedule.meetings cell.1).length - limit :=
    fun cell hc => by rw [(Schedule.mem_cells_encounters.1 hc).1]
  have within : (v.schedule.encounters.cells.map Prod.fst).toFinset ⊆ among := by
    intro e he
    obtain ⟨cell, hc, rfl⟩ := List.mem_map.1 (List.mem_toFinset.1 he)
    obtain ⟨same, met⟩ := Schedule.mem_cells_encounters.1 hc
    exact all cell.1 (same ▸ met)
  have idle : ∀ e ∈ among, e ∉ (v.schedule.encounters.cells.map Prod.fst).toFinset →
      (SortedMap.valuesOf v.schedule.meetings e).length - limit = 0 := by
    intro e _ absent
    have never : SortedMap.valuesOf v.schedule.meetings e = [] := by
      by_contra met
      exact absent (List.mem_toFinset.2
        (List.mem_map_of_mem (Schedule.mem_cells_encounters.2 ⟨rfl, met⟩)))
    rw [never, List.length_nil, Nat.zero_sub]
  rw [repeatEncounter_eq_cells, Verdict.violations_sum_map, ← Finset.sum_subset within idle,
    sum_toFinset (SortedMap.nodup_map_fst_cells _), List.map_map]
  simp only [Verdict.violations_ofFinding]
  exact congrArg total (List.map_congr_left tallied)

theorem mem_findings_repeatEncounter {v : View} {limit : Nat} {f : Finding} :
    f ∈ (v.repeatEncounter limit).findings ↔
      ∃ e, 0 < (SortedMap.valuesOf v.schedule.meetings e).length - limit ∧
        f = .repeatEncounter e (SortedMap.valuesOf v.schedule.meetings e).length limit
          (SortedMap.valuesOf v.schedule.meetings e).eraseReps := by
  rw [repeatEncounter_eq_cells, Verdict.sum, List.flatMap_map, List.mem_flatMap]
  constructor
  · intro h
    obtain ⟨⟨e, sessions⟩, hc, noted⟩ := h
    obtain ⟨rfl, -⟩ := Schedule.mem_cells_encounters.1 hc
    exact ⟨e, (Verdict.mem_findings_ofFinding.1 noted)⟩
  · intro h
    obtain ⟨e, excess, rfl⟩ := h
    have met : SortedMap.valuesOf v.schedule.meetings e ≠ [] := by
      intro never
      simp [never] at excess
    exact ⟨(e, _), Schedule.mem_cells_encounters.2 ⟨rfl, met⟩,
      Verdict.mem_findings_ofFinding.2 ⟨excess, rfl⟩⟩

end View

end Roster
