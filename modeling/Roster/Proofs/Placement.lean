import Roster.Proofs.Seats
import Roster.Proofs.Written

/-! What a reconciled schedule is, whatever ids are repeated and whatever was sat before:
all sessions, in each of them every active person once and nobody else, and no more people
under a group id than the groups declared with it have seats. -/

namespace Roster

namespace Problem

/-- The seats of all groups declared with an id. -/
def seatsUnder (p : Problem) (group : String) : Nat :=
  total ((p.groups.filter (·.id = group)).map (·.size))

theorem sum_groupSize_under (p : Problem) (group : String) :
    (∑ index ∈ Finset.range p.groups.length,
      if p.groupId index = group then p.groupSize index else 0) = p.seatsUnder group := by
  rw [seatsUnder, total_filter, ← sum_range_getElem?]
  refine Finset.sum_congr rfl fun index inside => ?_
  have here := Finset.mem_range.1 inside
  rw [groupId_of_lt here, groupSize_of_lt here, List.getElem?_eq_getElem here]
  rfl

theorem seatsUnder_of_nodup {p : Problem} (distinct : (p.groups.map (·.id)).Nodup) {group : Group}
    (declared : group ∈ p.groups) : p.seatsUnder group.id = group.size := by
  have alone : p.groups.filter (·.id = group.id) = [group] := by
    obtain ⟨first, last, split⟩ := List.append_of_mem declared
    rw [split] at distinct ⊢
    simp only [List.map_append, List.map_cons, List.nodup_append, List.nodup_cons, List.mem_map,
      List.mem_cons, ne_eq] at distinct
    obtain ⟨-, ⟨fresh, -⟩, apart⟩ := distinct
    rw [List.filter_append, List.filter_cons]
    have before : first.filter (·.id = group.id) = [] := by
      rw [List.filter_eq_nil_iff]
      intro g hg
      simpa using apart g.id ⟨g, hg, rfl⟩ group.id (.inl rfl)
    have after : last.filter (·.id = group.id) = [] := by
      rw [List.filter_eq_nil_iff]
      intro g hg
      simpa using fun same => fresh ⟨g, hg, same⟩
    simp [before, after]
  simp [seatsUnder, alone]

end Problem

namespace Seating

variable {p : Problem} {session : Nat} {s : Seating}

theorem length_members_le (h : s.Coherent p session) (group : String) :
    (s.members p group).length ≤ p.seatsUnder group := by
  have inside : ∀ index ∈ (((s.order.map Prod.snd).filter (p.groupId · = group) : List Nat) :
      Multiset Nat), index ∈ Finset.range p.groups.length := by
    intro index taken
    obtain ⟨⟨person, _⟩, he, rfl⟩ :=
      List.mem_map.1 (List.mem_of_mem_filter (Multiset.mem_coe.1 taken))
    exact Finset.mem_range.2 (h.index_lt he)
  have counted := Multiset.sum_count_eq_card inside
  have length : (s.members p group).length =
      ((s.order.map Prod.snd).filter (p.groupId · = group)).length := by
    rw [members, List.length_map, List.filter_map, List.length_map]
    rfl
  rw [Multiset.coe_card, ← length] at counted
  rw [← counted, ← p.sum_groupSize_under]
  apply Finset.sum_le_sum
  intro index _
  rw [Multiset.coe_count]
  split
  · rename_i same
    rw [List.count_filter (by simpa using same)]
    exact h.seats index
  · rename_i other
    rw [Nat.le_zero, List.count_eq_zero, List.mem_filter]
    simp [other]

end Seating

/-- The schedule seats the active people of every session, and no one else. -/
structure Problem.SeatedBy (p : Problem) (schedule : Schedule) : Prop where
  sessions : schedule.sessions.entries.map Prod.fst = List.range p.sessionCount
  once : ∀ e ∈ schedule.sessions.entries, ∀ id, (e.2.entries.flatMap Prod.snd).count id =
    if ∃ person ∈ p.people, person.id = id ∧ person.ActiveIn e.1 then 1 else 0
  declared : ∀ e ∈ schedule.sessions.entries, ∀ g ∈ e.2.entries, ∃ group ∈ p.groups, group.id = g.1
  room : ∀ session group, schedule.occupancy session group ≤
    total ((p.groups.filter (·.id = group)).map (·.size))
  ownRoom : (p.groups.map (·.id)).Nodup →
    ∀ session, ∀ group ∈ p.groups, schedule.occupancy session group.id ≤ group.size

variable {p : Problem} {previous : List Assignment} {seeding : Bool} {schedule : Schedule}

theorem Seating.declared_of_mem_groups {session : Nat} {s : Seating} (h : s.Coherent p session)
    {g : String × List String} (hg : g ∈ (s.groups p).entries) :
    ∃ group ∈ p.groups, group.id = g.1 := by
  obtain ⟨same, occupied⟩ := mem_entries_groups.1 hg
  obtain ⟨person, listed⟩ := List.exists_mem_of_ne_nil _ occupied
  rw [same] at listed
  obtain ⟨index, seated, hid⟩ := mem_members.1 listed
  have here := h.index_lt seated
  exact ⟨p.groups[index], List.getElem_mem here, by rw [← hid, Problem.groupId_of_lt here]⟩

theorem occupancy_le_seatsUnder (h : p.reconcile previous seeding = .ok schedule)
    (session : Nat) (group : String) : schedule.occupancy session group ≤ p.seatsUnder group := by
  rw [Schedule.occupancy, Problem.peopleIn_of_reconcile h]
  split
  · rename_i inside
    exact Seating.length_members_le
      (Seating.coherent_of_fill ((Problem.reconcile_eq_ok h).1 session inside)) group
  · exact Nat.zero_le _

theorem sessions_of_reconcile (h : p.reconcile previous seeding = .ok schedule) :
    schedule.sessions.entries.map Prod.fst = List.range p.sessionCount := by
  rw [(Problem.reconcile_eq_ok h).2, List.map_map]
  exact List.map_id _

theorem count_of_reconcile (h : p.reconcile previous seeding = .ok schedule)
    {e : Nat × SessionGroups} (he : e ∈ schedule.sessions.entries) (id : String) :
    (e.2.entries.flatMap Prod.snd).count id =
      if ∃ person ∈ p.people, person.id = id ∧ person.ActiveIn e.1 then 1 else 0 := by
  obtain ⟨filled, entries⟩ := Problem.reconcile_eq_ok h
  rw [entries] at he
  obtain ⟨session, inside, rfl⟩ := List.mem_map.1 he
  have filling := filled session (List.mem_range.1 inside)
  have seated : id ∈ _ ↔ id ∈ p.activeIds session := Seating.mem_seated_iff filling
  rw [(Seating.flatMap_groups_perm p _).count_eq]
  simp only [← Seating.mem_activeIds, ← seated]
  split
  · exact List.count_eq_one_of_mem (Seating.coherent_of_fill filling).once ‹_›
  · exact List.count_eq_zero_of_not_mem ‹_›

theorem declared_of_reconcile (h : p.reconcile previous seeding = .ok schedule)
    {e : Nat × SessionGroups} (he : e ∈ schedule.sessions.entries) {g : String × List String}
    (hg : g ∈ e.2.entries) : ∃ group ∈ p.groups, group.id = g.1 := by
  obtain ⟨filled, entries⟩ := Problem.reconcile_eq_ok h
  rw [entries] at he
  obtain ⟨session, inside, rfl⟩ := List.mem_map.1 he
  exact Seating.declared_of_mem_groups
    (Seating.coherent_of_fill (filled session (List.mem_range.1 inside))) hg

theorem seatedBy_of_reconcile (h : p.reconcile previous seeding = .ok schedule) :
    p.SeatedBy schedule := by
  refine ⟨sessions_of_reconcile h, fun e he => count_of_reconcile h he,
    fun e he g hg => declared_of_reconcile h he hg, occupancy_le_seatsUnder h, ?_⟩
  intro distinct session group declared
  rw [← Problem.seatsUnder_of_nodup distinct declared]
  exact occupancy_le_seatsUnder h session group.id

def doubled : Problem where
  people := [⟨"a", .empty, none⟩, ⟨"b", .empty, none⟩, ⟨"c", .empty, none⟩,
    ⟨"a", .empty, some (.ofList [1])⟩, ⟨"d", .empty, some (.ofList [0])⟩]
  groups := [⟨"x", 2⟩, ⟨"y", 1⟩, ⟨"x", 1⟩]
  sessionCount := 2
  constraints := [.rule (.immovablePerson "b" "y") (some [0]),
    .rule (.mustStayTogether ["a", "c", "d"]) (some [1])]

theorem seatedBy_doubled :
    ∃ schedule, doubled.reconcile [⟨"d", "y", 0⟩, ⟨"c", "x", 0⟩, ⟨"b", "z", 1⟩] = .ok schedule ∧
      doubled.SeatedBy schedule ∧ schedule.peopleIn 0 "x" = ["c", "a", "d"] := by
  have filled : doubled.reconcile [⟨"d", "y", 0⟩, ⟨"c", "x", 0⟩, ⟨"b", "z", 1⟩] =
      .ok (.ofAssignments [⟨"c", "x", 0⟩, ⟨"a", "x", 0⟩, ⟨"d", "x", 0⟩, ⟨"b", "y", 0⟩,
        ⟨"c", "x", 1⟩, ⟨"a", "x", 1⟩, ⟨"b", "y", 1⟩]) := by decide +kernel
  exact ⟨_, filled, seatedBy_of_reconcile filled, by decide⟩

end Roster
