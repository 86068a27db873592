import Mathlib.Algebra.Order.BigOperators.Group.Finset
import Roster.Proofs.Count
import Roster.Proofs.Filling

/-! Counting seats. A seating holds at most as many people as there are seats, and as many
when no group has room. So whoever is left after pins and cliques finds a seat exactly
when the active people are no more than the seats, whatever was wished for. -/

namespace Roster

theorem Problem.sum_groupSize (p : Problem) :
    ∑ index ∈ Finset.range p.groups.length, p.groupSize index = p.seats :=
  sum_range_getElem? Group.size p.groups

theorem Attempt.each_cons_eq_stopped {α : Type} {step : Seating → α → Attempt} {s t : Seating}
    {a : α} {rest : List α} {why : Obstacle} :
    each step s (a :: rest) = .stopped t why ↔
      step s a = .stopped t why ∨ ∃ u, step s a = .done u ∧ each step u rest = .stopped t why := by
  rw [each, andThen_eq_stopped]

namespace Seating

variable {p : Problem} {session : Nat} {s t : Seating}

theorem sum_headcount (h : s.Coherent p session) :
    ∑ index ∈ Finset.range p.groups.length, s.headcount index = s.order.length := by
  have inside : ∀ index ∈ ((s.order.map Prod.snd : List Nat) : Multiset Nat),
      index ∈ Finset.range p.groups.length := by
    intro index taken
    obtain ⟨⟨person, _⟩, he, rfl⟩ := List.mem_map.1 (Multiset.mem_coe.1 taken)
    exact Finset.mem_range.2 (h.index_lt he)
  simpa [headcount] using Multiset.sum_count_eq_card inside

theorem length_le_seats (h : s.Coherent p session) : s.order.length ≤ p.seats := by
  rw [← sum_headcount h, ← p.sum_groupSize]
  exact Finset.sum_le_sum fun index _ => h.seats index

theorem length_eq_seats (h : s.Coherent p session) (full : ∀ index, s.spare p index = 0) :
    s.order.length = p.seats := by
  rw [← sum_headcount h, ← p.sum_groupSize]
  refine Finset.sum_congr rfl fun index _ => ?_
  have bound := h.seats index
  have spare := full index
  rw [h.spare_eq] at spare
  omega

theorem exists_split_of_each_eq_stopped {α : Type} {step : Seating → α → Attempt} {l : List α}
    {why : Obstacle} (h : Attempt.each step s l = .stopped t why) :
    ∃ before a after u, l = before ++ a :: after ∧ Attempt.each step s before = .done u ∧
      step u a = .stopped t why := by
  induction l generalizing s with
  | nil => simp [Attempt.each] at h
  | cons a rest ih =>
    cases Attempt.each_cons_eq_stopped.1 h with
    | inl here => exact ⟨[], a, rest, s, rfl, rfl, here⟩
    | inr after =>
      obtain ⟨u, first, later⟩ := after
      obtain ⟨before, b, rest, v, rfl, through, stop⟩ := ih later
      exact ⟨a :: before, b, rest, v, rfl, Attempt.each_cons_eq_done.2 ⟨u, first, through⟩, stop⟩

theorem exists_of_each_eq_stopped {α : Type} {step : Seating → α → Attempt} {l : List α}
    {why : Obstacle} (grows : ∀ s, ∀ a ∈ l, Grows p session s (step s a).seating)
    (h : Attempt.each step s l = .stopped t why) :
    ∃ a ∈ l, ∃ u, Grows p session s u ∧ step u a = .stopped t why := by
  obtain ⟨before, a, after, u, rfl, through, stop⟩ := exists_split_of_each_eq_stopped h
  have growth : Grows p session s (Attempt.each step s before).seating :=
    grows_each (fun s b hb => grows s b (List.mem_append_left _ hb)) s
  rw [through] at growth
  exact ⟨a, by simp, u, growth, stop⟩

theorem exists_of_each_putInto_eq_stopped {people : List String} {index : Nat} {why : Obstacle}
    (h : Attempt.each (putInto p index) s people = .stopped t why) :
    ∃ person ∈ people, why = .capacityExceeded person (p.groupId index) (p.groupSize index) := by
  obtain ⟨before, person, after, u, rfl, -, full⟩ := exists_split_of_each_eq_stopped h
  exact ⟨person, by simp, (putInto_eq_stopped.1 full).2.2⟩

theorem seatAnywhere_eq_stopped {person : String} {why : Obstacle}
    (h : s.seatAnywhere p person = .stopped t why) :
    why = .noCapacity person ∧ s.placed.get? person = none ∧ ∀ index, s.spare p index = 0 := by
  have ends := seatAnywhere_ends p s person
  rw [h] at ends
  cases ends with
  | nowhere fresh full => exact ⟨rfl, fresh, full⟩

theorem toFinset_seated_subset (h : s.Coherent p session) :
    (s.order.map Prod.fst).toFinset ⊆ (p.activeIds session).toFinset := by
  intro id seated
  obtain ⟨e, he, rfl⟩ := List.mem_map.1 (List.mem_toFinset.1 seated)
  exact List.mem_toFinset.2 (h.active e he)

theorem card_seated (h : s.Coherent p session) :
    (s.order.map Prod.fst).toFinset.card = s.order.length := by
  rw [List.toFinset_card_of_nodup h.once, List.length_map]

theorem card_active_le_of_placeRemaining (h : s.Coherent p session)
    (run : placeRemaining p session s = .done t) :
    (p.activeIds session).toFinset.card ≤ p.seats := by
  have records := (grows_of_placeRemaining run).coherent h
  have everyone : (p.activeIds session).toFinset ⊆ (t.order.map Prod.fst).toFinset := by
    intro id active
    obtain ⟨index, seated⟩ := exists_placed_of_placeRemaining run (List.mem_toFinset.1 active)
    exact List.mem_toFinset.2 (List.mem_map.2 ⟨_, (records.placed id index).1 seated, rfl⟩)
  calc (p.activeIds session).toFinset.card
      ≤ (t.order.map Prod.fst).toFinset.card := Finset.card_le_card everyone
    _ = t.order.length := card_seated records
    _ ≤ p.seats := length_le_seats records

/-- When the walk stops, all seats are taken, and not by the person it stops at. -/
theorem seats_lt_of_placeRemaining (h : s.Coherent p session) {why : Obstacle}
    (run : placeRemaining p session s = .stopped t why) :
    (∃ person, why = .noCapacity person) ∧ p.seats < (p.activeIds session).toFinset.card := by
  obtain ⟨person, active, u, growth, stop⟩ :=
    exists_of_each_eq_stopped (fun s _ active => grows_seatAnywhere s active) run
  obtain ⟨rfl, fresh, full⟩ := seatAnywhere_eq_stopped stop
  have records := growth.coherent h
  have absent : person ∉ (u.order.map Prod.fst).toFinset := by
    rw [List.mem_toFinset]
    exact records.fresh_iff.1 fresh
  have more : insert person (u.order.map Prod.fst).toFinset ⊆ (p.activeIds session).toFinset :=
    Finset.insert_subset (List.mem_toFinset.2 active) (toFinset_seated_subset records)
  have count := Finset.card_le_card more
  rw [Finset.card_insert_of_notMem absent, card_seated records,
    length_eq_seats records full] at count
  exact ⟨⟨person, rfl⟩, count⟩

end Seating

end Roster
