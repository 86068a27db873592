import Roster.Proofs.Clique
import Roster.Proofs.Steps

/-! Whatever fills a session seats people one at a time: each is active, has no seat yet
and goes into a group with room. So the records of a seating agree all along, no group
holds more people than it has seats, and a seat once given stays. -/

namespace Roster.Seating

variable {p : Problem} {session : Nat} {s t u : Seating}

def headcount (s : Seating) (index : Nat) : Nat := (s.order.map Prod.snd).count index

@[simp] theorem headcount_put (s : Seating) (person : String) (index i : Nat) :
    (s.put person index).headcount i = s.headcount i + if i = index then 1 else 0 := by
  rw [headcount, headcount, put, List.map_append, List.count_append]
  by_cases same : i = index
  · simp [same]
  · simp [same, Ne.symm same]

theorem headcount_pos {person : String} {index : Nat} (h : (person, index) ∈ s.order) :
    0 < s.headcount index :=
  List.count_pos_iff.2 (List.mem_map.2 ⟨_, h, rfl⟩)

structure Coherent (p : Problem) (session : Nat) (s : Seating) : Prop where
  groups : s.occupancy.length = p.groups.length
  occupancy : ∀ index < p.groups.length, s.occupancy[index]? = some (s.headcount index)
  seats : ∀ index, s.headcount index ≤ p.groupSize index
  placed : ∀ person index, s.placed.get? person = some index ↔ (person, index) ∈ s.order
  once : (s.order.map Prod.fst).Nodup
  active : ∀ e ∈ s.order, e.1 ∈ p.activeIds session

/-- Seating people one by one, none of them against the rules, leads from `s` to here. -/
inductive Grows (p : Problem) (session : Nat) (s : Seating) : Seating → Prop
  | refl : Grows p session s s
  | put {t : Seating} {person : String} {index : Nat} (before : Grows p session s t)
      (active : person ∈ p.activeIds session) (fresh : t.placed.get? person = none)
      (room : 0 < t.spare p index) : Grows p session s (t.put person index)

theorem coherent_empty (p : Problem) (session : Nat) : (empty p).Coherent p session where
  groups := by simp [empty]
  occupancy index inside := by simp [empty, headcount, inside]
  seats index := by simp [empty, headcount]
  placed person index := by simp [empty]
  once := by simp [empty]
  active e he := by simp [empty] at he

namespace Coherent

theorem spare_eq (h : s.Coherent p session) (index : Nat) :
    s.spare p index = p.groupSize index - s.headcount index := by
  cases Nat.lt_or_ge index p.groups.length with
  | inl inside => rw [spare, h.occupancy index inside, Option.getD_some]
  | inr outside => rw [spare_of_le outside, Problem.groupSize_of_le outside, Nat.zero_sub]

theorem index_lt (h : s.Coherent p session) {person : String} {index : Nat}
    (seated : (person, index) ∈ s.order) : index < p.groups.length := by
  by_contra outside
  have bound := h.seats index
  rw [Problem.groupSize_of_le (Nat.le_of_not_lt outside)] at bound
  have taken := headcount_pos seated
  omega

theorem fresh_iff (h : s.Coherent p session) {person : String} :
    s.placed.get? person = none ↔ person ∉ s.order.map Prod.fst := by
  rw [Option.eq_none_iff_forall_ne_some]
  constructor
  · intro nowhere seated
    obtain ⟨⟨_, index⟩, he, rfl⟩ := List.mem_map.1 seated
    exact nowhere index ((h.placed _ index).2 he)
  · intro absent index seated
    exact absent (List.mem_map.2 ⟨_, (h.placed person index).1 seated, rfl⟩)

theorem put (h : s.Coherent p session) {person : String} {index : Nat}
    (active : person ∈ p.activeIds session) (fresh : s.placed.get? person = none)
    (room : 0 < s.spare p index) : (s.put person index).Coherent p session where
  groups := by simpa [Seating.put] using h.groups
  occupancy i inside := by
    rw [headcount_put, Seating.put, List.getElem?_modify, h.occupancy i inside]
    by_cases same : index = i
    · simp [same]
    · simp [same, Ne.symm same]
  seats i := by
    have bound := h.seats i
    rw [h.spare_eq] at room
    rw [headcount_put]
    split
    · subst_vars; omega
    · exact bound
  placed other i := by
    have kept := h.placed other i
    simp only [Seating.put, SortedMap.get?_insert, List.mem_append, List.mem_singleton,
      Prod.mk.injEq]
    by_cases same : other = person
    · subst same
      have absent : (other, i) ∉ s.order := by
        rw [← kept, fresh]
        simp
      simp [absent, eq_comm]
    · simp [same, kept]
  once := by
    have absent := h.fresh_iff.1 fresh
    rw [Seating.put, List.map_append, List.nodup_append]
    refine ⟨h.once, by simp, ?_⟩
    intro a ha b hb same
    simp only [List.map_cons, List.map_nil, List.mem_singleton] at hb
    exact absent (hb ▸ same ▸ ha)
  active e he := by
    cases List.mem_append.1 he with
    | inl old => exact h.active e old
    | inr new =>
      rw [List.mem_singleton.1 new]
      exact active

theorem spare_put (h : s.Coherent p session) {person : String} {index : Nat}
    (active : person ∈ p.activeIds session) (fresh : s.placed.get? person = none)
    (room : 0 < s.spare p index) (j : Nat) :
    (s.put person index).spare p j = s.spare p j - if j = index then 1 else 0 := by
  rw [(h.put active fresh room).spare_eq, headcount_put, h.spare_eq, Nat.sub_sub]

end Coherent

namespace Grows

theorem trans (h : Grows p session s t) (h' : Grows p session t u) : Grows p session s u := by
  induction h' with
  | refl => exact h
  | put _ active fresh room ih => exact ih.put active fresh room

theorem coherent (h : Grows p session s t) (hs : s.Coherent p session) : t.Coherent p session := by
  induction h with
  | refl => exact hs
  | put _ active fresh room ih => exact ih.put active fresh room

theorem order_prefix (h : Grows p session s t) : s.order <+: t.order := by
  induction h with
  | refl => exact List.prefix_rfl
  | put _ _ _ _ ih => exact ih.trans (List.prefix_append _ _)

theorem placed (h : Grows p session s t) {person : String} {index : Nat}
    (seated : s.placed.get? person = some index) : t.placed.get? person = some index := by
  induction h with
  | refl => exact seated
  | put _ _ fresh _ ih =>
    rw [Seating.put, SortedMap.get?_insert]
    split
    · subst_vars; rw [ih] at fresh; simp at fresh
    · exact ih

end Grows

theorem keeps_each {α : Type} {step : Seating → α → Attempt} {l : List α} (inv : Seating → Prop)
    (keeps : ∀ s, ∀ a ∈ l, inv s → inv (step s a).seating) {s : Seating} (start : inv s) :
    inv (Attempt.each step s l).seating := by
  induction l generalizing s with
  | nil => exact start
  | cons a rest ih =>
    have first := keeps s a List.mem_cons_self start
    rw [Attempt.each]
    cases h : step s a with
    | stopped t why => rwa [h] at first
    | done t =>
      rw [h] at first
      exact ih (fun s b hb => keeps s b (List.mem_cons_of_mem a hb)) first

theorem grows_each {α : Type} {step : Seating → α → Attempt} {l : List α}
    (one : ∀ s, ∀ a ∈ l, Grows p session s (step s a).seating) (s : Seating) :
    Grows p session s (Attempt.each step s l).seating :=
  keeps_each (Grows p session s) (fun t a ha growth => growth.trans (one t a ha)) .refl

theorem grows_putInto {person : String} (index : Nat) (active : person ∈ p.activeIds session)
    (fresh : s.placed.get? person = none) :
    Grows p session s (s.putInto p index person).seating := by
  unfold putInto
  split
  · exact .refl
  · exact Grows.refl.put active fresh (by omega)

theorem get?_put (s : Seating) (person other : String) (index : Nat) :
    (s.put person index).placed.get? other =
      if other = person then some index else s.placed.get? other := by
  rw [put, SortedMap.get?_insert]

theorem forall_fresh_put {a : String} {rest : List String} (distinct : (a :: rest).Nodup)
    (fresh : ∀ b ∈ a :: rest, s.placed.get? b = none) (index : Nat) :
    ∀ b ∈ rest, (s.put a index).placed.get? b = none := by
  intro b hb
  rw [get?_put, if_neg (ne_of_mem_of_not_mem hb (List.nodup_cons.1 distinct).1)]
  exact fresh b (List.mem_cons_of_mem a hb)

theorem grows_each_putInto {people : List String} (index : Nat) (distinct : people.Nodup)
    (active : ∀ a ∈ people, a ∈ p.activeIds session)
    (fresh : ∀ a ∈ people, s.placed.get? a = none) :
    Grows p session s (Attempt.each (putInto p index) s people).seating := by
  induction people generalizing s with
  | nil => exact .refl
  | cons a rest ih =>
    have first := grows_putInto index (active a List.mem_cons_self) (fresh a List.mem_cons_self)
    rw [Attempt.each]
    cases h : s.putInto p index a with
    | stopped t why => rwa [h] at first
    | done t =>
      rw [h] at first
      refine first.trans (ih distinct.of_cons (fun b hb => active b (List.mem_cons_of_mem _ hb)) ?_)
      rw [Attempt.seating_done, (putInto_eq_done.1 h).2]
      exact forall_fresh_put distinct fresh index

theorem mem_activeIds {id : String} :
    id ∈ p.activeIds session ↔ ∃ person ∈ p.people, person.id = id ∧ person.ActiveIn session := by
  simp only [Problem.activeIds, List.mem_map, List.mem_filter, decide_eq_true_eq]
  constructor
  · intro h
    obtain ⟨a, ⟨ha, hact⟩, hid⟩ := h
    exact ⟨a, ha, hid, hact⟩
  · intro h
    obtain ⟨a, ha, hid, hact⟩ := h
    exact ⟨a, ⟨ha, hact⟩, hid⟩

theorem mem_activeIds_of_person? {id : String} {person : Person}
    (found : p.person? id = some person) (active : person.ActiveIn session) :
    id ∈ p.activeIds session := by
  have hid := List.find?_some found
  exact mem_activeIds.2 ⟨person, List.mem_of_find?_eq_some found, by simpa using hid, active⟩

theorem grows_pin (s : Seating) (e : String × String) :
    Grows p session s (pin p session s e).seating := by
  have ends := pin_ends p session s e.1 e.2
  generalize pin p session s e = x at ends ⊢
  cases ends with
  | seated known present _ fresh room =>
    exact Grows.refl.put (mem_activeIds_of_person? known present) fresh room
  | _ => exact .refl

theorem grows_placeClique (s : Seating) {clique : List String}
    (h : clique ∈ p.cliques session (p.activeIds session)) :
    Grows p session s (placeClique p s clique).seating := by
  have settle : ∀ index, Grows p session s
      (Attempt.each (putInto p index) s (s.unplaced clique)).seating := fun index =>
    grows_each_putInto index ((Problem.nodup_of_mem_cliques h).filter _)
      (fun a ha => Problem.mem_of_mem_cliques h (mem_unplaced.1 ha).1)
      fun a ha => (mem_unplaced.1 ha).2
  have ends := placeClique_ends p s clique
  generalize placeClique p s clique = x at ends ⊢
  cases ends with
  | infeasible | torn => exact .refl
  | roomiest _ _ walk | follow _ _ _ walk => exact walk ▸ settle _

theorem grows_keep (wish : String → Option String) (s : Seating) {person : String}
    (active : person ∈ p.activeIds session) : Grows p session s (s.keep p wish person) := by
  have ends := keep_ends p s person wish
  generalize s.keep p wish person = t at ends ⊢
  cases ends with
  | asBefore => exact .refl
  | put fresh _ room => exact Grows.refl.put active fresh room

theorem grows_seatAnywhere (s : Seating) {person : String}
    (active : person ∈ p.activeIds session) :
    Grows p session s (s.seatAnywhere p person).seating := by
  have ends := seatAnywhere_ends p s person
  generalize s.seatAnywhere p person = x at ends ⊢
  cases ends with
  | asBefore | nowhere => exact .refl
  | put fresh chosen => exact Grows.refl.put active fresh (roomiest?_eq_some.1 chosen).1

theorem grows_placePinned (s : Seating) : Grows p session s (placePinned p session s).seating :=
  grows_each (fun s e _ => grows_pin s e) s

theorem grows_placeCliques (s : Seating) : Grows p session s (placeCliques p session s).seating :=
  grows_each (fun s _ h => grows_placeClique s h) s

theorem grows_foldl_keep (wish : String → Option String) {people : List String}
    (active : ∀ a ∈ people, a ∈ p.activeIds session) (s : Seating) :
    Grows p session s (people.foldl (keep p wish) s) := by
  induction people generalizing s with
  | nil => exact .refl
  | cons a rest ih =>
    obtain ⟨first, others⟩ := List.forall_mem_cons.1 active
    exact (grows_keep wish s first).trans (ih others _)

theorem grows_placeSeeded (wish : String → Option String) (s : Seating) :
    Grows p session s (placeSeeded p session wish s) :=
  grows_foldl_keep wish (fun _ h => h) s

theorem grows_placeRemaining (s : Seating) :
    Grows p session s (placeRemaining p session s).seating :=
  grows_each (fun s _ h => grows_seatAnywhere s h) s

end Roster.Seating
