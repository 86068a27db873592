import Roster.Proofs.Filling

/-! The order in which seats were given is written down and never looked at. From seatings
that agree but for it, cliques, wishes and the rest are placed in step: the same people go
into the same groups, and if it comes to a stop, it does at the same obstacle. -/

namespace Roster

namespace Seating

/-- The same people in the same groups, in whatever order they got there. -/
structure SameSeats (s t : Seating) : Prop where
  occupancy : s.occupancy = t.occupancy
  placed : s.placed.get? = t.placed.get?
  order : s.order.Perm t.order

end Seating

inductive Attempt.SameSeats : Attempt → Attempt → Prop
  | done {s t : Seating} (same : s.SameSeats t) : SameSeats (.done s) (.done t)
  | stopped {s t : Seating} (same : s.SameSeats t) (why : Obstacle) :
      SameSeats (.stopped s why) (.stopped t why)

theorem Attempt.SameSeats.exists_done {s : Seating} {y : Attempt}
    (h : (Attempt.done s).SameSeats y) : ∃ t, y = .done t ∧ s.SameSeats t := by
  cases h with
  | done same => exact ⟨_, rfl, same⟩

theorem Attempt.SameSeats.exists_stopped {s : Seating} {why : Obstacle} {y : Attempt}
    (h : (Attempt.stopped s why).SameSeats y) : ∃ t, y = .stopped t why ∧ s.SameSeats t := by
  cases h with
  | stopped same => exact ⟨_, rfl, same⟩

theorem Attempt.SameSeats.andThen {x y : Attempt} {next : Seating → Attempt} (h : x.SameSeats y)
    (step : ∀ s t : Seating, s.SameSeats t → (next s).SameSeats (next t)) :
    (x.andThen next).SameSeats (y.andThen next) := by
  cases h with
  | done same => exact step _ _ same
  | stopped same why => exact .stopped same why

namespace Seating

variable {p : Problem} {session : Nat} {s t : Seating}

theorem sameSeats_each {α : Type} {step : Seating → α → Attempt}
    (steps : ∀ s t : Seating, s.SameSeats t → ∀ a, (step s a).SameSeats (step t a))
    (h : s.SameSeats t) (l : List α) :
    (Attempt.each step s l).SameSeats (Attempt.each step t l) := by
  induction l generalizing s t with
  | nil => exact .done h
  | cons a rest ih => exact (steps s t h a).andThen fun _ _ same => ih same

namespace SameSeats

theorem spare_eq (h : s.SameSeats t) : s.spare p = t.spare p := by
  funext index
  rw [spare, spare, h.occupancy]

theorem roomiest?_eq (h : s.SameSeats t) : s.roomiest? p = t.roomiest? p :=
  roomiest?_congr h.spare_eq rfl

end SameSeats

theorem sameSeats_put (h : s.SameSeats t) (person : String) (index : Nat) :
    (s.put person index).SameSeats (t.put person index) where
  occupancy := by rw [put, put, h.occupancy]
  placed := by
    funext other
    rw [get?_put, get?_put, h.placed]
  order := h.order.append_right _

theorem sameSeats_putInto (h : s.SameSeats t) (index : Nat) (person : String) :
    (s.putInto p index person).SameSeats (t.putInto p index person) := by
  unfold putInto
  rw [h.spare_eq]
  split
  · exact .stopped h _
  · exact .done (sameSeats_put h person index)

theorem sameSeats_placeClique (h : s.SameSeats t) (clique : List String) :
    (s.placeClique p clique).SameSeats (t.placeClique p clique) := by
  have settle : ∀ index people,
      (Attempt.each (putInto p index) s people).SameSeats (.each (putInto p index) t people) :=
    fun index => sameSeats_each (fun _ _ same => sameSeats_putInto same index) h
  simp only [placeClique, h.placed, h.roomiest?_eq]
  cases clique.filterMap t.placed.get? with
  | nil =>
    cases t.roomiest? p (clique.filter fun member => (t.placed.get? member).isNone).length with
    | none => exact .stopped h _
    | some index => exact settle index _
  | cons index others =>
    cases apart : others.find? (· ≠ index) with
    | some other => simpa only [apart] using .stopped h _
    | none => simpa only [apart] using settle index _

theorem sameSeats_keep (h : s.SameSeats t) (wish : String → Option String) (person : String) :
    (s.keep p wish person).SameSeats (t.keep p wish person) := by
  simp only [keep, h.placed, h.spare_eq]
  split
  · split
    · exact h
    · exact sameSeats_put h person _
  · exact h

theorem sameSeats_seatAnywhere (h : s.SameSeats t) (person : String) :
    (s.seatAnywhere p person).SameSeats (t.seatAnywhere p person) := by
  simp only [seatAnywhere, h.placed, h.roomiest?_eq]
  cases t.placed.get? person with
  | some index => exact .done h
  | none =>
    cases t.roomiest? p 1 with
    | none => exact .stopped h _
    | some index => exact .done (sameSeats_put h person index)

theorem sameSeats_placeSeeded (h : s.SameSeats t) (wish : String → Option String) :
    (placeSeeded p session wish s).SameSeats (placeSeeded p session wish t) := by
  unfold placeSeeded
  induction p.activeIds session generalizing s t with
  | nil => exact h
  | cons person rest ih => exact ih (sameSeats_keep h wish person)

theorem sameSeats_afterPins (h : s.SameSeats t) (wish : String → Option String) :
    (afterPins p session wish s).SameSeats (afterPins p session wish t) := by
  have cliques : (placeCliques p session s).SameSeats (placeCliques p session t) :=
    sameSeats_each (fun _ _ => sameSeats_placeClique) h _
  refine cliques.andThen fun a b same => ?_
  exact sameSeats_each (fun _ _ => sameSeats_seatAnywhere) (sameSeats_placeSeeded same wish) _

theorem sameSeats_of_coherent {q : Problem} {other : Nat} (hs : s.Coherent p session)
    (ht : t.Coherent q other) (groups : p.groups = q.groups)
    (same : ∀ e, e ∈ s.order ↔ e ∈ t.order) : s.SameSeats t := by
  have order : s.order.Perm t.order :=
    (List.perm_ext_iff_of_nodup hs.once.of_map ht.once.of_map).2 same
  refine ⟨?_, ?_, order⟩
  · apply List.ext_getElem?
    intro index
    cases Nat.lt_or_ge index p.groups.length with
    | inl inside =>
      rw [hs.occupancy index inside, ht.occupancy index (groups ▸ inside), headcount, headcount,
        (order.map _).count_eq]
    | inr outside =>
      rw [List.getElem?_eq_none (hs.groups ▸ outside),
        List.getElem?_eq_none (ht.groups ▸ groups ▸ outside)]
  · funext person
    apply Option.ext
    intro index
    rw [hs.placed, ht.placed, same]

end Seating

end Roster
