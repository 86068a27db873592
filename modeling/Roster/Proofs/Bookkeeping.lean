import Roster.Proofs.Filling

/-! The records of a session while it is filled. After any of its phases, come through or
stopped on the way, the count of each group, the seat of each person and the order in which
seats were given say the same, and what comes later only adds to them. -/

namespace Roster.Seating

variable {p : Problem} {session : Nat} {s : Seating}

inductive Phase
  | pinned
  | cliques
  | seeded (wish : String → Option String)
  | remaining

def carryOut (p : Problem) (session : Nat) (s : Seating) : Phase → Attempt
  | .pinned => placePinned p session s
  | .cliques => placeCliques p session s
  | .seeded wish => .done (placeSeeded p session wish s)
  | .remaining => placeRemaining p session s

def afterPhases (p : Problem) (session : Nat) (phases : List Phase) : Seating :=
  (Attempt.each (carryOut p session) (empty p) phases).seating

theorem fill_eq_each (p : Problem) (session : Nat) (wish : String → Option String) :
    fill p session wish =
      .each (carryOut p session) (empty p) [.pinned, .cliques, .seeded wish, .remaining] := by
  have last : ∀ x : Attempt, x.andThen .done = x := fun x => by cases x <;> rfl
  simp only [fill, Attempt.each, carryOut, last]
  rfl

theorem grows_carryOut (s : Seating) (phase : Phase) :
    Grows p session s (carryOut p session s phase).seating := by
  cases phase with
  | pinned => exact grows_placePinned s
  | cliques => exact grows_placeCliques s
  | seeded wish => exact grows_placeSeeded wish s
  | remaining => exact grows_placeRemaining s

theorem coherent_afterPhases (p : Problem) (session : Nat) (phases : List Phase) :
    (afterPhases p session phases).Coherent p session :=
  (grows_each (fun s phase _ => grows_carryOut s phase) _).coherent (coherent_empty p session)

theorem grows_afterPhases (phases later : List Phase) :
    Grows p session (afterPhases p session phases) (afterPhases p session (phases ++ later)) := by
  rw [afterPhases, afterPhases, Attempt.each_append]
  cases Attempt.each (carryOut p session) (empty p) phases with
  | done s => exact grows_each (fun s phase _ => grows_carryOut s phase) s
  | stopped s why => exact .refl

theorem Coherent.headcount_add_spare (h : s.Coherent p session) (index : Nat) :
    s.headcount index + s.spare p index = p.groupSize index := by
  rw [h.spare_eq]
  exact Nat.add_sub_cancel' (h.seats index)

/-- Filling a session is four phases, one after the other. After any phases at all, the last of them
stopped or not, each group is counted as it was given people and has the rest of its size to spare,
those in the order are those with a place, each of them once, there and active, and whatever
comes later adds to the end of the order and takes no place away. -/
theorem records_agree (p : Problem) (session : Nat) :
    (∀ wish, (fill p session wish).seating =
      afterPhases p session [.pinned, .cliques, .seeded wish, .remaining]) ∧
    ∀ phases, let s := afterPhases p session phases
      (s.occupancy.length = p.groups.length ∧ ∀ index : Fin p.groups.length,
        s.occupancy[index.1]? = some (s.headcount index) ∧
        s.headcount index + s.spare p index = p.groups[index].size) ∧
      (∀ person index, s.placed.get? person = some index ↔ (person, index) ∈ s.order) ∧
      (s.order.map Prod.fst).Nodup ∧
      (∀ person index, (person, index) ∈ s.order → index < p.groups.length ∧
        ∃ declared ∈ p.people, declared.id = person ∧ declared.ActiveIn session) ∧
      ∀ later, let t := afterPhases p session (phases ++ later)
        (∃ added, t.order = s.order ++ added) ∧
        ∀ person index, s.placed.get? person = some index → t.placed.get? person = some index := by
  refine ⟨fun wish => congrArg Attempt.seating (fill_eq_each p session wish), fun phases => ?_⟩
  have records := coherent_afterPhases p session phases
  refine ⟨⟨records.groups, fun index => ⟨records.occupancy index index.2, ?_⟩⟩, records.placed,
    records.once, fun person index seated => ⟨records.index_lt seated, ?_⟩, fun later => ⟨?_, ?_⟩⟩
  · rw [records.headcount_add_spare, Problem.groupSize_of_lt index.2]
    rfl
  · exact mem_activeIds.1 (records.active _ seated)
  · obtain ⟨added, same⟩ := Grows.order_prefix (grows_afterPhases phases later)
    exact ⟨added, same.symm⟩
  · exact fun person index => (grows_afterPhases phases later).placed

example : afterPhases
    ⟨[⟨"a", .empty, none⟩, ⟨"b", .empty, none⟩, ⟨"c", .empty, none⟩], [⟨"x", 2⟩], 1,
      [.rule (.mustStayTogether ["a", "b", "c"]), .rule (.immovablePerson "c" "x")]⟩ 0
    [.pinned, .cliques, .remaining] =
      ⟨[2], ⟨[("a", 0), ("c", 0)], by decide⟩, [("c", 0), ("a", 0)]⟩ := by
  decide +kernel

end Roster.Seating
