import Roster.Proofs.Spare

/-! What each step of filling a session can come to, with all that has been found out by then.
Later proofs go through these cases and leave the steps themselves closed. -/

namespace Roster.Seating

theorem putInto_eq_done {p : Problem} {s t : Seating} {person : String} {index : Nat} :
    s.putInto p index person = .done t ↔ 0 < s.spare p index ∧ t = s.put person index := by
  unfold putInto
  split
  · rename_i full
    simp [full]
  · rename_i room
    simp [Nat.pos_of_ne_zero room, eq_comm]

theorem putInto_eq_stopped {p : Problem} {s t : Seating} {person : String} {index : Nat}
    {why : Obstacle} : s.putInto p index person = .stopped t why ↔ s.spare p index = 0 ∧ t = s ∧
      why = .capacityExceeded person (p.groupId index) (p.groupSize index) := by
  unfold putInto
  split
  · rename_i full
    simp [full, eq_comm]
  · rename_i room
    simp [room]

def unplaced (s : Seating) (people : List String) : List String :=
  people.filter fun person => (s.placed.get? person).isNone

theorem mem_unplaced {s : Seating} {people : List String} {person : String} :
    person ∈ s.unplaced people ↔ person ∈ people ∧ s.placed.get? person = none := by
  rw [unplaced, List.mem_filter, Option.isNone_iff_eq_none]

section Cases

variable (p : Problem) (session : Nat) (s : Seating) (person group : String)
  (clique : List String) (wish : String → Option String)

inductive PinEnds : Attempt → Prop
  | unknownPerson (absent : p.person? person = none) : PinEnds (.stopped s (.unknownPerson person))
  | inactivePerson {found : Person} (known : p.person? person = some found)
      (away : ¬ found.ActiveIn session) : PinEnds (.stopped s (.inactivePerson person group))
  | unknownGroup {found : Person} (known : p.person? person = some found)
      (present : found.ActiveIn session) (absent : p.groupIndex? group = none) :
      PinEnds (.stopped s (.unknownGroup person group))
  | full {found : Person} {index : Nat} (known : p.person? person = some found)
      (present : found.ActiveIn session) (declared : p.groupIndex? group = some index)
      (fresh : s.placed.get? person = none) (full : s.spare p index = 0) :
      PinEnds (.stopped s (.capacityExceeded person group (p.groupSize index)))
  | seated {found : Person} {index : Nat} (known : p.person? person = some found)
      (present : found.ActiveIn session) (declared : p.groupIndex? group = some index)
      (fresh : s.placed.get? person = none) (room : 0 < s.spare p index) :
      PinEnds (.done (s.put person index))
  | again {found : Person} {index : Nat} (known : p.person? person = some found)
      (present : found.ActiveIn session) (declared : p.groupIndex? group = some index)
      (there : s.placed.get? person = some index) : PinEnds (.done s)
  | elsewhere {found : Person} {index current : Nat} (known : p.person? person = some found)
      (present : found.ActiveIn session) (declared : p.groupIndex? group = some index)
      (there : s.placed.get? person = some current) (apart : current ≠ index) :
      PinEnds (.stopped s (.conflictingPlacement person (p.groupId current) group))

/-- Members without a seat follow those who have one, and where nobody has one all of the clique
goes to the roomiest group. -/
inductive CliqueEnds : Attempt → Prop
  | infeasible (nobody : ∀ a ∈ clique, s.placed.get? a = none)
      (nowhere : s.roomiest? p (s.unplaced clique).length = none) :
      CliqueEnds (.stopped s (.cliqueInfeasible clique))
  | roomiest {index : Nat} {x : Attempt} (nobody : ∀ a ∈ clique, s.placed.get? a = none)
      (chosen : s.roomiest? p (s.unplaced clique).length = some index)
      (walk : .each (putInto p index) s (s.unplaced clique) = x) : CliqueEnds x
  | torn {a b : String} {i j : Nat} (ha : a ∈ clique) (hb : b ∈ clique)
      (seatA : s.placed.get? a = some i) (seatB : s.placed.get? b = some j) (apart : i ≠ j) :
      CliqueEnds (.stopped s (.cliqueConflict clique (p.groupId i) (p.groupId j)))
  | follow {a : String} {index : Nat} {x : Attempt} (ha : a ∈ clique)
      (seat : s.placed.get? a = some index)
      (agree : ∀ b ∈ clique, ∀ i, s.placed.get? b = some i → i = index)
      (walk : .each (putInto p index) s (s.unplaced clique) = x) : CliqueEnds x

inductive KeepEnds : Seating → Prop
  | asBefore (settled : ∀ index, s.placed.get? person = none →
      (wish person).bind p.groupIndex? = some index → s.spare p index = 0) : KeepEnds s
  | put {index : Nat} (fresh : s.placed.get? person = none)
      (wished : (wish person).bind p.groupIndex? = some index) (room : 0 < s.spare p index) :
      KeepEnds (s.put person index)

inductive SeatEnds : Attempt → Prop
  | asBefore {index : Nat} (there : s.placed.get? person = some index) : SeatEnds (.done s)
  | nowhere (fresh : s.placed.get? person = none) (full : ∀ index, s.spare p index = 0) :
      SeatEnds (.stopped s (.noCapacity person))
  | put {index : Nat} (fresh : s.placed.get? person = none)
      (chosen : s.roomiest? p 1 = some index) : SeatEnds (.done (s.put person index))

theorem pin_ends : PinEnds p session s person group (pin p session s (person, group)) := by
  simp only [pin]
  split
  · exact .unknownPerson ‹_›
  · rename_i found known
    split
    · exact .inactivePerson known ‹_›
    · rename_i present
      rw [Decidable.not_not] at present
      split
      · exact .unknownGroup known present ‹_›
      · rename_i index declared
        split
        · rename_i fresh
          unfold putInto
          split
          · rename_i full
            rw [Problem.groupId_of_groupIndex? declared]
            exact .full known present declared fresh full
          · rename_i room
            exact .seated known present declared fresh (Nat.pos_of_ne_zero room)
        · rename_i current there
          split
          · rename_i same
            exact .again known present declared (same ▸ there)
          · rename_i apart
            exact .elsewhere known present declared there apart

theorem placeClique_ends : CliqueEnds p s clique (placeClique p s clique) := by
  simp only [placeClique]
  split
  · rename_i nobody
    rw [List.filterMap_eq_nil_iff] at nobody
    split
    · exact .infeasible nobody ‹_›
    · exact .roomiest nobody ‹_› rfl
  · rename_i index others seats
    have seated : ∀ i, i ∈ index :: others ↔ ∃ a ∈ clique, s.placed.get? a = some i :=
      fun i => by rw [← seats, List.mem_filterMap]
    obtain ⟨a, ha, seat⟩ := (seated index).1 List.mem_cons_self
    split
    · rename_i other found
      obtain ⟨b, hb, there⟩ :=
        (seated other).1 (List.mem_cons_of_mem index (List.mem_of_find?_eq_some found))
      have apart : other ≠ index := by simpa using List.find?_some found
      exact .torn ha hb seat there apart.symm
    · rename_i agree
      refine .follow ha seat (fun b hb i there => ?_) rfl
      cases List.mem_cons.1 ((seated i).2 ⟨b, hb, there⟩) with
      | inl same => exact same
      | inr other => simpa using List.find?_eq_none.1 agree i other

theorem keep_ends : KeepEnds p s person wish (s.keep p wish person) := by
  unfold keep
  split
  · rename_i index fresh wished
    split
    · rename_i full
      refine .asBefore fun other _ same => ?_
      rwa [← Option.some.inj (wished.symm.trans same)]
    · rename_i room
      exact .put fresh wished (Nat.pos_of_ne_zero room)
  · rename_i other
    exact .asBefore fun index fresh wished => absurd wished (other index fresh)

theorem seatAnywhere_ends : SeatEnds p s person (s.seatAnywhere p person) := by
  unfold seatAnywhere
  split
  · exact .asBefore ‹_›
  · rename_i fresh
    split
    · rename_i nowhere
      refine .nowhere fresh fun index => ?_
      have full := roomiest?_eq_none.1 nowhere index
      omega
    · exact .put fresh ‹_›

end Cases

end Roster.Seating
