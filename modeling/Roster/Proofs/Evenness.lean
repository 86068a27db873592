import Roster.Proofs.Seeding

/-! How evenly the seats are left over. Those who have no seat after pins, cliques and wishes go
one after the other to the group with the most seats left, and to the earliest of several. So
when a session is filled, a group that took in one of them has no fewer seats left than any group
declared before it, and at most one fewer than any group declared after it. -/

namespace Roster

namespace Seating

variable {p : Problem} {session index : Nat} {s t : Seating} {person : String}

/-- No group before this one has more spare seats, and none after it has two more. -/
structure Level (p : Problem) (index : Nat) (s : Seating) : Prop where
  before : ∀ j < index, s.spare p j ≤ s.spare p index
  after : ∀ j, index < j → s.spare p j ≤ s.spare p index + 1

theorem level_put_of_roomiest? (h : s.Coherent p session) (active : person ∈ p.activeIds session)
    (fresh : s.placed.get? person = none) (roomy : s.roomiest? p 1 = some index) :
    (s.put person index).Level p index := by
  obtain ⟨room, -, most, first⟩ := roomiest?_eq_some.1 roomy
  have here := h.spare_put active fresh room index
  rw [if_pos rfl] at here
  constructor
  · intro j earlier
    have there := h.spare_put active fresh room j
    have fewer := first j earlier
    omega
  · intro j later
    have there := h.spare_put active fresh room j
    have fewer := most j
    omega

theorem Level.put (level : s.Level p index) (h : s.Coherent p session) {other : Nat}
    (active : person ∈ p.activeIds session) (fresh : s.placed.get? person = none)
    (room : 0 < s.spare p other) (apart : index ≠ other) :
    (s.put person other).Level p index := by
  have here := h.spare_put active fresh room index
  rw [if_neg apart] at here
  constructor
  · intro j earlier
    have there := h.spare_put active fresh room j
    have bound := level.before j earlier
    omega
  · intro j later
    have there := h.spare_put active fresh room j
    have bound := level.after j later
    omega

/-- The records agree, and every group that took someone in since `s` is level. -/
structure LevelSince (p : Problem) (session : Nat) (s t : Seating) : Prop where
  coherent : t.Coherent p session
  level : ∀ person index, s.placed.get? person = none → t.placed.get? person = some index →
    t.Level p index

theorem LevelSince.seatAnywhere {u : Seating} (h : LevelSince p session s u)
    (active : person ∈ p.activeIds session) :
    LevelSince p session s (u.seatAnywhere p person).seating := by
  refine ⟨(grows_seatAnywhere u active).coherent h.coherent, ?_⟩
  have ends := seatAnywhere_ends p u person
  generalize u.seatAnywhere p person = x at ends ⊢
  cases ends with
  | asBefore | nowhere => exact h.level
  | @put k fresh roomy =>
    intro other index unseated seated
    rw [Attempt.seating_done] at seated ⊢
    by_cases same : index = k
    · rw [same]
      exact level_put_of_roomiest? h.coherent active fresh roomy
    · rw [get?_put] at seated
      split at seated
      · exact absurd (Option.some.inj seated).symm same
      · have room := (roomiest?_eq_some.1 roomy).1
        exact (h.level other index unseated seated).put h.coherent active fresh room same

theorem levelSince_placeRemaining (h : s.Coherent p session) :
    LevelSince p session s (placeRemaining p session s).seating := by
  refine keeps_each (LevelSince p session s) (fun _ _ active before => before.seatAnywhere active)
    ⟨h, fun person index fresh seated => ?_⟩
  rw [fresh] at seated
  simp at seated

theorem length_members_eq (h : s.Coherent p session) (distinct : (p.groups.map (·.id)).Nodup)
    (declared : index < p.groups.length) :
    (s.members p (p.groupId index)).length = s.headcount index := by
  have same : ∀ e ∈ s.order, p.groupId e.2 = p.groupId index ↔ e.2 = index := by
    intro e he
    constructor
    · intro named
      have first := Problem.groupIndex?_groupId distinct (h.index_lt he)
      rw [named, Problem.groupIndex?_groupId distinct declared] at first
      exact (Option.some.inj first).symm
    · exact congrArg p.groupId
  rw [members, List.length_map, headcount, List.count_eq_countP, List.countP_map,
    List.countP_eq_length_filter]
  refine congrArg List.length (List.filter_congr fun e he => ?_)
  rw [Function.comp_apply, beq_eq_decide, decide_eq_decide]
  exact same e he

end Seating

def Group.spareIn (group : Group) (schedule : Schedule) (session : Nat) : Int :=
  group.size - schedule.occupancy session group.id

namespace Problem

variable {p : Problem} {previous : List Assignment} {seeding : Bool} {schedule : Schedule}
  {session index : Nat} {id : String}

/-- Someone sits in a group without being bound to a seat, and not because an earlier result
first names that group. -/
structure SeatedLast (p : Problem) (previous : List Assignment) (seeding : Bool)
    (schedule : Schedule) (session : Nat) (group id : String) : Prop where
  active : id ∈ p.activeIds session
  free : ¬ p.Bound session id
  unkept : wishes previous seeding session id ≠ some group
  seated : id ∈ schedule.peopleIn session group

theorem seatedLast_iff (distinct : (p.groups.map (·.id)).Nodup)
    (h : p.reconcile previous seeding = .ok schedule) (inside : session < p.sessionCount)
    (declared : index < p.groups.length) {a b : Seating}
    (pinned : Seating.placePinned p session (.empty p) = .done a)
    (grouped : Seating.placeCliques p session a = .done b)
    (rest : Seating.placeRemaining p session
      (Seating.placeSeeded p session (wishes previous seeding session) b) =
        .done (p.seating (wishes previous seeding) session)) :
    p.SeatedLast previous seeding schedule session (p.groupId index) id ↔
      (Seating.placeSeeded p session (wishes previous seeding session) b).placed.get? id = none ∧
        (p.seating (wishes previous seeding) session).placed.get? id = some index := by
  have records := Seating.coherent_of_placeCliques pinned grouped
  have seeded := Seating.coherent_placeSeeded pinned grouped (wishes previous seeding session)
  have growth := Seating.grows_of_placeRemaining rest
  have wished : (wishes previous seeding session id).bind p.groupIndex? = some index ↔ _ :=
    bind_groupIndex?_eq_some distinct declared
  have seat : id ∈ schedule.peopleIn session (p.groupId index) ↔ _ :=
    mem_peopleIn_iff distinct h inside declared
  constructor
  · intro last
    have ends := seat.1 last.seated
    refine ⟨Option.eq_none_iff_forall_ne_some.2 fun i early => ?_, ends⟩
    rw [growth.placed early] at ends
    obtain rfl := Option.some.inj ends
    obtain old | ⟨-, named⟩ := Seating.mem_order_foldl_keep ((seeded.placed id i).1 early)
    · have fresh := (Seating.fresh_iff_not_bound pinned grouped).2 last.free
      rw [(records.placed id i).2 old] at fresh
      simp at fresh
    · exact last.unkept (wished.1 named)
  · intro late
    obtain ⟨fresh, ends⟩ := late
    have final := growth.coherent seeded
    have active := final.active _ ((final.placed id index).1 ends)
    refine ⟨active, fun bound => ?_, fun named => ?_, seat.2 ends⟩
    · obtain ⟨i, before⟩ := Seating.exists_placed_of_bound pinned grouped bound
      have walk : Seating.Grows p session b
          (Seating.placeSeeded p session (wishes previous seeding session) b) :=
        Seating.grows_placeSeeded _ b
      rw [walk.placed before] at fresh
      simp at fresh
    · obtain ⟨i, early⟩ | full :=
        Seating.placed_or_full records (fun _ listed => listed) active (wished.2 named)
      · rw [Seating.placeSeeded, early] at fresh
        simp at fresh
      · rw [growth.placed_of_full seeded full ends] at fresh
        simp at fresh

theorem spareIn_groupAt (distinct : (p.groups.map (·.id)).Nodup)
    (h : p.reconcile previous seeding = .ok schedule) (inside : session < p.sessionCount)
    (declared : index < p.groups.length) :
    p.groups[index].spareIn schedule session =
      ((p.seating (wishes previous seeding) session).spare p index : Nat) := by
  have records := Seating.coherent_of_fill ((reconcile_eq_ok h).1 session inside)
  have held : schedule.occupancy session p.groups[index].id =
      (p.seating (wishes previous seeding) session).headcount index := by
    rw [Schedule.occupancy, peopleIn_of_reconcile h, if_pos inside, ← groupId_of_lt declared,
      Seating.length_members_eq records distinct declared]
  have bound := records.seats index
  rw [Group.spareIn, held, records.spare_eq, ← groupSize_of_lt declared]
  omega

end Problem

/-- A group that took in one of those who are seated last has as many seats left as every group
before it, and at most one fewer than every group after it. -/
theorem spareIn_le_of_reconcile {p : Problem} (distinct : (p.groups.map (·.id)).Nodup)
    {previous : List Assignment} {seeding : Bool} {schedule : Schedule}
    (h : p.reconcile previous seeding = .ok schedule) {session : Nat}
    (inside : session < p.sessionCount) {before after : List Group} {group : Group}
    (split : p.groups = before ++ group :: after) {id : String}
    (last : p.SeatedLast previous seeding schedule session group.id id) :
    (∀ other ∈ before, other.spareIn schedule session ≤ group.spareIn schedule session) ∧
    ∀ other ∈ after, other.spareIn schedule session ≤ group.spareIn schedule session + 1 := by
  obtain ⟨a, b, pinned, grouped, rest⟩ :=
    Seating.fill_eq_done.1 ((Problem.reconcile_eq_ok h).1 session inside)
  have here : before.length < p.groups.length := by simp [split]
  have found : p.groups[before.length] = group := by simp [split]
  have spare : ∀ (j : Nat) (declared : j < p.groups.length),
      p.groups[j].spareIn schedule session =
        ((p.seating (wishes previous seeding) session).spare p j : Nat) :=
    fun _ declared => Problem.spareIn_groupAt distinct h inside declared
  rw [← found, ← Problem.groupId_of_lt here] at last
  obtain ⟨fresh, ends⟩ := (Problem.seatedLast_iff distinct h inside here pinned grouped rest).1 last
  have filled := Seating.levelSince_placeRemaining
    (Seating.coherent_placeSeeded pinned grouped (wishes previous seeding session))
  rw [rest, Attempt.seating_done] at filled
  have level := filled.level id before.length fresh ends
  rw [← found, spare _ here]
  constructor
  · intro other listed
    obtain ⟨j, inBefore, rfl⟩ := List.getElem_of_mem listed
    have declared : j < p.groups.length := by omega
    have place : p.groups[j] = before[j] := by simp [split, inBefore]
    have bound := level.before j inBefore
    rw [← place, spare j declared]
    omega
  · intro other listed
    obtain ⟨j, inAfter, rfl⟩ := List.getElem_of_mem listed
    have declared : before.length + (j + 1) < p.groups.length := by
      rw [split, List.length_append, List.length_cons]
      omega
    have place : p.groups[before.length + (j + 1)] = after[j] := by simp [split]
    have bound := level.after (before.length + (j + 1)) (by omega)
    rw [← place, spare _ declared]
    omega

def commonRoom : Problem where
  people := [⟨"c", .empty, none⟩, ⟨"a", .empty, none⟩, ⟨"d", .empty, none⟩, ⟨"b", .empty, none⟩,
    ⟨"e", .empty, none⟩]
  groups := [⟨"x", 3⟩, ⟨"y", 4⟩, ⟨"z", 3⟩]
  sessionCount := 1
  constraints := [.rule (.immovablePerson "a" "x")]

def commonRoomAfter : Schedule :=
  .ofAssignments [⟨"a", "x", 0⟩, ⟨"b", "y", 0⟩, ⟨"c", "y", 0⟩, ⟨"d", "z", 0⟩, ⟨"e", "x", 0⟩]

theorem spareIn_le_commonRoom :
    (commonRoom.groups.map (·.id)).Nodup ∧
      commonRoom.reconcile [⟨"b", "y", 0⟩] = .ok commonRoomAfter ∧
      commonRoom.SeatedLast [⟨"b", "y", 0⟩] true commonRoomAfter 0 "x" "e" ∧
      (∀ other ∈ ([⟨"y", 4⟩, ⟨"z", 3⟩] : List Group), other.spareIn commonRoomAfter 0 ≤ 1 + 1) ∧
      commonRoom.SeatedLast [⟨"b", "y", 0⟩] true commonRoomAfter 0 "z" "d" ∧
      ∀ other ∈ ([⟨"x", 3⟩, ⟨"y", 4⟩] : List Group), other.spareIn commonRoomAfter 0 ≤ 2 := by
  have distinct : (commonRoom.groups.map (·.id)).Nodup := by decide
  have filled : commonRoom.reconcile [⟨"b", "y", 0⟩] = .ok commonRoomAfter := by decide +kernel
  have inside : 0 < commonRoom.sessionCount := by decide
  have first : commonRoom.SeatedLast [⟨"b", "y", 0⟩] true commonRoomAfter 0 "x" "e" :=
    ⟨by decide, by decide +kernel, by decide, by decide⟩
  have third : commonRoom.SeatedLast [⟨"b", "y", 0⟩] true commonRoomAfter 0 "z" "d" :=
    ⟨by decide, by decide +kernel, by decide, by decide⟩
  have atFirst : commonRoom.groups = [] ++ ⟨"x", 3⟩ :: [⟨"y", 4⟩, ⟨"z", 3⟩] := rfl
  have atThird : commonRoom.groups = [⟨"x", 3⟩, ⟨"y", 4⟩] ++ ⟨"z", 3⟩ :: [] := rfl
  have afterFirst := (spareIn_le_of_reconcile distinct filled inside atFirst first).2
  have beforeThird := (spareIn_le_of_reconcile distinct filled inside atThird third).1
  have one : Group.spareIn ⟨"x", 3⟩ commonRoomAfter 0 = 1 := by decide
  have two : Group.spareIn ⟨"z", 3⟩ commonRoomAfter 0 = 2 := by decide
  rw [one] at afterFirst
  rw [two] at beforeThird
  exact ⟨distinct, filled, first, afterFirst, third, beforeThird⟩

end Roster
