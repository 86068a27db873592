import Mathlib.Algebra.BigOperators.Group.Finset.Basic
import Roster.Proofs.Outcome
import Roster.Proofs.Pinning
import Roster.Proofs.Ties

/-! What a failure says about the problem. An arrangement of a session puts its active people
into groups in any way that keeps sizes, pins and ties. A session stopped at a pin, at a
clique pinned to two groups or for want of seats has none; only where a clique finds
no group with room for it may seats given freely before be what is in the way. -/

namespace Roster

namespace Problem

variable {p : Problem} {session : Nat} {seat : String → Group}

/-- `seat` gives each active person a declared group, with everyone's pins and ties kept. A
pin of someone who is not active, or to a group that is not declared, cannot be kept. -/
structure Arranges (p : Problem) (session : Nat) (seat : String → Group) : Prop where
  declared : ∀ id ∈ p.activeIds session, seat id ∈ p.groups
  room : ∀ group ∈ p.groups,
    ((p.activeIds session).toFinset.filter (seat · = group)).card ≤ group.size
  pinned : ∀ e ∈ p.pins session, e.1 ∈ p.activeIds session ∧ (seat e.1).id = e.2
  together : ∀ a ∈ p.activeIds session, ∀ b ∈ p.activeIds session,
    p.Tied session a b → seat a = seat b

theorem exists_person?_of_active (distinct : (p.people.map (·.id)).Nodup) {id : String}
    (active : id ∈ p.activeIds session) :
    ∃ person, p.person? id = some person ∧ person.ActiveIn session := by
  obtain ⟨person, listed, rfl, present⟩ := Seating.mem_activeIds.1 active
  cases found : p.person? person.id with
  | none =>
    have missed := List.find?_eq_none.1 found person listed
    simp at missed
  | some other =>
    have same : other.id = person.id := by simpa using List.find?_some found
    have only : other = person :=
      List.inj_on_of_nodup_map distinct (List.mem_of_find?_eq_some found) listed same
    exact ⟨other, rfl, only ▸ present⟩

theorem Arranges.pinnable (h : p.Arranges session seat)
    (distinctPeople : (p.people.map (·.id)).Nodup) (distinctGroups : (p.groups.map (·.id)).Nodup) :
    p.Pinnable session := by
  refine ⟨?_, ?_, ?_, ?_⟩
  · intro e he
    exact exists_person?_of_active distinctPeople (h.pinned e he).1
  · intro e he
    obtain ⟨active, there⟩ := h.pinned e he
    cases found : p.group? e.2 with
    | some group => exact ⟨group, rfl⟩
    | none =>
      have absent := List.find?_eq_none.1 found _ (h.declared _ active)
      simp [there] at absent
  · intro person first second hf hs
    exact (h.pinned _ hf).2.symm.trans (h.pinned _ hs).2
  · intro id group declared
    have listed := List.mem_of_find?_eq_some declared
    have named : group.id = id := by simpa using List.find?_some declared
    have among : p.pinnedTo session id ⊆
        (p.activeIds session).toFinset.filter (seat · = group) := by
      intro person pinned
      obtain ⟨active, there⟩ := h.pinned _ (mem_pinnedTo.1 pinned)
      rw [Finset.mem_filter, List.mem_toFinset]
      exact ⟨active, List.inj_on_of_nodup_map distinctGroups (h.declared _ active) listed
        (there.trans named.symm)⟩
    exact (Finset.card_le_card among).trans (h.room group listed)

theorem Arranges.card_le (h : p.Arranges session seat)
    (distinct : (p.groups.map (·.id)).Nodup) : (p.activeIds session).toFinset.card ≤ p.seats := by
  have inside : ∀ id ∈ (p.activeIds session).toFinset, seat id ∈ p.groups.toFinset := by
    intro id active
    exact List.mem_toFinset.2 (h.declared id (List.mem_toFinset.1 active))
  calc (p.activeIds session).toFinset.card
      = ∑ group ∈ p.groups.toFinset,
          ((p.activeIds session).toFinset.filter (seat · = group)).card :=
        Finset.card_eq_sum_card_fiberwise inside
    _ ≤ ∑ group ∈ p.groups.toFinset, group.size :=
        Finset.sum_le_sum fun group declared => h.room group (List.mem_toFinset.1 declared)
    _ = p.seats := by
        rw [seats, sum_toFinset distinct.of_map]

end Problem

namespace Seating

variable {p : Problem} {session : Nat} {s t : Seating} {seat : String → Group}

theorem mem_order_each_putInto {people : List String} {index : Nat} {e : String × Nat}
    (h : e ∈ (Attempt.each (putInto p index) s people).seating.order) :
    e ∈ s.order ∨ e.1 ∈ people := by
  refine keeps_each (fun t => ∀ e ∈ t.order, e ∈ s.order ∨ e.1 ∈ people) ?_
    (fun e he => .inl he) e h
  intro t a ha known e he
  unfold putInto at he
  split at he
  · exact known e he
  · cases List.mem_append.1 he with
    | inl old => exact known e old
    | inr new =>
      rw [List.mem_singleton.1 new]
      exact .inr ha

theorem mem_order_placeClique {clique : List String} {e : String × Nat}
    (h : e ∈ (placeClique p s clique).seating.order) : e ∈ s.order ∨ e.1 ∈ clique := by
  have ends := placeClique_ends p s clique
  generalize placeClique p s clique = x at ends h
  cases ends with
  | infeasible | torn => exact .inl h
  | roomiest _ _ walk | follow _ _ _ walk =>
    rw [← walk] at h
    exact (mem_order_each_putInto h).imp_right fun there => (mem_unplaced.1 there).1

theorem placeClique_eq_stopped {clique : List String} {why : Obstacle}
    (h : placeClique p s clique = .stopped t why) :
    why = .cliqueInfeasible clique ∨
      (∃ person group capacity, s.placed.get? person = none ∧
        why = .capacityExceeded person group capacity) ∨
      ∃ a ∈ clique, ∃ b ∈ clique, ∃ i j, s.placed.get? a = some i ∧ s.placed.get? b = some j ∧
        i ≠ j := by
  have ends := placeClique_ends p s clique
  rw [h] at ends
  cases ends with
  | infeasible => exact .inl rfl
  | torn ha hb seatA seatB apart => exact .inr (.inr ⟨_, ha, _, hb, _, _, seatA, seatB, apart⟩)
  | roomiest _ _ walk | follow _ _ _ walk =>
    obtain ⟨person, fresh, full⟩ := exists_of_each_putInto_eq_stopped walk
    exact .inr (.inl ⟨person, _, _, (mem_unplaced.1 fresh).2, full⟩)

theorem mem_order_each_placeClique {cliques : List (List String)} {e : String × Nat}
    (h : e ∈ (Attempt.each (placeClique p) s cliques).seating.order) :
    e ∈ s.order ∨ ∃ clique ∈ cliques, e.1 ∈ clique := by
  refine keeps_each (fun t => ∀ e ∈ t.order, e ∈ s.order ∨ ∃ clique ∈ cliques, e.1 ∈ clique)
    ?_ (fun e he => .inl he) e h
  intro t clique hc known e he
  cases mem_order_placeClique he with
  | inl old => exact known e old
  | inr member => exact .inr ⟨clique, hc, member⟩

section Stopped

variable {a u : Seating} {before after : List (List String)} {clique : List String}
  (pinned : placePinned p session (empty p) = .done a)
  (split : p.cliques session (p.activeIds session) = before ++ clique :: after)
  (through : Attempt.each (placeClique p) a before = .done u)

include split through

theorem grows_of_each_placeClique : Grows p session a u := by
  have growth : Grows p session a (Attempt.each (placeClique p) a before).seating :=
    grows_each (fun s c hc => grows_placeClique s (split ▸ List.mem_append_left _ hc)) a
  rwa [through] at growth

include pinned

theorem exists_pin_of_mem_clique {member : String} (hm : member ∈ clique) {index : Nat}
    (seated : u.placed.get? member = some index) :
    ∃ group, (member, group) ∈ p.pins session ∧ p.groupIndex? group = some index := by
  have records :=
    (grows_of_each_placeClique split through).coherent (coherent_of_placePinned pinned)
  have listed : (member, index) ∈ (Attempt.each (placeClique p) a before).seating.order := by
    rw [through]
    exact (records.placed member index).1 seated
  cases mem_order_each_placeClique listed with
  | inl old => exact (mem_order_of_placePinned pinned).1 old
  | inr other =>
    obtain ⟨c, hc, also⟩ := other
    have pairs := p.pairwise_disjoint_cliques session (p.activeIds session)
    rw [split, List.pairwise_append] at pairs
    exact absurd hm (pairs.2.2 c hc clique List.mem_cons_self also)

end Stopped

theorem room_of_placeCliques_eq_stopped {a : Seating} {why : Obstacle}
    (arranged : p.Arranges session seat) (pinned : placePinned p session (empty p) = .done a)
    (h : placeCliques p session a = .stopped t why) :
    (∃ members, why = .cliqueInfeasible members) ∨
      ∃ person group capacity, why = .capacityExceeded person group capacity ∧
        ∀ other, (person, other) ∉ p.pins session := by
  obtain ⟨before, clique, after, u, split, through, stop⟩ := exists_split_of_each_eq_stopped h
  obtain infeasible | ⟨person, group, capacity, fresh, crowded⟩ | apart :=
    placeClique_eq_stopped stop
  · exact .inl ⟨clique, infeasible⟩
  · refine .inr ⟨person, group, capacity, crowded, fun other pin => ?_⟩
    obtain ⟨index, -, seated⟩ := sitsIn_of_placePinned pinned pin
    rw [(grows_of_each_placeClique split through).placed seated] at fresh
    simp at fresh
  · obtain ⟨x, hx, y, hy, i, j, hi, hj, apart⟩ := apart
    obtain ⟨first, pinFirst, indexFirst⟩ := exists_pin_of_mem_clique pinned split through hx hi
    obtain ⟨second, pinSecond, indexSecond⟩ := exists_pin_of_mem_clique pinned split through hy hj
    have listed : clique ∈ p.cliques session (p.activeIds session) := by simp [split]
    have groups : first = second := calc
      first = (seat x).id := (arranged.pinned _ pinFirst).2.symm
      _ = (seat y).id := by rw [Problem.eq_of_mem_cliques arranged.together listed hx hy]
      _ = second := (arranged.pinned _ pinSecond).2
    rw [groups, indexSecond] at indexFirst
    exact absurd (Option.some.inj indexFirst).symm apart

end Seating

/-- A session that is stopped, but not for a clique that finds no room, has no arrangement. -/
theorem not_arranges_of_error {p : Problem} (distinctPeople : (p.people.map (·.id)).Nodup)
    (distinctGroups : (p.groups.map (·.id)).Nodup) {previous : List Assignment} {seeding : Bool}
    {i : Impasse} (h : p.reconcile previous seeding = .error i)
    (clique : ∀ members, i.obstacle ≠ .cliqueInfeasible members)
    (crowded : ∀ person group capacity, i.obstacle = .capacityExceeded person group capacity →
      ∃ other, (person, other) ∈ p.pins i.session) :
    ¬ ∃ seat, p.Arranges i.session seat := by
  intro arrangement
  obtain ⟨seat, arranged⟩ := arrangement
  obtain ⟨-, -, s, stop⟩ := Problem.reconcile_eq_error.1 h
  obtain pins | ⟨a, pinned, grouped⟩ | ⟨a, b, pinned, grouped, rest⟩ :=
    Seating.fill_eq_stopped.1 stop
  · obtain ⟨a, through⟩ :=
      Seating.placePinned_eq_done_iff.2 (arranged.pinnable distinctPeople distinctGroups)
    rw [pins] at through
    simp at through
  · obtain ⟨members, infeasible⟩ | ⟨person, group, capacity, full, unpinned⟩ :=
      Seating.room_of_placeCliques_eq_stopped arranged pinned grouped
    · exact clique members infeasible
    · obtain ⟨other, pin⟩ := crowded person group capacity full
      exact unpinned other pin
  · have records := Seating.coherent_placeSeeded pinned grouped (wishes previous seeding i.session)
    have many := (Seating.seats_lt_of_placeRemaining records rest).2
    have few := arranged.card_le distinctGroups
    omega

def tangle : Problem where
  people := [⟨"a", .empty, none⟩, ⟨"b", .empty, none⟩, ⟨"c", .empty, none⟩]
  groups := [⟨"x", 1⟩, ⟨"y", 3⟩]
  sessionCount := 2
  constraints := [.rule (.mustStayTogether ["a", "b"]) (some [0]),
    .rule (.mustStayTogether ["b", "c"]) (some [0]), .rule (.immovablePerson "a" "x") (some [0]),
    .rule (.immovablePerson "c" "y") (some [0]), .rule (.immovablePeople ["b", "c"] "x") (some [1])]

def looseTangle : Problem := { tangle with constraints := tangle.constraints.drop 2 }

theorem not_arranges_tangle :
    tangle.reconcile [] = .error ⟨0, .cliqueConflict ["a", "b", "c"] "x" "y"⟩ ∧
      (¬ ∃ seat, tangle.Arranges 0 seat) ∧
      looseTangle.reconcile [] = .error ⟨1, .capacityExceeded "c" "x" 1⟩ ∧
      ¬ ∃ seat, looseTangle.Arranges 1 seat := by
  have conflict : tangle.reconcile [] = .error ⟨0, .cliqueConflict ["a", "b", "c"] "x" "y"⟩ := by
    decide +kernel
  have full : looseTangle.reconcile [] = .error ⟨1, .capacityExceeded "c" "x" 1⟩ := by
    decide +kernel
  refine ⟨conflict, ?_, full, ?_⟩
  · exact not_arranges_of_error (by decide) (by decide) conflict (by simp) (by simp)
  · refine not_arranges_of_error (by decide) (by decide) full (by simp) ?_
    intro person group capacity same
    obtain ⟨rfl, -, -⟩ := Obstacle.capacityExceeded.inj same
    exact ⟨"x", by decide⟩

end Roster
