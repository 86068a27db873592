import Mathlib.Data.Set.Card
import Roster.Proofs.CliqueSeats
import Roster.Proofs.Components

/-! What it says about a group that someone finds it full. At a pin, it is too small for those who
are pinned there. At a clique, it is too small for those who have to be there together with the
members of cliques that had the choice, as none of them is pinned, and were put there before. -/

namespace Roster

namespace Problem

/-- Active, and pinned to the group or connected with someone who is. -/
def ForcedInto (p : Problem) (session : Nat) (group id : String) : Prop :=
  id ∈ p.activeIds session ∧
    ∃ other, (other, group) ∈ p.pins session ∧ p.Connected session (p.activeIds session) id other

def FreeBefore (p : Problem) (session : Nat) (person : String) (clique : List String) : Prop :=
  (∃ own, [clique, own].Sublist (p.cliques session (p.activeIds session)) ∧ person ∈ own) ∧
    ∀ member ∈ clique, member ∉ (p.pins session).map Prod.fst

/-- Of a clique that was free to go elsewhere, and put into the group. -/
def Guest (p : Problem) (session : Nat) (s : Seating) (person group id : String) : Prop :=
  (∃ clique, p.FreeBefore session person clique ∧ id ∈ clique) ∧
    (s.placed.get? id).map p.groupId = some group

variable {p : Problem} {session : Nat} {s : Seating} {person group id : String}

theorem ForcedInto.active (h : p.ForcedInto session group id) :
    id ∈ p.activeIds session := h.1

theorem Guest.active (h : p.Guest session s person group id) : id ∈ p.activeIds session := by
  obtain ⟨⟨clique, ⟨⟨own, before, -⟩, -⟩, member⟩, -⟩ := h
  exact mem_of_mem_cliques (before.subset (by simp)) member

theorem finite_of_active {S : Set String} (active : ∀ id ∈ S, id ∈ p.activeIds session) :
    S.Finite :=
  (p.activeIds session).finite_toSet.subset active

end Problem

namespace Seating

variable {p : Problem} {session : Nat} {s t : Seating} {person group : String}
  {capacity index : Nat} {clique : List String}

structure TurnedAway (p : Problem) (s : Seating) (person group : String) (capacity : Nat)
    (index : Nat) : Prop where
  declared : p.groupIndex? group = some index
  size : p.groupSize index = capacity
  full : s.spare p index = 0
  fresh : s.placed.get? person = none

theorem TurnedAway.lt_ncard (h : s.TurnedAway p person group capacity index)
    (records : s.Coherent p session) {S : Set String}
    (active : ∀ id ∈ S, id ∈ p.activeIds session) (away : person ∈ S)
    (seated : ∀ id, s.placed.get? id = some index → id ∈ S) : capacity < S.ncard := by
  have absent : person ∉ s.occupants index := by
    rw [mem_occupants, ← records.placed, h.fresh]
    simp
  have among : ((insert person (s.occupants index) : Finset String) : Set String) ⊆ S := by
    rw [Finset.coe_insert]
    refine Set.insert_subset away fun id sits => ?_
    exact seated id ((records.placed id index).2 (mem_occupants.1 (Finset.mem_coe.1 sits)))
  have count := Set.ncard_le_ncard among (Problem.finite_of_active active)
  rw [Set.ncard_coe_finset, Finset.card_insert_of_notMem absent, card_occupants records] at count
  have full := h.full
  rw [records.spare_eq, h.size] at full
  omega

theorem turnedAway_of_each_putInto {people : List String} {goal : String}
    (distinct : people.Nodup) (fresh : ∀ a ∈ people, s.placed.get? a = none)
    (declared : p.groupIndex? goal = some index) (h : Attempt.each (putInto p index) s people =
      .stopped t (.capacityExceeded person group capacity)) :
    goal = group ∧ person ∈ people ∧ t.TurnedAway p person group capacity index := by
  induction people generalizing s with
  | nil => simp [Attempt.each] at h
  | cons a rest ih =>
    obtain here | ⟨u, first, later⟩ := Attempt.each_cons_eq_stopped.1 h
    · obtain ⟨full, rfl, same⟩ := putInto_eq_stopped.1 here
      obtain ⟨rfl, rfl, rfl⟩ := Obstacle.capacityExceeded.inj same
      rw [Problem.groupId_of_groupIndex? declared]
      exact ⟨rfl, List.mem_cons_self, declared, rfl, full, fresh _ List.mem_cons_self⟩
    · obtain ⟨-, rfl⟩ := putInto_eq_done.1 first
      obtain ⟨same, member, away⟩ :=
        ih distinct.of_cons (forall_fresh_put distinct fresh index) later
      exact ⟨same, List.mem_cons_of_mem a member, away⟩

theorem TurnedAway.exists_group (h : s.TurnedAway p person group capacity index) :
    ∃ declared, p.group? group = some declared ∧ declared.size = capacity := by
  obtain ⟨inside, -, -⟩ := List.findIdx?_eq_some_iff_getElem.1 h.declared
  refine ⟨p.groups[index], Problem.group?_eq_some.2 ⟨index, h.declared, ?_⟩, ?_⟩
  · exact List.getElem?_eq_getElem inside
  · rw [← Problem.groupSize_of_lt inside, h.size]

theorem turnedAway_of_pin {e : String × String}
    (h : pin p session s e = .stopped t (.capacityExceeded person group capacity)) :
    e = (person, group) ∧ person ∈ p.activeIds session ∧
      ∃ index, t.TurnedAway p person group capacity index := by
  have ends := pin_ends p session s e.1 e.2
  rw [h] at ends
  cases ends with
  | full known present declared fresh full =>
    exact ⟨rfl, mem_activeIds_of_person? known present, _, declared, rfl, full, fresh⟩

theorem lt_ncard_of_placePinned (h : placePinned p session (empty p) =
      .stopped t (.capacityExceeded person group capacity)) :
    (∃ index, t.TurnedAway p person group capacity index) ∧
      capacity < {id | p.ForcedInto session group id}.ncard := by
  have growth : Grows p session (empty p) (placePinned p session (empty p)).seating :=
    grows_placePinned _
  have fromPins : (placePinned p session (empty p)).seating.FromPins p session :=
    keeps_each (FromPins p session) (fun _ _ he pinned => pinned.pin he) (fromPins_empty p session)
  rw [h] at growth fromPins
  have records := growth.coherent (coherent_empty p session)
  obtain ⟨before, e, after, u, split, -, stop⟩ := exists_split_of_each_eq_stopped h
  obtain ⟨rfl, active, index, away⟩ := turnedAway_of_pin stop
  have forced : ∀ id ∈ p.activeIds session, (id, group) ∈ p.pins session →
      p.ForcedInto session group id := fun id active pin => ⟨active, id, pin, .refl id⟩
  refine ⟨⟨index, away⟩, away.lt_ncard records (fun id => Problem.ForcedInto.active) ?_ ?_⟩
  · exact forced person active (by simp [split])
  · intro id seated
    have listed := (records.placed id index).1 seated
    obtain ⟨other, pin, there⟩ := fromPins _ listed
    rw [Problem.eq_of_groupIndex?_eq there away.declared] at pin
    exact forced id (records.active _ listed) pin

namespace AtTurn

variable (turn : AtTurn p session clique s)

include turn

theorem turnedAway
    (h : placeClique p s clique = .stopped t (.capacityExceeded person group capacity)) :
    (∃ member ∈ clique, (member, group) ∈ p.pins session) ∧ person ∈ free p session clique ∧
      ∃ index, t.TurnedAway p person group capacity index := by
  by_cases unpinned : ∀ member ∈ clique, member ∉ (p.pins session).map Prod.fst
  · cases chosen : s.roomiest? p clique.length with
    | none =>
      rw [turn.placeClique_of_no_room unpinned chosen] at h
      simp at h
    | some index =>
      rw [turn.placeClique_of_roomiest unpinned chosen] at h
      simp at h
  · push Not at unpinned
    obtain ⟨member, hm, pin⟩ := unpinned
    obtain ⟨⟨_, goal⟩, he, rfl⟩ := List.mem_map.1 pin
    have only : ∀ other ∈ clique, ∀ there, (other, there) ∈ p.pins session → there = goal := by
      intro other ho there pinned
      by_contra apart
      obtain ⟨x, y, torn⟩ := turn.placeClique_of_torn ho hm pinned he apart
      rw [torn] at h
      simp at h
    obtain ⟨index, declared, -⟩ := turn.sitsIn he
    rw [turn.placeClique_of_pinned declared ⟨_, hm, he⟩ only] at h
    obtain ⟨rfl, member, away⟩ := turnedAway_of_each_putInto turn.nodup_free
      (fun _ => turn.fresh_of_mem_free) declared h
    exact ⟨⟨_, hm, he⟩, member, index, away⟩

theorem forcedInto_or_freeBefore (declared : p.groupIndex? group = some index) {id : String}
    (seated : s.placed.get? id = some index) (own : person ∈ clique) :
    p.ForcedInto session group id ∨ ∃ c, p.FreeBefore session person c ∧ id ∈ c := by
  have listed := (turn.coherent.placed id index).1 seated
  have active := turn.coherent.active _ listed
  have ⟨start, before, after, pinned, split, through⟩ := turn
  rw [← Attempt.seating_done s, ← through] at listed
  obtain old | ⟨c, hc, member⟩ := mem_order_each_placeClique listed
  · obtain ⟨goal, pin, there⟩ := (mem_order_of_placePinned pinned).1 old
    rw [Problem.eq_of_groupIndex?_eq there declared] at pin
    exact .inl ⟨active, id, pin, .refl id⟩
  · have inside : before ⊆ p.cliques session (p.activeIds session) := by simp [split]
    by_cases unpinned : ∀ member ∈ c, member ∉ (p.pins session).map Prod.fst
    · refine .inr ⟨c, ⟨⟨clique, ?_, own⟩, unpinned⟩, member⟩
      rw [split]
      exact (List.singleton_sublist.2 hc).append (List.singleton_sublist.2 (by simp))
    · push Not at unpinned
      obtain ⟨other, ho, pin⟩ := unpinned
      obtain ⟨⟨_, goal⟩, he, rfl⟩ := List.mem_map.1 pin
      obtain ⟨seat, together⟩ := together_of_each_placeClique inside through hc
      obtain ⟨index', declared', there⟩ := turn.sitsIn he
      have same : index' = index := Option.some.inj
        (there.symm.trans ((together _ ho).trans ((together _ member).symm.trans seated)))
      rw [Problem.eq_of_groupIndex?_eq declared' (same ▸ declared)] at he
      exact .inl ⟨active, _, he, (Problem.mem_clique_iff (inside hc) member).1 ho⟩

theorem lt_ncard
    (h : placeClique p s clique = .stopped t (.capacityExceeded person group capacity)) :
    capacity < {id | p.ForcedInto session group id ∨
      p.Guest session t person group id}.ncard := by
  obtain ⟨⟨member, hm, pin⟩, free, index, away⟩ := turn.turnedAway h
  obtain ⟨own, -⟩ := mem_free.1 free
  have mates : ∀ id ∈ clique, p.ForcedInto session group id := fun id hid =>
    ⟨Problem.mem_of_mem_cliques turn.mem_cliques hid, member, pin,
      (Problem.mem_clique_iff turn.mem_cliques hid).1 hm⟩
  have growth : Grows p session s (placeClique p s clique).seating :=
    grows_placeClique s turn.mem_cliques
  have known : ∀ e ∈ (placeClique p s clique).seating.order, e ∈ s.order ∨ e.1 ∈ clique :=
    fun e he => mem_order_placeClique he
  rw [h, Attempt.seating_stopped] at growth known
  have records := growth.coherent turn.coherent
  refine away.lt_ncard records (fun id kind => ?_) (.inl (mates person own)) fun id there => ?_
  · exact kind.elim (·.active) (·.active)
  · obtain earlier | mate := known _ ((records.placed id index).1 there)
    · have seated := (turn.coherent.placed id index).2 earlier
      refine (turn.forcedInto_or_freeBefore away.declared seated own).imp_right fun before => ?_
      rw [Problem.Guest, there, Option.map_some, Problem.groupId_of_groupIndex? away.declared]
      exact ⟨before, rfl⟩
    · exact .inl (mates id mate)

end AtTurn

end Seating

/-- Who finds a group full shows that it is too small for those forced into it and its guests.
Guests are in the way only of a clique, and only where a clique without pins comes before. -/
theorem capacity_lt_ncard_of_error {p : Problem} {previous : List Assignment} {seeding : Bool}
    {session : Nat} {person group : String} {capacity : Nat}
    (h : p.reconcile previous seeding =
      .error ⟨session, .capacityExceeded person group capacity⟩) :
    (∃ declared, p.group? group = some declared ∧ declared.size = capacity) ∧
    capacity < {id | p.ForcedInto session group id ∨
      p.Guest session (p.seating (wishes previous seeding) session) person group id}.ncard ∧
    ((∃ other, (person, other) ∈ p.pins session) ∨
        (∀ clique, ¬ p.FreeBefore session person clique) →
      capacity < {id | p.ForcedInto session group id}.ncard) := by
  obtain ⟨-, -, t, stop⟩ := Problem.reconcile_eq_error.1 h
  have ended : p.seating (wishes previous seeding) session = t := by
    rw [Problem.seating, stop, Attempt.seating_stopped]
  rw [ended]
  obtain pins | ⟨a, pinned, grouped⟩ | ⟨a, b, pinned, grouped, rest⟩ :=
    Seating.fill_eq_stopped.1 stop
  · obtain ⟨⟨index, away⟩, many⟩ := Seating.lt_ncard_of_placePinned pins
    refine ⟨away.exists_group, many.trans_le ?_, fun _ => many⟩
    exact Set.ncard_le_ncard (fun id => .inl)
      (Problem.finite_of_active fun id kind => kind.elim (·.active) (·.active))
  · obtain ⟨before, clique, after, u, split, through, stop⟩ :=
      Seating.exists_split_of_each_eq_stopped grouped
    have turn : Seating.AtTurn p session clique u := ⟨a, before, after, pinned, split, through⟩
    obtain ⟨-, free, index, away⟩ := turn.turnedAway stop
    refine ⟨away.exists_group, turn.lt_ncard stop, fun alone => ?_⟩
    obtain ⟨other, pin⟩ | first := alone
    · exact absurd (List.mem_map.2 ⟨_, pin, rfl⟩) (Seating.mem_free.1 free).2
    · refine (turn.lt_ncard stop).trans_le (Set.ncard_le_ncard ?_
        (Problem.finite_of_active fun id => Problem.ForcedInto.active))
      intro id kind
      cases kind with
      | inl forced => exact forced
      | inr guest =>
        obtain ⟨⟨clique, before, -⟩, -⟩ := guest
        exact absurd before (first clique)
  · have records := Seating.coherent_placeSeeded pinned grouped (wishes previous seeding session)
    obtain ⟨⟨someone, other⟩, -⟩ := Seating.seats_lt_of_placeRemaining records rest
    simp at other

def foursome : Problem where
  people := [⟨"a", .empty, none⟩, ⟨"b", .empty, none⟩, ⟨"c", .empty, none⟩, ⟨"d", .empty, none⟩]
  groups := [⟨"x", 3⟩, ⟨"y", 2⟩]
  sessionCount := 1
  constraints := [.rule (.mustStayTogether ["a", "b"]), .rule (.mustStayTogether ["c", "d"]),
    .rule (.immovablePerson "c" "x")]

theorem cliques_foursome :
    foursome.cliques 0 (foursome.activeIds 0) = [["a", "b"], ["c", "d"]] :=
  Problem.cliques_eq_of_sorted (by decide +kernel) (by decide)

def foursomeSeats : Seating := (((Seating.empty foursome).put "c" 0).put "a" 0).put "b" 0

theorem reconcile_foursome :
    foursome.reconcile [] = .error ⟨0, .capacityExceeded "d" "x" 3⟩ := by
  have pinned : Seating.placePinned foursome 0 (.empty foursome) =
      .done ((Seating.empty foursome).put "c" 0) := by decide +kernel
  have turn : Seating.AtTurn foursome 0 ["c", "d"] foursomeSeats :=
    ⟨_, [["a", "b"]], [], pinned, cliques_foursome, by decide +kernel⟩
  have stop : Seating.placeClique foursome foursomeSeats ["c", "d"] =
      .stopped foursomeSeats (.capacityExceeded "d" "x" 3) := by decide +kernel
  exact Problem.Reaches.reconcile_eq_error ⟨by decide, by simp⟩ turn stop

/-- Only two are forced into the group of three that is reported to be full. -/
theorem ncard_forcedInto_foursome :
    (foursome.people.map (·.id)).Nodup ∧ (foursome.groups.map (·.id)).Nodup ∧
      foursome.reconcile [] = .error ⟨0, .capacityExceeded "d" "x" 3⟩ ∧
      foursome.group? "x" = some ⟨"x", 3⟩ ∧
      {id | foursome.ForcedInto 0 "x" id}.ncard = 2 := by
  have pins : foursome.pins 0 = [("c", "x")] := by decide
  have forced : {id | foursome.ForcedInto 0 "x" id} = {"c", "d"} := by
    ext id
    have mates : id ∈ ["c", "d"] ↔ foursome.Connected 0 (foursome.activeIds 0) "c" id :=
      Problem.mem_clique_iff (by simp [cliques_foursome]) (by simp)
    rw [Set.mem_ofPred_eq, Set.mem_insert_iff, Set.mem_singleton_iff, ← List.mem_pair, mates]
    constructor
    · intro h
      obtain ⟨-, other, pin, chain⟩ := h
      obtain rfl : other = "c" := by simpa [pins] using pin
      exact chain.symm
    · intro chain
      exact ⟨chain.mem_active_iff.1 (by decide), "c", by simp [pins], chain.symm⟩
  refine ⟨by decide, by decide, reconcile_foursome, by decide, ?_⟩
  rw [forced]
  exact Set.ncard_pair (by decide)

theorem capacity_lt_ncard_foursome :
    3 < {id | foursome.ForcedInto 0 "x" id ∨
      foursome.Guest 0 (foursome.seating (wishes [] true) 0) "d" "x" id}.ncard ∧
    looseTangle.reconcile [] = .error ⟨1, .capacityExceeded "c" "x" 1⟩ ∧
    1 < {id | looseTangle.ForcedInto 1 "x" id}.ncard := by
  have full : looseTangle.reconcile [] = .error ⟨1, .capacityExceeded "c" "x" 1⟩ := by
    decide +kernel
  refine ⟨(capacity_lt_ncard_of_error reconcile_foursome).2.1, full, ?_⟩
  exact (capacity_lt_ncard_of_error full).2.2 (.inl ⟨"x", by decide⟩)

end Roster
