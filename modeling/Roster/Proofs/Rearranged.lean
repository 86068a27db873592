import Roster.Proofs.Outcome
import Roster.Proofs.Pinning
import Roster.Proofs.SameSession
import Roster.Proofs.SeatOrder

/-! Problems that differ in soft constraints, in the order of the hard ones and of the people
they name. Pins and ties are then the same, only listed in another order, which decides at
which bad pin a session is stopped and in which order seats are written down, and nothing
else. -/

namespace Roster

inductive Constraint.Rearranged : Constraint → Constraint → Prop
  | immovablePerson (person group : String) (sessions : Option (List Nat)) :
      Rearranged (.rule (.immovablePerson person group) sessions)
        (.rule (.immovablePerson person group) sessions)
  | immovablePeople {people people' : List String} (order : people.Perm people') (group : String)
      (sessions : Option (List Nat)) :
      Rearranged (.rule (.immovablePeople people group) sessions)
        (.rule (.immovablePeople people' group) sessions)
  | mustStayTogether {people people' : List String} (order : people.Perm people')
      (sessions : Option (List Nat)) :
      Rearranged (.rule (.mustStayTogether people) sessions)
        (.rule (.mustStayTogether people') sessions)

namespace Constraint

variable {c d : Constraint} {session : Nat}

theorem pins_of_soft (soft : c.isHard = false) : c.pins session = [] := by
  cases c with
  | rule r sessions =>
    cases r with
    | immovablePerson | immovablePeople | mustStayTogether => simp [isHard, Rule.isHard] at soft
    | _ => simp [pins, Rule.pins]
  | _ => rfl

theorem together?_of_soft (soft : c.isHard = false) : c.together? session = none := by
  cases c with
  | rule r sessions =>
    cases r with
    | immovablePerson | immovablePeople | mustStayTogether => simp [isHard, Rule.isHard] at soft
    | _ => simp [together?, Rule.together?]
  | _ => rfl

theorem Rearranged.mem_pins_iff (h : c.Rearranged d) (session : Nat) (e : String × String) :
    e ∈ c.pins session ↔ e ∈ d.pins session := by
  cases h with
  | immovablePerson person group sessions => exact .rfl
  | immovablePeople order group sessions =>
    rw [pins, pins]
    simp [Rule.pins, AppliesTo, sessions?, order.mem_iff]
  | mustStayTogether order sessions => exact .rfl

def Ties (c : Constraint) (session : Nat) (a b : String) : Prop :=
  ∃ people, c.together? session = some people ∧ a ∈ people ∧ b ∈ people

theorem Rearranged.ties_iff (h : c.Rearranged d) (session : Nat) (a b : String) :
    c.Ties session a b ↔ d.Ties session a b := by
  cases h with
  | immovablePerson person group sessions => exact .rfl
  | immovablePeople order group sessions => simp [Ties, together?, Rule.together?]
  | mustStayTogether order sessions =>
    simp [Ties, together?, Rule.together?, AppliesTo, sessions?, order.mem_iff]

end Constraint

namespace Problem

variable {p q : Problem} {session : Nat}

def hardConstraints (p : Problem) : List Constraint := p.constraints.filter (·.isHard)

theorem pins_eq (p : Problem) (session : Nat) :
    p.pins session = p.hardConstraints.flatMap (·.pins session) :=
  (flatMap_filter_eq fun _ _ => Constraint.pins_of_soft).symm

theorem togetherLists_eq_hard (p : Problem) (session : Nat) :
    p.togetherLists session = p.hardConstraints.filterMap (·.together? session) := by
  rw [togetherLists_eq, hardConstraints, List.filterMap_filter]
  refine List.filterMap_congr fun c _ => ?_
  split
  · rfl
  · rename_i soft
    exact Constraint.together?_of_soft (by simpa using soft)

theorem tied_iff {a b : String} :
    p.Tied session a b ↔ ∃ c ∈ p.hardConstraints, c.Ties session a b := by
  simp only [Tied, togetherLists_eq_hard, List.mem_filterMap, Constraint.Ties]
  grind

/-- The same problem but for its soft constraints, the order of the hard ones, and the order
of the people each of these names. -/
structure Rearranged (p q : Problem) : Prop where
  people : p.people = q.people
  groups : p.groups = q.groups
  sessions : p.sessionCount = q.sessionCount
  hard : ∃ reordered, p.hardConstraints.Perm reordered ∧
    List.Forall₂ Constraint.Rearranged reordered q.hardConstraints

namespace Rearranged

theorem exists_hard_iff (h : p.Rearranged q) {holds : Constraint → Prop}
    (agree : ∀ c d : Constraint, c.Rearranged d → (holds c ↔ holds d)) :
    (∃ c ∈ p.hardConstraints, holds c) ↔ ∃ d ∈ q.hardConstraints, holds d := by
  obtain ⟨reordered, order, rules⟩ := h.hard
  simp only [order.mem_iff]
  generalize q.hardConstraints = others at rules
  clear order
  induction rules with
  | nil => simp
  | cons first _ ih => simp only [List.exists_mem_cons_iff, agree _ _ first, ih]

theorem mem_pins_iff (h : p.Rearranged q) (session : Nat) (e : String × String) :
    e ∈ p.pins session ↔ e ∈ q.pins session := by
  rw [pins_eq, pins_eq, List.mem_flatMap, List.mem_flatMap]
  exact h.exists_hard_iff fun c d rule => rule.mem_pins_iff session e

theorem tied_iff (h : p.Rearranged q) (session : Nat) (a b : String) :
    p.Tied session a b ↔ q.Tied session a b := by
  rw [Problem.tied_iff, Problem.tied_iff]
  exact h.exists_hard_iff fun c d rule => rule.ties_iff session a b

theorem activeIds_eq (h : p.Rearranged q) (session : Nat) :
    p.activeIds session = q.activeIds session := by
  rw [activeIds, activeIds, h.people]

theorem sameSession (h : p.Rearranged q) (hard : p.hardConstraints = q.hardConstraints)
    (session : Nat) : SameSession p session q session where
  groups := h.groups
  active := h.activeIds_eq session
  present id := by rw [person?, person?, h.people]
  pins := by rw [pins_eq, pins_eq, hard]
  tied := h.tied_iff session

theorem pinnable_iff (h : p.Rearranged q) (session : Nat) :
    p.Pinnable session ↔ q.Pinnable session := by
  constructor
  · exact fun able => able.of_pins h.people h.groups (h.mem_pins_iff session)
  · exact fun able =>
      able.of_pins h.people.symm h.groups.symm fun e => (h.mem_pins_iff session e).symm

end Rearranged

end Problem

namespace Seating

variable {p q : Problem} {session : Nat} {s t : Seating} {wish : String → Option String}

theorem sameSeats_of_placePinned (h : p.Rearranged q)
    (first : placePinned p session (empty p) = .done s)
    (second : placePinned q session (empty q) = .done t) : s.SameSeats t := by
  have index := Problem.eq_of_groups h.groups Problem.groupIndex? fun _ => rfl
  refine sameSeats_of_coherent (coherent_of_placePinned first) (coherent_of_placePinned second)
    h.groups ?_
  intro e
  rw [mem_order_of_placePinned first, mem_order_of_placePinned second]
  simp only [h.mem_pins_iff, index]

theorem sameSeats_or_stopped (h : p.Rearranged q) (session : Nat) (wish : String → Option String) :
    (fill p session wish).SameSeats (fill q session wish) ∨
      ∃ s t why why', placePinned p session (empty p) = .stopped s why ∧
        placePinned q session (empty q) = .stopped t why' := by
  have able : (∃ a, placePinned p session (empty p) = .done a) ↔
      ∃ b, placePinned q session (empty q) = .done b := by
    rw [placePinned_eq_done_iff, placePinned_eq_done_iff, h.pinnable_iff]
  cases first : placePinned p session (empty p) with
  | done a =>
    obtain ⟨b, second⟩ := able.1 ⟨a, first⟩
    refine .inl ?_
    rw [fill_eq_afterPins, fill_eq_afterPins, first, second]
    change (afterPins p session wish a).SameSeats (afterPins q session wish b)
    rw [afterPins_congr h.groups (h.activeIds_eq session) (h.tied_iff session)]
    exact sameSeats_afterPins (sameSeats_of_placePinned h first second) wish
  | stopped s why =>
    cases second : placePinned q session (empty q) with
    | done b =>
      obtain ⟨a, through⟩ := able.2 ⟨b, second⟩
      rw [first] at through
      simp at through
    | stopped t why' => exact .inr ⟨s, t, why, why', rfl, rfl⟩

theorem fill_rearranged (h : p.Rearranged q) (filled : fill p session wish = .done s) :
    ∃ t, fill q session wish = .done t ∧ s.SameSeats t := by
  cases sameSeats_or_stopped h session wish with
  | inl same => exact (filled ▸ same).exists_done
  | inr pins =>
    obtain ⟨a, -, why, -, stop, -⟩ := pins
    rw [fill_eq_stopped.2 (.inl stop)] at filled
    simp at filled

end Seating

def Impasse.AtPins (i : Impasse) (p : Problem) : Prop :=
  ∃ s, Seating.placePinned p i.session (.empty p) = .stopped s i.obstacle

namespace Problem

variable {p q : Problem} {previous : List Assignment} {seeding : Bool}

theorem sameSeats_seating (h : p.Rearranged q) {first second : Schedule}
    (hp : p.reconcile previous seeding = .ok first)
    (hq : q.reconcile previous seeding = .ok second) {t : Nat} (inside : t < p.sessionCount) :
    (p.seating (wishes previous seeding) t).SameSeats (q.seating (wishes previous seeding) t) := by
  obtain ⟨s, filled, same⟩ := Seating.fill_rearranged h ((reconcile_eq_ok hp).1 t inside)
  rw [(reconcile_eq_ok hq).1 t (h.sessions ▸ inside)] at filled
  rwa [Attempt.done.inj filled]

theorem groupOf?_rearranged (h : p.Rearranged q) {first second : Schedule}
    (hp : p.reconcile previous seeding = .ok first)
    (hq : q.reconcile previous seeding = .ok second) (session : Nat) (person : String) :
    second.groupOf? session person = first.groupOf? session person := by
  have ids := eq_of_groups h.groups groupId fun _ => rfl
  rw [groupOf?_of_reconcile hp, groupOf?_of_reconcile hq, ← h.sessions, ids]
  split
  · rw [(sameSeats_seating h hp hq ‹_›).placed]
  · rfl

theorem peopleIn_rearranged (h : p.Rearranged q) {first second : Schedule}
    (hp : p.reconcile previous seeding = .ok first)
    (hq : q.reconcile previous seeding = .ok second) (session : Nat) (group : String) :
    (second.peopleIn session group).Perm (first.peopleIn session group) := by
  have ids := eq_of_groups h.groups groupId fun _ => rfl
  rw [peopleIn_of_reconcile hp, peopleIn_of_reconcile hq, ← h.sessions]
  split
  · rename_i inside
    rw [Seating.members, Seating.members, ids]
    exact ((sameSeats_seating h hp hq inside).order.symm.filter _).map _
  · exact .refl _

theorem exists_ok_rearranged (h : p.Rearranged q) {first : Schedule}
    (hp : p.reconcile previous seeding = .ok first) :
    ∃ second, q.reconcile previous seeding = .ok second := by
  rw [reconcile_ok_iff]
  intro t inside
  obtain ⟨s, filled, -⟩ :=
    Seating.fill_rearranged h ((reconcile_eq_ok hp).1 t (h.sessions ▸ inside))
  exact ⟨s, filled⟩

theorem exists_error_rearranged (h : p.Rearranged q) {i : Impasse}
    (hp : p.reconcile previous seeding = .error i) :
    ∃ j, q.reconcile previous seeding = .error j ∧ j.session = i.session ∧
      (j = i ∨ i.AtPins p ∧ j.AtPins q) := by
  obtain ⟨inside, before, s, stop⟩ := reconcile_eq_error.1 hp
  have inside' : i.session < q.sessionCount := h.sessions ▸ inside
  have before' : ∀ t < i.session, ∃ s, Seating.fill q t (wishes previous seeding t) = .done s := by
    intro t earlier
    obtain ⟨s, filled⟩ := before t earlier
    obtain ⟨s', filled', -⟩ := Seating.fill_rearranged h filled
    exact ⟨s', filled'⟩
  cases Seating.sameSeats_or_stopped h i.session (wishes previous seeding i.session) with
  | inl same =>
    rw [stop] at same
    obtain ⟨t, stop', -⟩ := same.exists_stopped
    exact ⟨i, reconcile_eq_error.2 ⟨inside', before', t, stop'⟩, rfl, .inl rfl⟩
  | inr pins =>
    obtain ⟨a, b, why, why', first, second⟩ := pins
    rw [Seating.fill_eq_stopped.2 (.inl first)] at stop
    obtain ⟨-, rfl⟩ := Attempt.stopped.inj stop
    have stop' : Seating.fill q i.session (wishes previous seeding i.session) = .stopped b why' :=
      Seating.fill_eq_stopped.2 (.inl second)
    exact ⟨⟨i.session, why'⟩, reconcile_eq_error.2 ⟨inside', before', b, stop'⟩, rfl,
      .inr ⟨⟨a, first⟩, b, second⟩⟩

end Problem

/-- Reconciling does not look at soft constraints, and the order of hard ones decides no more
than the order in which people are written down and which of several bad pins is reported. -/
theorem reconcile_rearranged {p q : Problem} (h : p.Rearranged q) (previous : List Assignment)
    (seeding : Bool) :
    (∀ first, p.reconcile previous seeding = .ok first →
      ∃ second, q.reconcile previous seeding = .ok second ∧
        (∀ session person, second.groupOf? session person = first.groupOf? session person) ∧
        ∀ session group,
          (second.peopleIn session group).Perm (first.peopleIn session group)) ∧
    (∀ i, p.reconcile previous seeding = .error i →
      ∃ j, q.reconcile previous seeding = .error j ∧ j.session = i.session ∧
        (j = i ∨ i.AtPins p ∧ j.AtPins q)) ∧
    (p.hardConstraints = q.hardConstraints →
      p.reconcile previous seeding = q.reconcile previous seeding) := by
  refine ⟨fun first hp => ?_, fun i hp => Problem.exists_error_rearranged h hp, fun hard => ?_⟩
  · obtain ⟨second, hq⟩ := Problem.exists_ok_rearranged h hp
    exact ⟨second, hq, Problem.groupOf?_rearranged h hp hq, Problem.peopleIn_rearranged h hp hq⟩
  · exact Problem.reconcile_congr h.sessions (fun t _ => h.sameSession hard t) previous seeding

def seminar (constraints : List Constraint) : Problem where
  people := [⟨"a", .empty, none⟩, ⟨"b", .empty, none⟩, ⟨"c", .empty, none⟩, ⟨"d", .empty, none⟩]
  groups := [⟨"x", 2⟩, ⟨"y", 2⟩]
  sessionCount := 1
  constraints

def paired : Problem :=
  seminar [.rule (.shouldNotBeTogether ["a", "b"]), .rule (.immovablePeople ["a", "b"] "x"),
    .rule (.mustStayTogether ["c", "d"])]

def pairedAgain : Problem :=
  seminar [.rule (.mustStayTogether ["d", "c"]), .unknown, .rule (.immovablePeople ["b", "a"] "x")]

theorem rearranged_paired : paired.Rearranged pairedAgain :=
  ⟨rfl, rfl, rfl, _, .swap _ _ _, .cons (.mustStayTogether (.swap _ _ _) none)
    (.cons (.immovablePeople (.swap _ _ _) "x" none) .nil)⟩

def misnamed (people : List String) : Problem := seminar [.rule (.immovablePeople people "z")]

theorem rearranged_misnamed : (misnamed ["ghost", "a"]).Rearranged (misnamed ["a", "ghost"]) :=
  ⟨rfl, rfl, rfl, _, .refl _, .cons (.immovablePeople (.swap _ _ _) "z" none) .nil⟩

theorem reconcile_rearranged_seminar :
    (∃ first second, paired.reconcile [⟨"c", "x", 0⟩] = .ok first ∧
      pairedAgain.reconcile [⟨"c", "x", 0⟩] = .ok second ∧
      first.peopleIn 0 "x" = ["a", "b"] ∧ second.peopleIn 0 "x" = ["b", "a"] ∧
      ∀ session person, second.groupOf? session person = first.groupOf? session person) ∧
    (misnamed ["ghost", "a"]).reconcile [] = .error ⟨0, .unknownPerson "ghost"⟩ ∧
    (misnamed ["a", "ghost"]).reconcile [] = .error ⟨0, .unknownGroup "a" "z"⟩ ∧
    Impasse.AtPins ⟨0, .unknownPerson "ghost"⟩ (misnamed ["ghost", "a"]) := by
  have seated : paired.reconcile [⟨"c", "x", 0⟩] = .ok (.ofAssignments
      [⟨"a", "x", 0⟩, ⟨"b", "x", 0⟩, ⟨"c", "y", 0⟩, ⟨"d", "y", 0⟩]) := by decide +kernel
  have reseated : pairedAgain.reconcile [⟨"c", "x", 0⟩] = .ok (.ofAssignments
      [⟨"b", "x", 0⟩, ⟨"a", "x", 0⟩, ⟨"c", "y", 0⟩, ⟨"d", "y", 0⟩]) := by decide +kernel
  have unknown : (misnamed ["ghost", "a"]).reconcile [] = .error ⟨0, .unknownPerson "ghost"⟩ := by
    decide +kernel
  have nowhere : (misnamed ["a", "ghost"]).reconcile [] = .error ⟨0, .unknownGroup "a" "z"⟩ := by
    decide +kernel
  refine ⟨?_, unknown, nowhere, ?_⟩
  · obtain ⟨second, again, same, -⟩ := (reconcile_rearranged rearranged_paired _ true).1 _ seated
    obtain rfl := Except.ok.inj (again.symm.trans reseated)
    exact ⟨_, _, seated, reseated, by decide, by decide, same⟩
  · obtain ⟨j, stopped, -, same | ⟨atPins, -⟩⟩ :=
      (reconcile_rearranged rearranged_misnamed _ true).2.1 _ unknown
    · simp [same, nowhere] at stopped
    · exact atPins

end Roster
