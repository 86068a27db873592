import Mathlib.Logic.Equiv.Basic
import Roster.Proofs.Renaming
import Roster.Proofs.Walks
import Roster.Proofs.Written

/-! Nothing in a reconciliation hangs on what ids are called. Under a renaming the same places
of the people go into the same places of the groups, step by step, and where one run is
stopped so is the other, at the same obstacle under its new ids. Only the order in which the
groups of a session are written follows the ids. -/

namespace Roster

/-- What the old lookups say is true of the new ids, and every seat is in a group there is. -/
structure Seating.Renamed (r : Renaming) (p : Problem) (s t : Seating) : Prop where
  occupancy : t.occupancy = s.occupancy
  placed : ∀ person, t.placed.get? (r.person person) = s.placed.get? person
  order : t.order = s.order.map fun e => (r.person e.1, e.2)
  inside : ∀ person index, s.placed.get? person = some index → index < p.groups.length

inductive Attempt.Renamed (r : Renaming) (p : Problem) : Attempt → Attempt → Prop
  | done {s t : Seating} (same : s.Renamed r p t) : Renamed r p (.done s) (.done t)
  | stopped {s t : Seating} (same : s.Renamed r p t) (why : Obstacle) :
      Renamed r p (.stopped s why) (.stopped t (why.renamed r))

variable {r : Renaming} {p : Problem} {session : Nat}

theorem Attempt.Renamed.andThen {x y : Attempt} {next next' : Seating → Attempt}
    (h : x.Renamed r p y)
    (step : ∀ s t : Seating, s.Renamed r p t → (next s).Renamed r p (next' t)) :
    (x.andThen next).Renamed r p (y.andThen next') := by
  cases h with
  | done same => exact step _ _ same
  | stopped same why => exact .stopped same why

namespace Seating

variable {s t : Seating}

theorem renamed_each {α β : Type} {step : Seating → α → Attempt} {step' : Seating → β → Attempt}
    {f : α → β}
    (steps : ∀ s t : Seating, s.Renamed r p t → ∀ a, (step s a).Renamed r p (step' t (f a)))
    (h : s.Renamed r p t) (l : List α) :
    (Attempt.each step s l).Renamed r p (Attempt.each step' t (l.map f)) := by
  induction l generalizing s t with
  | nil => exact .done h
  | cons a rest ih => exact (steps s t h a).andThen fun _ _ same => ih same

theorem renamed_empty (r : Renaming) (p : Problem) :
    (empty p).Renamed r p (empty (p.renamed r)) where
  occupancy := by rw [empty, empty, Problem.length_groups_renamed]
  placed person := rfl
  order := rfl
  inside person index seated := by simp [empty] at seated

namespace Renamed

theorem spare_eq (h : s.Renamed r p t) : t.spare (p.renamed r) = s.spare p := by
  funext index
  rw [spare_renamed, spare, spare, h.occupancy]

theorem roomiest?_eq (h : s.Renamed r p t) : t.roomiest? (p.renamed r) = s.roomiest? p :=
  roomiest?_congr h.spare_eq (Problem.length_groups_renamed ..)

end Renamed

theorem renamed_put (h : s.Renamed r p t) (person : String) {index : Nat}
    (inside : index < p.groups.length) :
    (s.put person index).Renamed r p (t.put (r.person person) index) where
  occupancy := by rw [put, put, h.occupancy]
  placed other := by
    rw [get?_put, get?_put, h.placed]
    simp only [r.person_inj]
  order := by simp [put, h.order]
  inside other i seated := by
    rw [get?_put] at seated
    split at seated
    · rwa [← Option.some.inj seated]
    · exact h.inside other i seated

theorem renamed_putInto (h : s.Renamed r p t) {index : Nat} (inside : index < p.groups.length)
    (person : String) :
    (s.putInto p index person).Renamed r p (t.putInto (p.renamed r) index (r.person person)) := by
  unfold putInto
  rw [h.spare_eq, Problem.groupId_renamed r p inside, Problem.groupSize_renamed]
  split
  · exact .stopped h (.capacityExceeded person _ _)
  · exact .done (renamed_put h person inside)

theorem renamed_pin (h : s.Renamed r p t) (e : String × String) :
    (s.pin p session e).Renamed r p
      (t.pin (p.renamed r) session (r.person e.1, r.group e.2)) := by
  obtain ⟨person, group⟩ := e
  simp only [pin, Problem.person?_renamed, Problem.groupIndex?_renamed, h.placed]
  cases p.person? person with
  | none => exact .stopped h (.unknownPerson person)
  | some found =>
    simp only [Option.map_some, Person.activeIn_renamed]
    by_cases active : found.ActiveIn session
    · simp only [active, not_true_eq_false, if_false]
      cases declared : p.groupIndex? group with
      | none => exact .stopped h (.unknownGroup person group)
      | some index =>
        cases seated : s.placed.get? person with
        | none => exact renamed_putInto h (List.findIdx?_eq_some_iff_getElem.1 declared).1 person
        | some current =>
          simp only [Problem.groupId_renamed r p (h.inside person current seated)]
          split
          · exact .done h
          · exact .stopped h (.conflictingPlacement person _ group)
    · simp only [active, not_false_eq_true, if_true]
      exact .stopped h (.inactivePerson person group)

theorem renamed_placeClique (h : s.Renamed r p t) (clique : List String) :
    (s.placeClique p clique).Renamed r p
      (t.placeClique (p.renamed r) (clique.map r.person)) := by
  have settle : ∀ index, index < p.groups.length → ∀ people,
      (Attempt.each (putInto p index) s people).Renamed r p
        (.each (putInto (p.renamed r) index) t (people.map r.person)) :=
    fun index inside => renamed_each (fun _ _ same => renamed_putInto same inside) h
  have unplaced : (clique.map r.person).filter (fun member => (t.placed.get? member).isNone) =
      (clique.filter fun member => (s.placed.get? member).isNone).map r.person := by
    simp only [List.filter_map, Function.comp_def, h.placed]
  have seats : (clique.map r.person).filterMap t.placed.get? = clique.filterMap s.placed.get? := by
    simp only [List.filterMap_map, Function.comp_def, h.placed]
  have inside : ∀ index ∈ clique.filterMap s.placed.get?, index < p.groups.length := by
    intro index found
    obtain ⟨member, -, seated⟩ := List.mem_filterMap.1 found
    exact h.inside member index seated
  simp only [placeClique, unplaced, seats, h.roomiest?_eq, List.length_map]
  cases present : clique.filterMap s.placed.get? with
  | nil =>
    cases roomy : s.roomiest? p
        (clique.filter fun member => (s.placed.get? member).isNone).length with
    | none => exact .stopped h (.cliqueInfeasible clique)
    | some index => exact settle index (lt_of_spare_pos (roomiest?_eq_some.1 roomy).1) _
  | cons index others =>
    rw [present] at inside
    obtain ⟨first, rest⟩ := List.forall_mem_cons.1 inside
    dsimp only
    cases apart : others.find? (· ≠ index) with
    | none => exact settle index first _
    | some other =>
      dsimp only
      rw [Problem.groupId_renamed r p first,
        Problem.groupId_renamed r p (rest other (List.mem_of_find?_eq_some apart))]
      exact .stopped h (.cliqueConflict clique _ _)

def WishesRenamed (r : Renaming) (wish wish' : String → Option String) : Prop :=
  ∀ person, wish' (r.person person) = (wish person).map r.group

variable {wish wish' : String → Option String}

theorem renamed_keep (h : s.Renamed r p t) (wishes : WishesRenamed r wish wish')
    (person : String) :
    (s.keep p wish person).Renamed r p (t.keep (p.renamed r) wish' (r.person person)) := by
  have wished : (wish' (r.person person)).bind (p.renamed r).groupIndex? =
      (wish person).bind p.groupIndex? := by
    rw [wishes person, Option.bind_map]
    exact congrArg _ (funext fun group => Problem.groupIndex?_renamed r p group)
  simp only [keep, h.placed, h.spare_eq, wished]
  split
  · split
    · exact h
    · rename_i room
      exact renamed_put h person (lt_of_spare_pos (Nat.pos_of_ne_zero room))
  · exact h

theorem renamed_seatAnywhere (h : s.Renamed r p t) (person : String) :
    (s.seatAnywhere p person).Renamed r p
      (t.seatAnywhere (p.renamed r) (r.person person)) := by
  simp only [seatAnywhere, h.placed, h.roomiest?_eq]
  cases s.placed.get? person with
  | some index => exact .done h
  | none =>
    cases roomy : s.roomiest? p 1 with
    | none => exact .stopped h (.noCapacity person)
    | some index =>
      exact .done (renamed_put h person (lt_of_spare_pos (roomiest?_eq_some.1 roomy).1))

theorem renamed_placeSeeded (h : s.Renamed r p t) (wishes : WishesRenamed r wish wish') :
    (placeSeeded p session wish s).Renamed r p (placeSeeded (p.renamed r) session wish' t) := by
  rw [placeSeeded, placeSeeded, Problem.activeIds_renamed]
  induction p.activeIds session generalizing s t with
  | nil => exact h
  | cons person rest ih => exact ih (renamed_keep h wishes person)

theorem renamed_fill (wishes : WishesRenamed r wish wish') :
    (fill p session wish).Renamed r p (fill (p.renamed r) session wish') := by
  have pinned : (placePinned p session (empty p)).Renamed r p
      (placePinned (p.renamed r) session (empty (p.renamed r))) := by
    rw [placePinned, placePinned, Problem.pins_renamed]
    exact renamed_each (fun _ _ => renamed_pin) (renamed_empty r p) _
  refine pinned.andThen fun s t same => ?_
  have cliques : (placeCliques p session s).Renamed r p (placeCliques (p.renamed r) session t) := by
    rw [placeCliques, placeCliques, Problem.activeIds_renamed, Problem.cliques_renamed]
    exact renamed_each (fun _ _ => renamed_placeClique) same _
  refine cliques.andThen fun s t same => ?_
  rw [placeRemaining, placeRemaining, Problem.activeIds_renamed]
  exact renamed_each (fun _ _ => renamed_seatAnywhere) (renamed_placeSeeded same wishes) _

theorem groups_renamed (h : s.Renamed r p t) (records : s.Coherent p session) :
    t.groups (p.renamed r) = SessionGroups.renamed r (s.groups p) := by
  have members : ∀ group, t.members (p.renamed r) (r.group group) =
      (s.members p group).map r.person := by
    intro group
    have kept : ∀ e ∈ s.order, decide ((p.renamed r).groupId e.2 = r.group group) =
        decide (p.groupId e.2 = group) := by
      intro e he
      rw [Problem.groupId_renamed r p (records.index_lt he), decide_eq_decide, r.group_inj]
    rw [Seating.members, h.order, List.filter_map, Seating.members, ← List.filter_congr kept,
      List.map_map, List.map_map]
    rfl
  refine SortedMap.ext_get? fun group => Option.ext fun people => ?_
  rw [SessionGroups.get?_renamed_eq_some, ← SortedMap.mem_entries_iff, mem_entries_groups]
  constructor
  · intro listed
    obtain ⟨rfl, occupied⟩ := listed
    obtain ⟨person, sits⟩ := List.exists_mem_of_ne_nil _ occupied
    obtain ⟨index, seated, rfl⟩ := mem_members.1 sits
    rw [h.order, List.mem_map] at seated
    obtain ⟨e, he, same⟩ := seated
    obtain ⟨-, rfl⟩ := Prod.mk.inj same
    rw [Problem.groupId_renamed r p (records.index_lt he), members] at occupied ⊢
    exact ⟨(_, s.members p (p.groupId e.2)), mem_entries_groups.2 ⟨rfl, by simpa using occupied⟩,
      rfl, rfl⟩
  · intro listed
    obtain ⟨⟨old, _⟩, entry, rfl, rfl⟩ := listed
    obtain ⟨rfl, occupied⟩ := mem_entries_groups.1 entry
    exact ⟨(members old).symm, by simpa using occupied⟩

end Seating

theorem SortedMap.mapValues_ofList {κ ν μ : Type} [LE κ] [LT κ] [Std.IsLinearOrder κ]
    [Std.LawfulOrderLT κ] [DecidableLT κ] [DecidableEq κ] (f : ν → μ) (l : List (κ × ν)) :
    (ofList l).mapValues f = ofList (l.map fun e => (e.1, f e.2)) := by
  induction l using List.reverseRecOn with
  | nil => rfl
  | append_singleton l e ih =>
    rw [List.map_append, List.map_cons, List.map_nil, ofList_concat, ofList_concat, ← ih]
    refine ext_get? fun k => ?_
    rw [get?_mapValues, get?_insert, get?_insert, get?_mapValues]
    split <;> rfl

theorem wishes_renamed (r : Renaming) (previous : List Assignment) (seeding : Bool)
    (session : Nat) : Seating.WishesRenamed r (wishes previous seeding session)
      (wishes (previous.map (·.renamed r)) seeding session) := by
  intro person
  cases seeding with
  | false => rfl
  | true => exact earlierGroup?_renamed r previous session person

theorem Problem.outcome_renamed {wish wish' : Nat → String → Option String}
    (wishes : Seating.WishesRenamed r (wish session) (wish' session)) :
    (p.renamed r).outcome wish' session = ((p.outcome wish session).mapError (·.renamed r)).map
      fun entry => (entry.1, SessionGroups.renamed r entry.2) := by
  have filled : (Seating.fill p session (wish session)).Renamed r p
      (Seating.fill (p.renamed r) session (wish' session)) := Seating.renamed_fill wishes
  have sound : ∀ s, Seating.fill p session (wish session) = .done s → s.Coherent p session :=
    fun _ => Seating.coherent_of_fill
  rw [outcome, outcome]
  generalize Seating.fill p session (wish session) = first at filled sound
  generalize Seating.fill (p.renamed r) session (wish' session) = second at filled
  cases filled with
  | done same =>
    simp only [Seating.groups_renamed same (sound _ rfl)]
    rfl
  | stopped same => rfl

/-- Reconciling a problem under new ids gives what it gave under the old ones, renamed: the same
lists of people in the same order, or the same impasse. -/
theorem reconcile_renamed (r : Renaming) (p : Problem) (previous : List Assignment)
    (seeding : Bool) :
    ((p.renamed r).reconcile (previous.map (·.renamed r)) seeding =
      match p.reconcile previous seeding with
      | .ok schedule => .ok (schedule.renamed r)
      | .error i => .error (i.renamed r)) ∧
    ∀ (schedule : Schedule) session group, (schedule.renamed r).peopleIn session (r.group group) =
      (schedule.peopleIn session group).map r.person := by
  refine ⟨?_, fun schedule => schedule.peopleIn_renamed r⟩
  have walk : (List.range p.sessionCount).mapM
      ((p.renamed r).outcome (wishes (previous.map (·.renamed r)) seeding)) =
      (((List.range p.sessionCount).mapM (p.outcome (wishes previous seeding))).mapError
        (·.renamed r)).map (List.map fun entry => (entry.1, SessionGroups.renamed r entry.2)) :=
    mapM_eq_mapError_map fun session _ =>
      Problem.outcome_renamed (wishes_renamed r previous seeding session)
  have sessions : (p.renamed r).sessionCount = p.sessionCount := rfl
  rw [Problem.reconcile_eq_mapM, Problem.reconcile_eq_mapM, sessions, walk]
  cases (List.range p.sessionCount).mapM (p.outcome (wishes previous seeding)) with
  | error i => rfl
  | ok found =>
    exact congrArg Except.ok (congrArg Schedule.mk (SortedMap.mapValues_ofList _ _).symm)

def traded : Renaming where
  person := Equiv.swap "a" "b"
  group := Equiv.swap "x" "y"
  person_injective := (Equiv.swap "a" "b").injective
  group_injective := (Equiv.swap "x" "y").injective

def duet (pinned : List String) : Problem where
  people := [⟨"a", .empty, none⟩, ⟨"b", .empty, none⟩, ⟨"c", .empty, none⟩]
  groups := [⟨"x", 1⟩, ⟨"y", 2⟩]
  sessionCount := 1
  constraints := [.rule (.immovablePeople pinned "x")]

theorem reconcile_renamed_traded :
    traded.person.Injective ∧ traded.group.Injective ∧
      (duet ["b"]).reconcile [⟨"a", "y", 0⟩] =
        .ok (.ofAssignments [⟨"b", "x", 0⟩, ⟨"a", "y", 0⟩, ⟨"c", "y", 0⟩]) ∧
      ((duet ["b"]).renamed traded).reconcile [⟨"b", "x", 0⟩] =
        .ok (.ofAssignments [⟨"a", "y", 0⟩, ⟨"b", "x", 0⟩, ⟨"c", "x", 0⟩]) ∧
      (duet ["b", "a"]).reconcile [] = .error ⟨0, .capacityExceeded "a" "x" 1⟩ ∧
      ((duet ["b", "a"]).renamed traded).reconcile [] =
        .error ⟨0, .capacityExceeded "b" "y" 1⟩ := by
  have seated : (duet ["b"]).reconcile [⟨"a", "y", 0⟩] =
      .ok (.ofAssignments [⟨"b", "x", 0⟩, ⟨"a", "y", 0⟩, ⟨"c", "y", 0⟩]) := by decide +kernel
  have crowded : (duet ["b", "a"]).reconcile [] = .error ⟨0, .capacityExceeded "a" "x" 1⟩ := by
    decide +kernel
  have moved := (reconcile_renamed traded (duet ["b"]) [⟨"a", "y", 0⟩] true).1
  have stopped := (reconcile_renamed traded (duet ["b", "a"]) [] true).1
  rw [seated] at moved
  rw [crowded] at stopped
  refine ⟨traded.person_injective, traded.group_injective, seated, ?_, crowded, stopped⟩
  exact moved.trans (by decide +kernel)

end Roster
