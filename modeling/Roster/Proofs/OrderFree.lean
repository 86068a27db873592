import Roster.Proofs.Scope

/-! Assignments in another order. They build schedules that agree but for the order of people
within groups, and no inspection looks at that. All inspections but those that count meetings
or heads do not even look at how often a person is listed. -/

namespace Roster

def SameMembers (a b : List String) : Prop := ∀ person, person ∈ a ↔ person ∈ b

theorem lasting_sameMembers : Lasting SameMembers := by
  intro a b same
  rw [List.eq_nil_iff_forall_not_mem, List.eq_nil_iff_forall_not_mem]
  exact forall_congr' fun person => not_congr (same person)

theorem lasting_perm : Lasting (List.Perm (α := String)) := by
  intro a b order
  constructor
  · intro nothing
    rw [nothing] at order
    exact order.nil_eq.symm
  · intro nothing
    rw [nothing] at order
    exact List.perm_nil.1 order

theorem pairs_perm {l m : List String} (order : l.Perm m) : (pairs l).Perm (pairs m) := by
  induction order with
  | nil => exact .refl _
  | cons a order ih => exact ((order.filter _).map _).append ih
  | swap a b rest =>
    by_cases same : b = a
    · rw [same]
    · have turned : (if b < a then (b, a) else (a, b)) = if a < b then (a, b) else (b, a) := by
        grind
      simp only [pairs, List.filter_cons, same, Ne.symm same, ne_eq, not_false_eq_true, decide_true,
        if_true, List.map_cons, turned, List.cons_append]
      rw [← List.append_assoc, ← List.append_assoc]
      exact (List.perm_append_comm.append_right _).cons _
  | trans _ _ first second => exact first.trans second

namespace Schedule

variable {R : List String → List String → Prop} {s s' : Schedule}

def Alike (R : List String → List String → Prop) (s s' : Schedule) : Prop :=
  s.sessions.Alike (SortedMap.Alike R) s'.sessions

theorem Alike.peopleIn (h : s.Alike R s') (nothing : R [] []) (t : Nat) (group : String) :
    R (s.peopleIn t group) (s'.peopleIn t group) :=
  rel_getD (rel_bind (h t) fun _ _ row => row group) nothing

theorem alike_ofAssignments (lasting : Lasting R) {l m : List Assignment}
    (h : ∀ t group, R ((ofAssignments l).peopleIn t group) ((ofAssignments m).peopleIn t group)) :
    (ofAssignments l).Alike R (ofAssignments m) := by
  simp only [ofAssignments_eq_tabulate, Schedule.peopleIn, SortedMap.listAt_tabulate] at h ⊢
  exact SortedMap.alike_tabulate lasting h

theorem alike_of_perm {l m : List Assignment} (order : l.Perm m) :
    (ofAssignments l).Alike List.Perm (ofAssignments m) := by
  refine alike_ofAssignments lasting_perm fun t group => ?_
  rw [peopleIn_ofAssignments, peopleIn_ofAssignments]
  exact (order.filter _).map _

theorem alike_of_mem_iff {l m : List Assignment} (same : ∀ a, a ∈ l ↔ a ∈ m) :
    (ofAssignments l).Alike SameMembers (ofAssignments m) := by
  refine alike_ofAssignments lasting_sameMembers fun t group person => ?_
  rw [mem_peopleIn_ofAssignments, mem_peopleIn_ofAssignments]
  exact same _

theorem valuesOf_meetings (s : Schedule) (pair : String × String) :
    SortedMap.valuesOf s.meetings pair =
      (s.sessions.mapValues fun groups =>
        groups.mapValues fun people => (pairs people).count pair).entries.flatMap fun e =>
          e.2.entries.flatMap fun g => List.replicate g.2 e.1 := by
  rw [SortedMap.valuesOf, meetings, SortedMap.mapValues, List.flatMap_map, List.filter_flatMap,
    List.map_flatMap]
  refine List.flatMap_congr fun e _ => ?_
  rw [SortedMap.mapValues, List.flatMap_map, List.filter_flatMap, List.map_flatMap]
  refine List.flatMap_congr fun g _ => ?_
  have these : ((pairs g.2).map (·, e.1)).filter (·.1 = pair) =
      ((pairs g.2).filter (· == pair)).map (·, e.1) := by
    rw [List.filter_map]
    exact congrArg _ (List.filter_congr fun _ _ => (beq_eq_decide _ _).symm)
  rw [these, List.map_map, List.count_eq_length_filter]
  exact List.map_const'

theorem encounters_eq (h : s.Alike List.Perm s') : s.encounters = s'.encounters := by
  have met : ∀ a b,
      SortedMap.valuesOf s.meetings (a, b) = SortedMap.valuesOf s'.meetings (a, b) := by
    intro a b
    rw [valuesOf_meetings, valuesOf_meetings, SortedMap.Alike.mapValues_eq h]
    exact fun _ _ row => row.mapValues_eq _ fun _ _ order => (pairs_perm order).count_eq (a, b)
  have alike := SortedMap.alike_tabulate (fun a b same => by rw [same]) met
  exact (alike.mono fun _ _ row => row.eq).eq

end Schedule

namespace Constraint

/-- Whether it counts how often people are listed, and not only who is. -/
def tallies : Constraint → Bool
  | repeatEncounter .. | rule (.attributeBalance ..) _ => true
  | _ => false

end Constraint

namespace View

variable {p : Problem} {s s' : Schedule}

theorem inspect_eq_of_not_tallies (h : s.Alike SameMembers s') (covered : SessionSet)
    {c : Constraint} (plain : ¬ c.tallies) :
    (of p s).inspect covered c = (of p s').inspect covered c := by
  cases c with
  | rule r listed =>
    refine inspectRule_of_seesAlike fun t _ => ?_
    cases r with
    | attributeBalance => simp [Constraint.tallies] at plain
    | _ => exact fun person _ group => h.peopleIn (fun _ => .rfl) t group person
  | repeatEncounter => simp [Constraint.tallies] at plain
  | unknown => rfl

theorem inspect_eq_of_perm (h : s.Alike List.Perm s') (covered : SessionSet) (c : Constraint) :
    (of p s).inspect covered c = (of p s').inspect covered c := by
  cases c with
  | rule r listed =>
    exact inspectRule_of_seesAlike fun t _ => r.seesAlike_of_perm (h.peopleIn .nil t)
  | repeatEncounter => simp only [inspect, repeatEncounter, of, Schedule.encounters_eq h]
  | unknown => rfl

end View

theorem Problem.evaluate_congr {p : Problem} {s s' : Schedule}
    (same : ∀ c ∈ p.constraints, ∀ covered,
      (View.of p s).inspect covered c = (View.of p s').inspect covered c) :
    p.evaluate s = p.evaluate s' := by
  refine mapM_congr fun e he => ?_
  obtain ⟨c, index⟩ := e
  have listed : c ∈ p.constraints := List.fst_mem_of_mem_zipIdx he
  dsimp only
  rw [View.judge_congr (same c listed _)]

theorem Problem.getElem?_cards (p : Problem) (s : Schedule) (i : Nat) :
    (p.cards s)[i]? = p.constraints[i]?.map fun c =>
      ⟨c, i, (View.of p s).inspect (c.covered p.sessionCount) c⟩ := by
  rw [cards, List.getElem?_map, List.getElem?_zipIdx, Option.map_map, Nat.zero_add]
  rfl

/-- Evaluating assignments does not look at their order, and a constraint that tallies nothing
has one card for all lists of the same assignments, whatever is repeated in them. -/
theorem evaluateAssignments_eq (p : Problem) (l m : List Assignment) :
    (l.Perm m → p.evaluateAssignments l = p.evaluateAssignments m) ∧
    ((∀ a, a ∈ l ↔ a ∈ m) →
      (∀ cards others, p.evaluateAssignments l = .ok cards →
        p.evaluateAssignments m = .ok others →
          ∀ (i : Nat) (card : Card), ¬ card.constraint.tallies →
            (cards[i]? = some card ↔ others[i]? = some card)) ∧
      ((∀ c ∈ p.constraints, ¬ c.tallies) →
        p.evaluateAssignments l = p.evaluateAssignments m)) := by
  refine ⟨fun order => ?_, fun same => ⟨?_, fun plain => ?_⟩⟩
  · have alike := Schedule.alike_of_perm order
    exact Problem.evaluate_congr fun c _ covered => View.inspect_eq_of_perm alike covered c
  · intro cards others first second i card plain
    have alike := Schedule.alike_of_mem_iff same
    obtain ⟨-, -, rfl⟩ := Problem.evaluate_eq_ok.1 first
    obtain ⟨-, -, rfl⟩ := Problem.evaluate_eq_ok.1 second
    rw [Problem.getElem?_cards, Problem.getElem?_cards, Option.map_eq_some_iff,
      Option.map_eq_some_iff]
    refine exists_congr fun c => and_congr_right fun _ => ?_
    by_cases tallying : c.tallies
    · have other : ∀ verdict, ⟨c, i, verdict⟩ ≠ card := fun verdict built =>
        plain (by rw [← built]; exact tallying)
      exact iff_of_false (other _) (other _)
    · rw [View.inspect_eq_of_not_tallies alike _ tallying]
  · have alike := Schedule.alike_of_mem_iff same
    exact Problem.evaluate_congr fun c hc covered =>
      View.inspect_eq_of_not_tallies alike covered (plain c hc)

def workshop : Problem where
  people := [⟨"a", .ofList [("role", "lead")], none⟩, ⟨"b", .empty, none⟩, ⟨"c", .empty, none⟩]
  groups := [⟨"y", 2⟩, ⟨"x", 2⟩]
  sessionCount := 2
  constraints := [.repeatEncounter 0,
    .rule (.attributeBalance "x" "role" (.ofList [("lead", 0)])) (some [0]),
    .rule (.shouldNotBeTogether ["a", "b", "c"]), .rule (.pairMeetingCount "a" "b" 2 .exact),
    .rule (.mustStayTogether ["a", "c"]) (some [1, 0]), .rule (.immovablePeople ["a", "b"] "y")]

def workshopSeats : List Assignment :=
  [⟨"a", "x", 0⟩, ⟨"b", "x", 0⟩, ⟨"a", "y", 0⟩, ⟨"c", "y", 0⟩, ⟨"b", "y", 1⟩]

theorem evaluateAssignments_workshop :
    (workshopSeats.Perm workshopSeats.reverse ∧ workshop.evaluateAssignments workshopSeats =
      workshop.evaluateAssignments workshopSeats.reverse) ∧
    (∀ a, a ∈ workshopSeats ↔ a ∈ ⟨"a", "x", 0⟩ :: workshopSeats) ∧
    ∃ cards others, workshop.evaluateAssignments workshopSeats = .ok cards ∧
      workshop.evaluateAssignments (⟨"a", "x", 0⟩ :: workshopSeats) = .ok others ∧
      cards.map (·.violations) = [2, 1, 2, 1, 1, 2] ∧
      others.map (·.violations) = [3, 2, 2, 1, 1, 2] ∧
      ∀ (i : Nat) (card : Card), ¬ card.constraint.tallies →
        (cards[i]? = some card ↔ others[i]? = some card) := by
  have order : workshopSeats.Perm workshopSeats.reverse := (List.reverse_perm _).symm
  have same : ∀ a, a ∈ workshopSeats ↔ a ∈ (⟨"a", "x", 0⟩ : Assignment) :: workshopSeats := by
    intro a
    simp [workshopSeats]
  have evaluated : workshop.evaluateAssignments workshopSeats =
      .ok (workshop.cards (.ofAssignments workshopSeats)) :=
    Problem.evaluate_eq_ok.2 ⟨by decide, by decide +kernel, rfl⟩
  have reevaluated : workshop.evaluateAssignments (⟨"a", "x", 0⟩ :: workshopSeats) =
      .ok (workshop.cards (.ofAssignments (⟨"a", "x", 0⟩ :: workshopSeats))) :=
    Problem.evaluate_eq_ok.2 ⟨by decide, by decide +kernel, rfl⟩
  refine ⟨⟨order, (evaluateAssignments_eq workshop _ _).1 order⟩, same, _, _, evaluated,
    reevaluated, by decide +kernel, by decide +kernel, ?_⟩
  exact ((evaluateAssignments_eq workshop _ _).2 same).1 _ _ evaluated reevaluated

end Roster
