import Roster.Proofs.OfAssignments
import Roster.Proofs.ProblemDefects

/-! What is reported of a list of assignments. Each is looked at for itself and against those
before it, so the report goes through the list once and says of every entry what is wrong with
it. Where nothing is, the schedule built from the list finds people where they are assigned. -/

namespace Roster

theorem Schedule.groupOf?_ofAssignments_of_onePerSeat {l : List Assignment} (one : OnePerSeat l)
    (t : Nat) (person group : String) :
    (ofAssignments l).groupOf? t person = some group ↔ ⟨person, group, t⟩ ∈ l := by
  have settled : (ofAssignments l).Settled t person := by
    refine settled_ofAssignments (fun a ha b hb session named => ?_) t person
    exact congrArg Assignment.group
      (List.inj_on_of_nodup_map one ha hb (Assignment.seat_eq_iff.2 ⟨session, named⟩))
  rw [settled.groupOf?_eq_some, mem_peopleIn_ofAssignments]

namespace Problem

/-- Something wrong with the `i`-th assignment. It is made again when an earlier one has its seat,
and is then reported with the group of the last of those. -/
inductive AssignmentDefect (p : Problem) (l : List Assignment) (i : Nat) (a : Assignment) :
    Spot → Defect → Prop
  | person (unknown : ∀ person ∈ p.people, person.id ≠ a.person) :
    AssignmentDefect p l i a ⟨.assignments, i, .invalidPersonReference, 0⟩
      (.assignedPerson a.person)
  | group (unknown : ∀ group ∈ p.groups, group.id ≠ a.group) :
    AssignmentDefect p l i a ⟨.assignments, i, .invalidGroupReference, 0⟩
      (.assignedGroup a.group)
  | session (beyond : p.sessionCount ≤ a.session) :
    AssignmentDefect p l i a ⟨.assignments, i, .sessionOutOfRange, 0⟩
      (.assignedSession a.person a.session p.sessionCount)
  | again {before between : List Assignment} {b : Assignment}
    (earlier : l.take i = before ++ b :: between) (same : b.seat = a.seat)
    (last : ∀ c ∈ between, c.seat ≠ a.seat) :
    AssignmentDefect p l i a ⟨.assignments, i, .duplicateAssignment, 0⟩
      (.assignedTwice a.person a.session b.group a.group)

def AssignmentDefectAt (p : Problem) (l : List Assignment) (spot : Spot) (d : Defect) : Prop :=
  ∃ i a, l[i]? = some a ∧ p.AssignmentDefect l i a spot d

variable {p : Problem} {l : List Assignment} {i : Nat} {a : Assignment} {spot : Spot} {d : Defect}

theorem AssignmentDefect.place (h : p.AssignmentDefect l i a spot d) :
    spot.part = .assignments ∧ spot.index = i := by
  cases h <;> exact ⟨rfl, rfl⟩

theorem AssignmentDefectAt.kind_eq (h : p.AssignmentDefectAt l spot d) : d.kind = spot.kind := by
  obtain ⟨i, a, -, wrong⟩ := h
  cases wrong <;> rfl

theorem assignmentDefects_eq (p : Problem) (l : List Assignment) :
    p.assignmentDefects l =
      l.zipIdx.flatMap fun e => p.assignmentFaults (l.take e.2).reverse e.1 := by
  rw [assignmentDefects, walk_eq_flatMap_zipIdx p.assignmentDefectsAfter p.assignmentFaults id
    (fun _ => rfl) (fun _ _ _ => rfl)]
  simp only [List.map_id, List.append_nil]

theorem again_iff {b : Assignment} :
    (l.take i).reverse.find? (fun b => b.session = a.session ∧ b.person = a.person) = some b ↔
      b.seat = a.seat ∧ ∃ before between, l.take i = before ++ b :: between ∧
        ∀ c ∈ between, c.seat ≠ a.seat := by
  simp only [find?_reverse_eq_some, ← Assignment.seat_eq_iff, decide_eq_true_eq, Bool.not_eq_true',
    decide_eq_false_iff_not, ne_eq]

theorem exists_again_iff (l : List Assignment) (i : Nat) :
    (∃ d, p.AssignmentDefectAt l ⟨.assignments, i, .duplicateAssignment, 0⟩ d) ↔
      ∃ a, l[i]? = some a ∧ ∃ b ∈ l.take i, b.session = a.session ∧ b.person = a.person := by
  constructor
  · intro h
    obtain ⟨d, _, a, here, wrong⟩ := h
    cases wrong with
    | again earlier same last =>
      refine ⟨a, here, _, ?_, Assignment.seat_eq_iff.1 same⟩
      rw [earlier]
      exact List.mem_append_right _ List.mem_cons_self
  · intro h
    obtain ⟨a, here, b, before, same⟩ := h
    cases found : (l.take i).reverse.find? fun b => b.session = a.session ∧ b.person = a.person with
    | none =>
      exact absurd (decide_eq_true same) (List.find?_eq_none.1 found b (List.mem_reverse.2 before))
    | some c =>
      obtain ⟨seat, earlier, between, parts, last⟩ := again_iff.1 found
      exact ⟨_, i, a, here, .again parts seat last⟩

theorem assignmentFaults_eq (p : Problem) (earlier : List Assignment) (a : Assignment) :
    p.assignmentFaults earlier a =
      (if ∀ person ∈ p.people, person.id ≠ a.person then [.assignedPerson a.person] else []) ++
      (if ∀ group ∈ p.groups, group.id ≠ a.group then [.assignedGroup a.group] else []) ++
      (if p.sessionCount ≤ a.session then [.assignedSession a.person a.session p.sessionCount]
        else []) ++
      ((earlier.find? fun b => b.session = a.session ∧ b.person = a.person).map
        fun b => .assignedTwice a.person a.session b.group a.group).toList := by
  simp only [assignmentFaults, ← not_declaresPerson_iff, ← not_declaresGroup_iff, ← Nat.not_lt,
    Bool.not_eq_true', ite_not, Bool.eq_false_iff]
  cases earlier.find? fun b => b.session = a.session ∧ b.person = a.person <;> rfl

theorem assignmentFaults_reportsInOrder (p : Problem) (l : List Assignment) (i : Nat)
    (a : Assignment) : ReportsInOrder Spot.Before (p.AssignmentDefect l i a)
      (p.assignmentFaults (l.take i).reverse a) := by
  rw [assignmentFaults_eq]
  refine ((((ReportsInOrder.ite _ ⟨.assignments, i, .invalidPersonReference, 0⟩ _).append_at
    (.ite _ ⟨.assignments, i, .invalidGroupReference, 0⟩ _) ?_).append_at
    (.ite _ ⟨.assignments, i, .sessionOutOfRange, 0⟩ _) ?_).append_at
    (.toList ⟨.assignments, i, .duplicateAssignment, 0⟩ _) ?_).congr fun spot d => ⟨?_, ?_⟩
  · intro _ _ first
    rw [first.1]
    exact Spot.before_of_kind (by decide)
  · intro _ _ first
    obtain ⟨rfl, -⟩ | ⟨rfl, -⟩ := first <;> exact Spot.before_of_kind (by decide)
  · intro _ _ first
    obtain (⟨rfl, -⟩ | ⟨rfl, -⟩) | ⟨rfl, -⟩ := first <;> exact Spot.before_of_kind (by decide)
  · intro found
    obtain ((⟨rfl, unknown, rfl⟩ | ⟨rfl, unknown, rfl⟩) | ⟨rfl, beyond, rfl⟩) |
      ⟨rfl, again⟩ := found
    · exact .person unknown
    · exact .group unknown
    · exact .session beyond
    · obtain ⟨b, last, rfl⟩ := Option.map_eq_some_iff.1 again
      obtain ⟨same, before, between, parts, others⟩ := again_iff.1 last
      exact .again parts same others
  · intro wrong
    cases wrong with
    | person unknown => exact .inl (.inl (.inl ⟨rfl, unknown, rfl⟩))
    | group unknown => exact .inl (.inl (.inr ⟨rfl, unknown, rfl⟩))
    | session beyond => exact .inl (.inr ⟨rfl, beyond, rfl⟩)
    | again earlier same last =>
      have found := again_iff.2 ⟨same, _, _, earlier, last⟩
      exact .inr ⟨rfl, Option.map_eq_some_iff.2 ⟨_, found, rfl⟩⟩

theorem reportsInOrder_assignmentDefects (p : Problem) (l : List Assignment) :
    ReportsInOrder Spot.Before (p.AssignmentDefectAt l) (p.assignmentDefects l) := by
  rw [assignmentDefects_eq]
  exact part_reportsInOrder AssignmentDefect.place (p.assignmentFaults_reportsInOrder l)

end Problem

/-- Assignments are passed exactly when they stay within the problem and fill each seat once. In
general each place where something is wrong is reported once, in order and as what it is, and an
assignment as made again wherever an earlier one has its seat. The schedule built from assignments
that are passed finds everyone where they are assigned. -/
theorem assignmentDefects_exact (p : Problem) (l : List Assignment) :
    (p.assignmentDefects l = [] ↔
      (∀ a ∈ l, (∃ person ∈ p.people, person.id = a.person) ∧
        (∃ group ∈ p.groups, group.id = a.group) ∧ a.session < p.sessionCount) ∧
      OnePerSeat l) ∧
    ReportsInOrder Spot.Before (p.AssignmentDefectAt l) (p.assignmentDefects l) ∧
    (∀ spot d, p.AssignmentDefectAt l spot d → d.kind = spot.kind) ∧
    (∀ i, (∃ d, p.AssignmentDefectAt l ⟨.assignments, i, .duplicateAssignment, 0⟩ d) ↔
      ∃ a, l[i]? = some a ∧ ∃ b ∈ l.take i, b.session = a.session ∧ b.person = a.person) ∧
    (p.assignmentDefects l = [] → ∀ t person group,
      (Schedule.ofAssignments l).groupOf? t person = some group ↔ ⟨person, group, t⟩ ∈ l) := by
  have accepted : p.assignmentDefects l = [] ↔ _ := Problem.assignmentDefects_eq_nil
  refine ⟨?_, p.reportsInOrder_assignmentDefects l, fun _ _ => Problem.AssignmentDefectAt.kind_eq,
    Problem.exists_again_iff l, fun nothing => ?_⟩
  · simp only [accepted, Problem.knows_iff]
  · exact Schedule.groupOf?_ofAssignments_of_onePerSeat (accepted.1 nothing).2

def scribbled : List Assignment :=
  [⟨"a", "x", 0⟩, ⟨"d", "z", 7⟩, ⟨"a", "y", 0⟩, ⟨"b", "x", 1⟩, ⟨"a", "x", 0⟩]

theorem assignmentDefects_exact_scribbled :
    tangle.assignmentDefects scribbled =
      [.assignedPerson "d", .assignedGroup "z", .assignedSession "d" 7 2,
        .assignedTwice "a" 0 "x" "y", .assignedTwice "a" 0 "y" "x"] ∧
    tangle.AssignmentDefectAt scribbled ⟨.assignments, 4, .duplicateAssignment, 0⟩
      (.assignedTwice "a" 0 "y" "x") ∧
    (Defect.assignedTwice "a" 0 "y" "x").kind = .duplicateAssignment ∧
    tangle.assignmentDefects ((scribbled.drop 2).take 2) = [] ∧
    (Schedule.ofAssignments ((scribbled.drop 2).take 2)).groupOf? 1 "b" = some "x" := by
  have again : tangle.AssignmentDefectAt scribbled ⟨.assignments, 4, .duplicateAssignment, 0⟩
      (.assignedTwice "a" 0 "y" "x") := by
    have earlier : scribbled.take 4 =
      [⟨"a", "x", 0⟩, ⟨"d", "z", 7⟩] ++ ⟨"a", "y", 0⟩ :: [⟨"b", "x", 1⟩] := rfl
    exact ⟨4, ⟨"a", "x", 0⟩, rfl, .again earlier rfl (by decide)⟩
  have nothing : tangle.assignmentDefects ((scribbled.drop 2).take 2) = [] := by decide +kernel
  refine ⟨by decide +kernel, again, ?_, nothing, ?_⟩
  · exact (assignmentDefects_exact tangle scribbled).2.2.1 _ _ again
  · exact ((assignmentDefects_exact tangle _).2.2.2.2 nothing 1 "b" "x").2 (by decide)

end Roster
