import Roster.Proofs.Arrangement
import Roster.Proofs.Placement
import Roster.Defect

/-! What it means that nothing is found wrong, and what a reconciliation has to do with it.
Whatever the problem, the assignments of a reconciled schedule have no defect; and where the
problem has none, no reconciliation comes upon a person or a group that does not exist. -/

namespace Roster

def Assignment.seat (a : Assignment) : Nat × String := (a.session, a.person)

theorem Assignment.seat_eq_iff {a b : Assignment} :
    b.seat = a.seat ↔ b.session = a.session ∧ b.person = a.person := by
  rw [seat, seat, Prod.mk.injEq]

def OnePerSeat (l : List Assignment) : Prop := (l.map (·.seat)).Nodup

instance (l : List Assignment) : Decidable (OnePerSeat l) :=
  inferInstanceAs (Decidable (l.map (·.seat)).Nodup)

namespace Problem

variable {p : Problem}

theorem declaresPerson_iff {id : String} :
    p.declaresPerson id ↔ ∃ person ∈ p.people, person.id = id := by
  simp [declaresPerson]

theorem declaresGroup_iff {id : String} :
    p.declaresGroup id ↔ ∃ group ∈ p.groups, group.id = id := by
  simp [declaresGroup]

theorem person?_eq_none {id : String} : p.person? id = none ↔ ¬ p.declaresPerson id := by
  simp [person?, declaresPerson]

theorem groupIndex?_eq_none {id : String} : p.groupIndex? id = none ↔ ¬ p.declaresGroup id := by
  simp [groupIndex?, declaresGroup]

structure Knows (p : Problem) (a : Assignment) : Prop where
  person : p.declaresPerson a.person
  group : p.declaresGroup a.group
  session : a.session < p.sessionCount

theorem knows_iff {a : Assignment} : p.Knows a ↔
    (∃ person ∈ p.people, person.id = a.person) ∧ (∃ group ∈ p.groups, group.id = a.group) ∧
      a.session < p.sessionCount := by
  rw [← declaresPerson_iff, ← declaresGroup_iff]
  exact ⟨fun known => ⟨known.person, known.group, known.session⟩,
    fun known => ⟨known.1, known.2.1, known.2.2⟩⟩

theorem assignmentFaults_eq_nil {earlier : List Assignment} {a : Assignment} :
    p.assignmentFaults earlier a = [] ↔ p.Knows a ∧ a.seat ∉ earlier.map (·.seat) := by
  have first : (earlier.find? fun b => b.session = a.session ∧ b.person = a.person) = none ↔
      a.seat ∉ earlier.map (·.seat) := by
    simp [Assignment.seat]
  rw [← first, assignmentFaults]
  constructor
  · intro h
    simp only [List.append_eq_nil_iff] at h
    obtain ⟨⟨⟨person, group⟩, session⟩, again⟩ := h
    refine ⟨⟨by simpa using person, by simpa using group, by simpa using session⟩, ?_⟩
    cases found : earlier.find? fun b => b.session = a.session ∧ b.person = a.person with
    | none => rfl
    | some b =>
      rw [found] at again
      simp at again
  · intro h
    obtain ⟨known, fresh⟩ := h
    simp only [known.person, known.group, known.session, fresh, if_true, List.append_nil]

theorem assignmentDefectsAfter_eq_nil {earlier l : List Assignment} :
    p.assignmentDefectsAfter earlier l = [] ↔
      (∀ a ∈ l, p.Knows a) ∧ OnePerSeat l ∧ ∀ a ∈ l, a.seat ∉ earlier.map (·.seat) := by
  induction l generalizing earlier with
  | nil => simp [assignmentDefectsAfter, OnePerSeat]
  | cons a rest ih =>
    have apart : (∀ b ∈ rest, b.seat ∉ (a :: earlier).map (·.seat)) ↔
        a.seat ∉ rest.map (·.seat) ∧ ∀ b ∈ rest, b.seat ∉ earlier.map (·.seat) := by
      simp only [List.map_cons, List.mem_cons, not_or, forall_and, List.mem_map, not_exists,
        not_and]
    rw [assignmentDefectsAfter, List.append_eq_nil_iff, assignmentFaults_eq_nil, ih, apart,
      List.forall_mem_cons, List.forall_mem_cons, OnePerSeat, OnePerSeat, List.map_cons,
      List.nodup_cons]
    tauto

theorem assignmentDefects_eq_nil {l : List Assignment} :
    p.assignmentDefects l = [] ↔ (∀ a ∈ l, p.Knows a) ∧ OnePerSeat l := by
  rw [assignmentDefects, assignmentDefectsAfter_eq_nil]
  simp

end Problem

theorem Schedule.mem_toAssignments {s : Schedule} {a : Assignment} : a ∈ s.toAssignments ↔
    ∃ e ∈ s.sessions.entries, e.1 = a.session ∧
      ∃ g ∈ e.2.entries, g.1 = a.group ∧ a.person ∈ g.2 := by
  simp only [toAssignments, List.mem_flatMap, List.mem_map]
  constructor
  · intro h
    obtain ⟨e, he, g, hg, person, listed, rfl⟩ := h
    exact ⟨e, he, rfl, g, hg, rfl, listed⟩
  · intro h
    obtain ⟨e, he, session, g, hg, group, listed⟩ := h
    exact ⟨e, he, g, hg, a.person, listed, by rw [session, group]⟩

theorem Schedule.onePerSeat_toAssignments {s : Schedule}
    (once : ∀ e ∈ s.sessions.entries, (e.2.entries.flatMap Prod.snd).Nodup) :
    OnePerSeat s.toAssignments := by
  have seats : s.toAssignments.map (·.seat) =
      s.sessions.entries.flatMap fun e => (e.2.entries.flatMap Prod.snd).map (e.1, ·) := by
    simp only [toAssignments, List.map_flatMap, List.map_map]
    rfl
  rw [OnePerSeat, seats, List.nodup_flatMap]
  constructor
  · intro e he
    exact (once e he).map fun _ _ same => (Prod.mk.inj same).2
  · refine s.sessions.ascending.imp fun earlier seat first second => ?_
    obtain ⟨_, _, rfl⟩ := List.mem_map.1 first
    obtain ⟨_, _, same⟩ := List.mem_map.1 second
    exact absurd (Prod.mk.inj same).1 (Nat.ne_of_gt earlier)

section Reconciled

variable {p : Problem} {previous : List Assignment} {seeding : Bool} {s : Schedule}

theorem Problem.knows_of_reconcile (h : p.reconcile previous seeding = .ok s) {a : Assignment}
    (listed : a ∈ s.toAssignments) : p.Knows a := by
  obtain ⟨e, he, session, g, hg, group, person⟩ := Schedule.mem_toAssignments.1 listed
  refine ⟨?_, ?_, ?_⟩
  · have there : a.person ∈ e.2.entries.flatMap Prod.snd := List.mem_flatMap.2 ⟨g, hg, person⟩
    have counted := count_of_reconcile h he a.person
    split at counted
    · rename_i active
      obtain ⟨found, hf, same, -⟩ := active
      exact Problem.declaresPerson_iff.2 ⟨found, hf, same⟩
    · exact absurd there (List.count_eq_zero.1 counted)
  · rw [← group]
    exact Problem.declaresGroup_iff.2 (declared_of_reconcile h he hg)
  · have inside : e.1 ∈ s.sessions.entries.map Prod.fst := List.mem_map_of_mem he
    rw [sessions_of_reconcile h, session] at inside
    exact List.mem_range.1 inside

theorem Problem.onePerSeat_of_reconcile (h : p.reconcile previous seeding = .ok s) :
    OnePerSeat s.toAssignments := by
  refine Schedule.onePerSeat_toAssignments fun e he => List.nodup_iff_count_le_one.2 fun id => ?_
  rw [count_of_reconcile h he id]
  split <;> omega

end Reconciled

/-- A person or a group that an obstacle says does not exist is named by a pin and is not
declared. -/
def Problem.Lacks (p : Problem) (session : Nat) : Obstacle → Prop
  | .unknownPerson person =>
    ¬ p.declaresPerson person ∧ ∃ group, (person, group) ∈ p.pins session
  | .unknownGroup person group => ¬ p.declaresGroup group ∧ (person, group) ∈ p.pins session
  | _ => True

namespace Seating

variable {p : Problem} {session : Nat} {s t : Seating} {why : Obstacle}

theorem forall_of_each_eq_stopped {α : Type} {step : Seating → α → Attempt} {l : List α}
    {holds : Obstacle → Prop}
    (steps : ∀ a ∈ l, ∀ s t why, step s a = .stopped t why → holds why)
    (h : Attempt.each step s l = .stopped t why) : holds why := by
  obtain ⟨before, a, after, u, rfl, -, stop⟩ := exists_split_of_each_eq_stopped h
  exact steps a (by simp) u t why stop

theorem lacks_of_putInto {person : String} {index : Nat}
    (h : s.putInto p index person = .stopped t why) : p.Lacks session why := by
  rw [(putInto_eq_stopped.1 h).2.2]
  trivial

theorem lacks_of_pin {e : String × String} (he : e ∈ p.pins session)
    (h : pin p session s e = .stopped t why) : p.Lacks session why := by
  have ends := pin_ends p session s e.1 e.2
  rw [h] at ends
  cases ends with
  | unknownPerson absent => exact ⟨Problem.person?_eq_none.1 absent, e.2, he⟩
  | unknownGroup _ _ absent => exact ⟨Problem.groupIndex?_eq_none.1 absent, he⟩
  | inactivePerson | full | elsewhere => trivial

theorem lacks_of_placeClique {clique : List String}
    (h : placeClique p s clique = .stopped t why) : p.Lacks session why := by
  have ends := placeClique_ends p s clique
  rw [h] at ends
  cases ends with
  | infeasible | torn => trivial
  | roomiest _ _ walk | follow _ _ _ walk =>
    exact forall_of_each_eq_stopped (fun _ _ _ _ _ => lacks_of_putInto) walk

theorem lacks_of_fill {wish : String → Option String}
    (h : fill p session wish = .stopped t why) : p.Lacks session why := by
  obtain pins | ⟨a, -, grouped⟩ | ⟨a, b, -, -, rest⟩ := fill_eq_stopped.1 h
  · exact forall_of_each_eq_stopped (fun _ he _ _ _ => lacks_of_pin he) pins
  · exact forall_of_each_eq_stopped (fun _ _ _ _ _ => lacks_of_placeClique) grouped
  · refine forall_of_each_eq_stopped (fun person _ s t why stop => ?_) rest
    rw [(seatAnywhere_eq_stopped stop).1]
    trivial

end Seating

namespace Problem

variable {p : Problem}

theorem exists_of_mem_pins {session : Nat} {e : String × String} (he : e ∈ p.pins session) :
    ∃ c ∈ p.constraints, e.1 ∈ c.people ∧ c.group? = some e.2 := by
  obtain ⟨c, hc, pinned⟩ := List.mem_flatMap.1 he
  refine ⟨c, hc, ?_⟩
  cases c with
  | rule r sessions =>
    simp only [Constraint.pins] at pinned
    split at pinned
    · cases r <;> simp_all [Rule.pins, Constraint.people, Constraint.group?, Rule.people,
        Rule.group?]
      obtain ⟨person, listed, rfl⟩ := pinned
      exact ⟨listed, rfl⟩
    · simp at pinned
  | repeatEncounter => simp [Constraint.pins] at pinned
  | unknown => simp [Constraint.pins] at pinned

theorem slips_eq_nil (sound : p.defects = []) {c : Constraint} (hc : c ∈ p.constraints) :
    p.slips c = [] := by
  obtain ⟨index, inside, rfl⟩ := List.mem_iff_getElem.1 hc
  have reported := (List.append_eq_nil_iff.1 sound).2
  rw [List.flatMap_eq_nil_iff] at reported
  have entry : (p.constraints[index], index) ∈ p.constraints.zipIdx :=
    List.mk_mem_zipIdx_iff_getElem?.2 (List.getElem?_eq_getElem inside)
  exact List.map_eq_nil_iff.1 (reported _ entry)

theorem declared_of_mem_pins (sound : p.defects = []) {session : Nat} {e : String × String}
    (he : e ∈ p.pins session) : p.declaresPerson e.1 ∧ p.declaresGroup e.2 := by
  obtain ⟨c, hc, person, group⟩ := exists_of_mem_pins he
  have nothing := slips_eq_nil sound hc
  simp only [slips, List.append_eq_nil_iff, List.map_eq_nil_iff, List.filter_eq_nil_iff,
    group] at nothing
  obtain ⟨⟨⟨people, groups⟩, -⟩, -⟩ := nothing
  exact ⟨by simpa using people e.1 person, by simpa using groups e.2⟩

end Problem

/-- Whatever is reconciled has no defect, and where there was none before, no one and nothing
is missing. -/
theorem assignmentDefects_of_reconcile (p : Problem) (previous : List Assignment)
    (seeding : Bool) :
    (∀ s, p.reconcile previous seeding = .ok s → p.assignmentDefects s.toAssignments = []) ∧
    (p.defects = [] → ∀ i, p.reconcile previous seeding = .error i →
      (∀ person, i.obstacle ≠ .unknownPerson person) ∧
        ∀ person group, i.obstacle ≠ .unknownGroup person group) := by
  constructor
  · intro s h
    exact Problem.assignmentDefects_eq_nil.2
      ⟨fun _ => Problem.knows_of_reconcile h, Problem.onePerSeat_of_reconcile h⟩
  · intro sound i h
    obtain ⟨-, -, s, stop⟩ := Problem.reconcile_eq_error.1 h
    have lacking := Seating.lacks_of_fill stop
    constructor
    · intro person same
      rw [same] at lacking
      obtain ⟨undeclared, group, pinned⟩ := lacking
      exact undeclared (Problem.declared_of_mem_pins sound pinned).1
    · intro person group same
      rw [same] at lacking
      exact lacking.1 (Problem.declared_of_mem_pins sound lacking.2).2

theorem assignmentDefects_doubled :
    doubled.defects ≠ [] ∧
    (∃ s, doubled.reconcile [⟨"d", "y", 0⟩, ⟨"c", "x", 0⟩, ⟨"b", "z", 1⟩] = .ok s ∧
      s.assignmentCount = 7 ∧ doubled.assignmentDefects s.toAssignments = []) ∧
    tangle.defects = [] ∧
    ∃ i, tangle.reconcile [⟨"ghost", "z", 0⟩] = .error i ∧
      (∀ person, i.obstacle ≠ .unknownPerson person) ∧
        ∀ person group, i.obstacle ≠ .unknownGroup person group := by
  have filled : doubled.reconcile [⟨"d", "y", 0⟩, ⟨"c", "x", 0⟩, ⟨"b", "z", 1⟩] =
      .ok (.ofAssignments [⟨"c", "x", 0⟩, ⟨"a", "x", 0⟩, ⟨"d", "x", 0⟩, ⟨"b", "y", 0⟩,
        ⟨"c", "x", 1⟩, ⟨"a", "x", 1⟩, ⟨"b", "y", 1⟩]) := by decide +kernel
  have stopped : tangle.reconcile [⟨"ghost", "z", 0⟩] =
      .error ⟨0, .cliqueConflict ["a", "b", "c"] "x" "y"⟩ := by decide +kernel
  have sound : tangle.defects = [] := by decide +kernel
  refine ⟨by decide +kernel, ⟨_, filled, by decide +kernel, ?_⟩, sound, _, stopped, ?_⟩
  · exact (assignmentDefects_of_reconcile doubled _ true).1 _ filled
  · exact (assignmentDefects_of_reconcile tangle _ true).2 sound _ stopped

end Roster
