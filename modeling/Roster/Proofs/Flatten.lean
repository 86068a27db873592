import Roster.Proofs.OrderFree

/-! A schedule without the sessions and groups that hold nobody. It is known by who is listed
where, it lists the same assignments, and no inspection tells it from the whole schedule; so
nothing an inspection looks at is lost when a schedule is written as a list of assignments. -/

namespace Roster

namespace Schedule

def occupiedGroups (s : Schedule) (t : Nat) : SessionGroups :=
  ((s.session? t).getD .empty).filterValues fun people => !people.isEmpty

/-- The schedule with those sessions and groups only that hold someone. -/
def pruned (s : Schedule) : Schedule where
  sessions := (s.sessions.mapValues (·.filterValues fun people => !people.isEmpty)).filterValues
    fun groups => !groups.entries.isEmpty

variable {s s' : Schedule}

theorem get?_occupiedGroups (s : Schedule) (t : Nat) (group : String) :
    (s.occupiedGroups t).get? group = occupied? (s.peopleIn t group) := by
  rw [occupiedGroups, SortedMap.get?_filterValues, filter_not_isEmpty, peopleIn_eq]

theorem occupiedGroups_congr {t : Nat}
    (same : ∀ group, s.peopleIn t group = s'.peopleIn t group) :
    s.occupiedGroups t = s'.occupiedGroups t := by
  refine SortedMap.ext_get? fun group => ?_
  rw [get?_occupiedGroups, get?_occupiedGroups, same]

theorem session?_pruned (s : Schedule) (t : Nat) : s.pruned.session? t =
    (some (s.occupiedGroups t)).filter fun groups => !groups.entries.isEmpty := by
  rw [session?, pruned, SortedMap.get?_filterValues, SortedMap.get?_mapValues, occupiedGroups,
    session?]
  cases s.sessions.get? t <;> rfl

theorem pruned_congr (same : ∀ t group, s.peopleIn t group = s'.peopleIn t group) :
    s.pruned = s'.pruned := by
  have sessions : s.pruned.sessions = s'.pruned.sessions := by
    refine SortedMap.ext_get? fun t => ?_
    change s.pruned.session? t = s'.pruned.session? t
    rw [session?_pruned, session?_pruned, occupiedGroups_congr (same t)]
  exact congrArg Schedule.mk sessions

theorem flatMap_pruned {α : Type} {f : Nat → String × List String → List α}
    (nothing : ∀ t g, g.2 = [] → f t g = []) (s : Schedule) :
    (s.pruned.sessions.entries.flatMap fun e => e.2.entries.flatMap (f e.1)) =
      s.sessions.entries.flatMap fun e => e.2.entries.flatMap (f e.1) := by
  have groups : ∀ (t : Nat) (groups : SessionGroups),
      (groups.filterValues fun people => !people.isEmpty).entries.flatMap (f t) =
        groups.entries.flatMap (f t) :=
    fun t _ => flatMap_filter_eq fun g _ empty => nothing t g (by simpa using empty)
  rw [pruned, SortedMap.filterValues, flatMap_filter_eq, SortedMap.mapValues, List.flatMap_map]
  · exact List.flatMap_congr fun e _ => groups e.1 e.2
  · intro e _ empty
    have nobody : e.2.entries = [] := by simpa using empty
    rw [nobody, List.flatMap_nil]

theorem meetings_pruned (s : Schedule) : s.pruned.meetings = s.meetings :=
  flatMap_pruned (f := fun t g => (pairs g.2).map (·, t)) (fun t g empty => by rw [empty]; rfl) s

theorem map_person_filter_session (e : Nat × SessionGroups) (t : Nat) (group : String) :
    ((e.2.entries.flatMap fun g => g.2.map fun person =>
        (⟨person, g.1, e.1⟩ : Assignment)).filter fun a =>
          a.session = t ∧ a.group = group).map (·.person) =
      if e.1 = t then (e.2.get? group).getD [] else [] := by
  rw [List.filter_flatMap, List.map_flatMap]
  by_cases here : e.1 = t
  · rw [if_pos here, ← Option.map_id' (x := e.2.get? group), ← SortedMap.flatMap_ite]
    refine List.flatMap_congr fun g _ => ?_
    rw [List.filter_map, List.map_map]
    by_cases there : g.1 = group <;> simp [Function.comp_def, here, there]
  · rw [if_neg here, List.flatMap_eq_nil_iff]
    intro g _
    rw [List.filter_map]
    simp [Function.comp_def, here]

theorem peopleIn_ofAssignments_toAssignments (s : Schedule) (t : Nat) (group : String) :
    (ofAssignments s.toAssignments).peopleIn t group = s.peopleIn t group := by
  rw [peopleIn_ofAssignments, toAssignments, List.filter_flatMap, List.map_flatMap]
  refine (List.flatMap_congr fun e _ => map_person_filter_session e t group).trans ?_
  rw [SortedMap.flatMap_ite s.sessions t fun groups => (groups.get? group).getD [], peopleIn,
    SortedMap.listAt]
  cases s.sessions.get? t <;> rfl

end Schedule

namespace View

theorem notTogether_eq_occupiedGroups (v : View) (people : List String) (t : Nat) :
    v.notTogether people t =
      .sum ((v.inDeclaredOrder (v.schedule.occupiedGroups t)).map fun e =>
        .ofFinding ((people.filter (· ∈ e.2)).length - 1)
          (.notTogether t e.1 (people.filter (· ∈ e.2)))) := by
  rw [notTogether_eq_visits, Schedule.occupiedGroups, inDeclaredOrder_filterValues,
    Verdict.sum_map_filter]
  intro e _ empty
  have nobody : e.2 = [] := by simpa using empty
  simp [nobody, Verdict.ofFinding]

theorem encounters_congr {s s' : Schedule}
    (same : ∀ t group, s.peopleIn t group = s'.peopleIn t group) :
    s.encounters = s'.encounters := by
  rw [Schedule.encounters, Schedule.encounters, ← s.meetings_pruned, ← s'.meetings_pruned,
    Schedule.pruned_congr same]

/-- An inspection reads a schedule only through who is listed where. -/
theorem inspect_congr {p : Problem} {s s' : Schedule}
    (same : ∀ t group, s.peopleIn t group = s'.peopleIn t group) (covered : SessionSet)
    (c : Constraint) : (of p s).inspect covered c = (of p s').inspect covered c := by
  cases c with
  | rule r listed =>
    exact inspectRule_of_seesAlike fun t _ => r.seesAlike_of_perm fun group => .of_eq (same t group)
  | repeatEncounter =>
    rw [inspect, inspect, repeatEncounter, repeatEncounter, of, of, encounters_congr same]
  | unknown => rfl

end View

/-- Evaluating a schedule as it stands or as a list of assignments gives the same cards, and
ends the same where it gives none. -/
theorem evaluateAssignments_toAssignments (p : Problem) (s : Schedule) :
    p.evaluateAssignments s.toAssignments = p.evaluate s :=
  Problem.evaluate_congr fun c _ covered =>
    View.inspect_congr s.peopleIn_ofAssignments_toAssignments covered c

end Roster
