import Roster.Proofs.Filling
import Roster.Proofs.Gather
import Roster.Report
import Roster.WarmStart

/-! The schedule that comes out of a reconciliation, session by session. Each session is
filled for itself and written as one entry, which holds exactly the people of its seating,
in the order they got their seats. -/

namespace Roster

namespace Seating

variable {p : Problem} {session : Nat} {s : Seating}

def groups (p : Problem) (s : Seating) : SessionGroups :=
  s.order.foldl (fun groups e => groups.alter (p.groupId e.2) fun l => l.getD [] ++ [e.1]) .empty

def members (p : Problem) (s : Seating) (group : String) : List String :=
  (s.order.filter fun e => p.groupId e.2 = group).map Prod.fst

theorem mem_members {person group : String} :
    person ∈ s.members p group ↔ ∃ index, (person, index) ∈ s.order ∧ p.groupId index = group := by
  simp [members]

theorem get?_groups (p : Problem) (s : Seating) (group : String) :
    (s.groups p).get? group = occupied? (s.members p group) := by
  have gathered : s.groups p = .gather (s.order.map fun e => (p.groupId e.2, e.1)) := by
    rw [SortedMap.gather, List.foldl_map]
    rfl
  rw [gathered, SortedMap.get?_gather, SortedMap.valuesOf, List.filter_map, List.map_map]
  rfl

theorem flatMap_groups_perm (p : Problem) (s : Seating) :
    ((s.groups p).entries.flatMap Prod.snd).Perm (s.order.map Prod.fst) := by
  obtain ⟨occupancy, placed, order⟩ := s
  simp only [groups]
  induction order using List.reverseRecOn with
  | nil => exact .refl _
  | append_singleton order e ih =>
    rw [List.foldl_append, List.foldl_cons, List.foldl_nil, List.map_append]
    refine (SortedMap.flatMap_alterEntries_perm _ e.1 _).trans ?_
    refine (ih.cons e.1).trans ?_
    exact (List.perm_append_singleton e.1 _).symm

theorem mem_entries_groups {group : String} {people : List String} :
    (group, people) ∈ (s.groups p).entries ↔ people = s.members p group ∧ people ≠ [] := by
  rw [SortedMap.mem_entries_iff, get?_groups, occupied?_eq_some]

theorem find?_groups (records : s.Coherent p session) (person : String) :
    ((s.groups p).entries.find? fun e => person ∈ e.2).map Prod.fst =
      (s.placed.get? person).map p.groupId := by
  have sitting : ∀ e ∈ (s.groups p).entries, person ∈ e.2 →
      (s.placed.get? person).map p.groupId = some e.1 := by
    intro e he listed
    obtain ⟨group, people⟩ := e
    obtain ⟨rfl, _⟩ := mem_entries_groups.1 he
    obtain ⟨index, seated, same⟩ := mem_members.1 listed
    rw [(records.placed person index).2 seated, Option.map_some, same]
  cases found : (s.groups p).entries.find? fun e => person ∈ e.2 with
  | some e =>
    rw [sitting e (List.mem_of_find?_eq_some found) (by simpa using List.find?_some found)]
    rfl
  | none =>
    cases seated : s.placed.get? person with
    | none => rfl
    | some index =>
      have listed : person ∈ s.members p (p.groupId index) :=
        mem_members.2 ⟨index, (records.placed person index).1 seated, rfl⟩
      have entry := mem_entries_groups.2 ⟨rfl, List.ne_nil_of_mem listed⟩
      have missed := List.find?_eq_none.1 found _ entry
      simp [listed] at missed

theorem entries_writeInto {schedule : Schedule}
    (later : ∀ e ∈ schedule.sessions.entries, e.1 < session) :
    (s.writeInto p session schedule).sessions.entries =
      schedule.sessions.entries ++ [(session, s.groups p)] := by
  have walk : ∀ (order : List (String × Nat)) (schedule' : Schedule) (groups : SessionGroups),
      schedule'.sessions.entries = schedule.sessions.entries ++ [(session, groups)] →
      (order.foldl (fun schedule e => schedule.place session (p.groupId e.2) e.1)
        schedule').sessions.entries = schedule.sessions.entries ++ [(session,
          order.foldl (fun groups e => groups.alter (p.groupId e.2) fun l => l.getD [] ++ [e.1])
            groups)] := by
    intro order
    induction order with
    | nil => exact fun _ _ start => start
    | cons e rest ih =>
      intro schedule' groups start
      refine ih _ _ ?_
      change SortedMap.alterEntries session _ schedule'.sessions.entries = _
      rw [start, SortedMap.alterEntries_concat _ _ later]
      rfl
  refine walk s.order _ .empty ?_
  exact SortedMap.alterEntries_of_forall_lt _ later

end Seating

def wishes (previous : List Assignment) (seeding : Bool) : Nat → String → Option String :=
  if seeding then earlierGroup? previous else fun _ _ => none

namespace Problem

variable {p : Problem}

def seating (p : Problem) (wish : Nat → String → Option String) (session : Nat) : Seating :=
  (Seating.fill p session (wish session)).seating

/-- What filling a session gives: its entry in the schedule, or where it was stopped. -/
def outcome (p : Problem) (wish : Nat → String → Option String) (session : Nat) :
    Except Impasse (Nat × SessionGroups) :=
  match Seating.fill p session (wish session) with
  | .stopped _ why => .error ⟨session, why⟩
  | .done s => .ok (session, s.groups p)

theorem outcome_eq_ok {wish : Nat → String → Option String} {session : Nat}
    {entry : Nat × SessionGroups} : p.outcome wish session = .ok entry ↔
      Seating.fill p session (wish session) = .done (p.seating wish session) ∧
        entry = (session, (p.seating wish session).groups p) := by
  rw [outcome, seating]
  cases Seating.fill p session (wish session) with
  | stopped s why => simp
  | done s => simp [eq_comm]

theorem fillFrom_eq_mapM {wish : Nat → String → Option String} {count session : Nat}
    {start : Schedule} (later : ∀ e ∈ start.sessions.entries, e.1 < session) :
    p.fillFrom wish count session start =
      ((List.range' session count).mapM (p.outcome wish)).map fun found =>
        ⟨.ofList (start.sessions.entries ++ found)⟩ := by
  induction count generalizing session start with
  | zero => simp [fillFrom, pure, Except.pure, Except.map]
  | succ count ih =>
    rw [fillFrom, List.range'_succ, List.mapM_cons, outcome]
    cases first : Seating.fill p session (wish session) with
    | stopped s why => rfl
    | done s =>
      have entries := Seating.entries_writeInto (p := p) (s := s) later
      have laterRest : ∀ e ∈ (s.writeInto p session start).sessions.entries, e.1 < session + 1 := by
        intro e he
        rw [entries, List.mem_append, List.mem_singleton] at he
        cases he with
        | inl old => exact Nat.lt_succ_of_lt (later e old)
        | inr new => rw [new]; omega
      change p.fillFrom wish count (session + 1) (s.writeInto p session start) = _
      rw [ih laterRest, entries]
      cases (List.range' (session + 1) count).mapM (p.outcome wish) with
      | error i => rfl
      | ok found => simp [Except.map, bind, Except.bind, pure, Except.pure]

theorem reconcile_eq_mapM (p : Problem) (previous : List Assignment) (seeding : Bool) :
    p.reconcile previous seeding =
      ((List.range p.sessionCount).mapM (p.outcome (wishes previous seeding))).map fun found =>
        ⟨.ofList found⟩ := by
  rw [List.range_eq_range']
  exact fillFrom_eq_mapM (by simp [Schedule.empty, SortedMap.empty])

variable {previous : List Assignment} {seeding : Bool} {schedule : Schedule}

/-- Every session is filled, and the schedule holds their seatings and nothing else. -/
theorem reconcile_eq_ok (h : p.reconcile previous seeding = .ok schedule) :
    (∀ t < p.sessionCount, Seating.fill p t (wishes previous seeding t) =
      .done (p.seating (wishes previous seeding) t)) ∧
      schedule.sessions.entries = (List.range p.sessionCount).map fun t =>
        (t, (p.seating (wishes previous seeding) t).groups p) := by
  rw [reconcile_eq_mapM] at h
  cases walk : (List.range p.sessionCount).mapM (p.outcome (wishes previous seeding)) with
  | error i => simp [walk, Except.map] at h
  | ok found =>
    obtain ⟨filled, rfl⟩ := (mapM_eq_ok fun _ _ => outcome_eq_ok).1 walk
    rw [walk] at h
    obtain rfl := Except.ok.inj h
    refine ⟨fun t inside => filled t (List.mem_range.2 inside), ?_⟩
    refine SortedMap.entries_foldl_insert .empty ?_
    exact List.pairwise_lt_range.map _ fun _ _ earlier => earlier

theorem session?_of_reconcile (h : p.reconcile previous seeding = .ok schedule) (t : Nat) :
    schedule.session? t = if t < p.sessionCount
      then some ((p.seating (wishes previous seeding) t).groups p) else none := by
  have entries := (reconcile_eq_ok h).2
  split
  · rename_i inside
    rw [Schedule.session?, ← SortedMap.mem_entries_iff, entries]
    exact List.mem_map.2 ⟨t, List.mem_range.2 inside, rfl⟩
  · rename_i outside
    rw [Option.eq_none_iff_forall_ne_some]
    intro groups found
    rw [Schedule.session?, ← SortedMap.mem_entries_iff, entries] at found
    obtain ⟨u, hu, same⟩ := List.mem_map.1 found
    have := List.mem_range.1 hu
    have : u = t := congrArg Prod.fst same
    omega

theorem peopleIn_of_reconcile (h : p.reconcile previous seeding = .ok schedule) (t : Nat)
    (group : String) : schedule.peopleIn t group = if t < p.sessionCount
      then (p.seating (wishes previous seeding) t).members p group else [] := by
  have lookup := session?_of_reconcile h t
  rw [Schedule.session?] at lookup
  rw [Schedule.peopleIn, SortedMap.listAt, lookup]
  split
  · rw [Option.bind_some, Seating.get?_groups, getD_occupied?]
  · rfl

theorem groupOf?_of_reconcile (h : p.reconcile previous seeding = .ok schedule) (t : Nat)
    (person : String) : schedule.groupOf? t person = if t < p.sessionCount
      then ((p.seating (wishes previous seeding) t).placed.get? person).map p.groupId
      else none := by
  rw [Schedule.groupOf?, session?_of_reconcile h t]
  split
  · rename_i inside
    rw [Option.bind_some]
    exact Seating.find?_groups (Seating.coherent_of_fill ((reconcile_eq_ok h).1 t inside)) person
  · rfl

end Problem

end Roster
