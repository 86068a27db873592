import Roster.Proofs.Gather
import Roster.Proofs.Lookup

/-! A schedule against the assignments it is built from. Each list of people holds those
assigned to its group and session, in the order of the assignments, and the group a person
is found in is the least of those they are assigned to. -/

namespace Roster

theorem SortedMap.map_fst_find?_eq_some {κ ν : Type} [LE κ] [LT κ] [Std.IsLinearOrder κ]
    [Std.LawfulOrderLT κ] {entries : List (κ × ν)} (ascending : entries.Pairwise (·.1 < ·.1))
    {passes : κ × ν → Bool} {k : κ} : (entries.find? passes).map Prod.fst = some k ↔
      (∃ v, (k, v) ∈ entries ∧ passes (k, v)) ∧ ∀ e ∈ entries, passes e → k ≤ e.1 := by
  induction entries with
  | nil => simp
  | cons e rest ih =>
    obtain ⟨later, ascendingRest⟩ := List.pairwise_cons.1 ascending
    rw [List.find?_cons]
    cases here : passes e with
    | true =>
      rw [Option.map_some, Option.some.injEq]
      constructor
      · intro same
        subst same
        refine ⟨⟨e.2, List.mem_cons_self, here⟩, fun d hd _ => ?_⟩
        cases List.mem_cons.1 hd with
        | inl self => rw [self]; exact Std.le_refl _
        | inr after => exact Std.le_of_lt (later d after)
      · intro least
        obtain ⟨⟨v, listed, -⟩, bound⟩ := least
        cases List.mem_cons.1 listed with
        | inl self => rw [← self]
        | inr after =>
          have below := later _ after
          exact absurd (bound e List.mem_cons_self here) (Std.not_le_of_gt below)
    | false =>
      rw [ih ascendingRest, List.forall_mem_cons]
      simp only [here, Bool.false_eq_true, false_imp_iff, true_and]
      refine and_congr_left fun _ => exists_congr fun v => ?_
      rw [List.mem_cons]
      constructor
      · exact fun h => ⟨.inr h.1, h.2⟩
      · intro h
        obtain ⟨self | after, passed⟩ := h
        · rw [self, here] at passed
          simp at passed
        · exact ⟨after, passed⟩

namespace Schedule

theorem mem_peopleIn {s : Schedule} {t : Nat} {group person : String} :
    person ∈ s.peopleIn t group ↔
      ∃ groups, s.session? t = some groups ∧ ∃ people, (group, people) ∈ groups.entries ∧
        person ∈ people := by
  simp only [peopleIn, SortedMap.listAt, session?, SortedMap.mem_entries_iff]
  cases s.sessions.get? t with
  | none => simp
  | some groups =>
    cases found : groups.get? group <;> simp [found]

theorem peopleIn_eq (s : Schedule) (t : Nat) (group : String) :
    s.peopleIn t group = (((s.session? t).getD .empty).get? group).getD [] := by
  rw [peopleIn, SortedMap.listAt, session?]
  cases s.sessions.get? t <;> rfl

theorem mem_peopleIn_iff_exists_entry {s : Schedule} {t : Nat} {group person : String} :
    person ∈ s.peopleIn t group ↔ ∃ people,
      (group, people) ∈ ((s.session? t).getD .empty).entries ∧ person ∈ people := by
  rw [mem_peopleIn]
  cases s.session? t with
  | none => simp [SortedMap.empty]
  | some groups => simp

theorem groupOf?_eq_some {s : Schedule} {t : Nat} {person group : String} :
    s.groupOf? t person = some group ↔ person ∈ s.peopleIn t group ∧
      ∀ other, person ∈ s.peopleIn t other → group ≤ other := by
  simp only [mem_peopleIn, groupOf?]
  cases s.session? t with
  | none => simp
  | some groups =>
    simp only [Option.bind_some, SortedMap.map_fst_find?_eq_some groups.ascending,
      Option.some.injEq, exists_eq_left', decide_eq_true_eq, Prod.forall]
    refine and_congr_right fun _ => forall_congr' fun other => ?_
    constructor
    · intro bound listed
      obtain ⟨people, entry, named⟩ := listed
      exact bound people entry named
    · intro bound people entry named
      exact bound ⟨people, entry, named⟩

theorem groupOf?_eq_none {s : Schedule} {t : Nat} {person : String} :
    s.groupOf? t person = none ↔ ∀ group, person ∉ s.peopleIn t group := by
  simp only [mem_peopleIn, groupOf?]
  cases s.session? t with
  | none => simp
  | some groups =>
    simp only [Option.bind_some, Option.map_eq_none_iff, List.find?_eq_none, Prod.forall,
      decide_eq_true_eq, Option.some.injEq, exists_eq_left', not_exists, not_and]

/-- No group of the session lists the person. -/
def Unseated (s : Schedule) (t : Nat) (person : String) : Prop :=
  ∀ group, person ∉ s.peopleIn t group

instance (s : Schedule) (t : Nat) (person : String) : Decidable (s.Unseated t person) :=
  decidable_of_iff (s.groupOf? t person = none) groupOf?_eq_none

/-- The person sits in one group of the session at most, however often they are listed there. -/
def Settled (s : Schedule) (t : Nat) (person : String) : Prop :=
  ∀ group other, person ∈ s.peopleIn t group → person ∈ s.peopleIn t other → group = other

theorem settled_iff {s : Schedule} {t : Nat} {person : String} : s.Settled t person ↔
    ∀ e ∈ ((s.session? t).getD .empty).entries, person ∈ e.2 →
      ∀ d ∈ ((s.session? t).getD .empty).entries, person ∈ d.2 → e.1 = d.1 := by
  simp only [Settled, mem_peopleIn_iff_exists_entry]
  constructor
  · exact fun one e entry here d entry' there =>
      one e.1 d.1 ⟨e.2, entry, here⟩ ⟨d.2, entry', there⟩
  · intro one group other here there
    obtain ⟨people, entry, named⟩ := here
    obtain ⟨others, entry', named'⟩ := there
    exact one _ entry named _ entry' named'

instance (s : Schedule) (t : Nat) (person : String) : Decidable (s.Settled t person) :=
  decidable_of_iff _ settled_iff.symm

theorem Settled.groupOf?_eq_some {s : Schedule} {t : Nat} {person group : String}
    (settled : s.Settled t person) :
    s.groupOf? t person = some group ↔ person ∈ s.peopleIn t group := by
  rw [Schedule.groupOf?_eq_some]
  refine and_iff_left_of_imp fun here other there => ?_
  exact Std.le_of_eq (settled group other here there)

theorem ofAssignments_eq_tabulate (l : List Assignment) : ofAssignments l =
    ⟨.tabulate (l.map fun a => ((a.session, a.group), a.person))⟩ := by
  have walk : ∀ m : SortedMap Nat SessionGroups,
      l.foldl (fun s a => s.place a.session a.group a.person) (⟨m⟩ : Schedule) =
        ⟨l.foldl (fun m a => m.pushAt a.session a.group a.person) m⟩ := by
    induction l with
    | nil => exact fun _ => rfl
    | cons a rest ih => exact fun m => ih _
  rw [SortedMap.tabulate, List.foldl_map]
  exact walk .empty

theorem peopleIn_ofAssignments (l : List Assignment) (t : Nat) (group : String) :
    (ofAssignments l).peopleIn t group =
      (l.filter fun a => a.session = t ∧ a.group = group).map (·.person) := by
  rw [ofAssignments_eq_tabulate, peopleIn, SortedMap.listAt_tabulate, SortedMap.valuesOf,
    List.filter_map, List.map_map]
  simp only [Function.comp_def, Prod.mk.injEq]

theorem mem_peopleIn_ofAssignments {l : List Assignment} {t : Nat} {group person : String} :
    person ∈ (ofAssignments l).peopleIn t group ↔ ⟨person, group, t⟩ ∈ l := by
  rw [peopleIn_ofAssignments, List.mem_map]
  constructor
  · intro h
    obtain ⟨a, ha, rfl⟩ := h
    obtain ⟨listed, rfl, rfl⟩ : a ∈ l ∧ a.session = t ∧ a.group = group := by
      simpa using List.mem_filter.1 ha
    exact listed
  · intro listed
    exact ⟨_, List.mem_filter.2 ⟨listed, by simp⟩, rfl⟩

theorem settled_ofAssignments {l : List Assignment}
    (one : ∀ a ∈ l, ∀ b ∈ l, a.session = b.session → a.person = b.person → a.group = b.group)
    (t : Nat) (person : String) : (ofAssignments l).Settled t person := by
  intro group other here there
  rw [mem_peopleIn_ofAssignments] at here there
  exact one _ here _ there rfl rfl

end Schedule

/-- The least group a person is assigned to in a session. -/
def LeastGroup (l : List Assignment) (session : Nat) (person group : String) : Prop :=
  ⟨person, group, session⟩ ∈ l ∧
    ∀ a ∈ l, a.session = session → a.person = person → group ≤ a.group

instance (l : List Assignment) (session : Nat) (person group : String) :
    Decidable (LeastGroup l session person group) :=
  inferInstanceAs (Decidable (_ ∧ ∀ a ∈ l, _))

namespace Schedule

variable {l : List Assignment} {t : Nat} {person group : String}

theorem groupOf?_ofAssignments_eq_some :
    (ofAssignments l).groupOf? t person = some group ↔ LeastGroup l t person group := by
  simp only [groupOf?_eq_some, mem_peopleIn_ofAssignments, LeastGroup]
  refine and_congr_right fun _ => ⟨?_, ?_⟩
  · intro bound a ha session named
    exact bound a.group (by rwa [← session, ← named])
  · intro bound other listed
    exact bound _ listed rfl rfl

theorem groupOf?_ofAssignments_eq_none :
    (ofAssignments l).groupOf? t person = none ↔ ∀ group, ⟨person, group, t⟩ ∉ l := by
  simp only [groupOf?_eq_none, mem_peopleIn_ofAssignments]

end Schedule

end Roster
