import Roster.Proofs.Flatten
import Roster.Proofs.Placement

/-! A schedule taken apart into assignments and put together again. Assignments come back in the
order of sessions and groups, those of one group in the order they had; a schedule comes back
without what is empty in it. So every lookup in a schedule that was built can be read off the
assignments. -/

namespace Roster

section Sorting

variable {α : Type} {le : α → α → Bool}

theorem filter_mergeSort (trans : ∀ a b c, le a b → le b c → le a c)
    (total : ∀ a b, le a b || le b a) {keep : α → Bool}
    (alike : ∀ a b, keep a → keep b → le a b) (l : List α) :
    (l.mergeSort le).filter keep = l.filter keep := by
  have ordered : (l.filter keep).Pairwise (le · ·) :=
    List.pairwise_of_forall_mem_list fun a ha b hb =>
      alike a b (List.of_mem_filter ha) (List.of_mem_filter hb)
  have kept := (List.sublist_mergeSort trans total ordered List.filter_sublist).filter keep
  rw [List.filter_filter] at kept
  simp only [Bool.and_self] at kept
  exact (kept.eq_of_length ((List.mergeSort_perm l le).filter keep).length_eq.symm).symm

variable {κ : Type} [DecidableEq κ] {key : α → κ} {l m : List α}

theorem mem_iff_of_filter_eq (same : ∀ k, l.filter (key · = k) = m.filter (key · = k)) (a : α) :
    a ∈ l ↔ a ∈ m := by
  have here : a ∈ l.filter (key · = key a) ↔ a ∈ m.filter (key · = key a) := by rw [same]
  simpa using here

/-- Two ordered lists are the same when they hold the same under every key and only entries with
one key may stand either way around. -/
theorem eq_of_pairwise_of_filter_eq (antisymm : ∀ a b, le a b → le b a → key a = key b)
    (first : l.Pairwise (le · ·)) (second : m.Pairwise (le · ·))
    (same : ∀ k, l.filter (key · = k) = m.filter (key · = k)) : l = m := by
  induction l generalizing m with
  | nil =>
    refine (List.eq_nil_iff_forall_not_mem.2 fun a ha => ?_).symm
    simpa using (mem_iff_of_filter_eq same a).2 ha
  | cons a rest ih =>
    cases m with
    | nil => simpa using (mem_iff_of_filter_eq same a).1 (by simp)
    | cons b others =>
      obtain ⟨afterFirst, firstRest⟩ := List.pairwise_cons.1 first
      obtain ⟨afterSecond, secondRest⟩ := List.pairwise_cons.1 second
      have alike : key a = key b := by
        cases List.mem_cons.1 ((mem_iff_of_filter_eq same b).2 (by simp)) with
        | inl self => rw [self]
        | inr later =>
          cases List.mem_cons.1 ((mem_iff_of_filter_eq same a).1 (by simp)) with
          | inl self => rw [self]
          | inr earlier => exact antisymm a b (afterFirst b later) (afterSecond a earlier)
      have heads := same (key a)
      rw [List.filter_cons_of_pos (by simp), List.filter_cons_of_pos (by simp [alike])] at heads
      obtain rfl : a = b := (List.cons.inj heads).1
      have tails : ∀ k, rest.filter (key · = k) = others.filter (key · = k) := fun k => by
        have whole := same k
        simp only [List.filter_cons] at whole
        split at whole
        · exact (List.cons.inj whole).2
        · exact whole
      rw [ih firstRest secondRest tails]

end Sorting

def Assignment.notAfter (a b : Assignment) : Bool :=
  a.session < b.session ∨ a.session = b.session ∧ a.group ≤ b.group

namespace Assignment

theorem notAfter_iff {a b : Assignment} : a.notAfter b ↔
    a.session < b.session ∨ a.session = b.session ∧ a.group ≤ b.group :=
  decide_eq_true_iff

theorem notAfter_trans (a b c : Assignment) (first : a.notAfter b) (second : b.notAfter c) :
    a.notAfter c := by
  rw [notAfter_iff] at first second ⊢
  obtain earlier | ⟨same, group⟩ := first
  · obtain later | ⟨same', -⟩ := second
    · exact .inl (Nat.lt_trans earlier later)
    · exact .inl (same' ▸ earlier)
  · obtain later | ⟨same', group'⟩ := second
    · exact .inl (same ▸ later)
    · exact .inr ⟨same.trans same', Std.le_trans group group'⟩

theorem notAfter_total (a b : Assignment) : a.notAfter b || b.notAfter a := by
  rw [Bool.or_eq_true, notAfter_iff, notAfter_iff]
  obtain earlier | same | later := Nat.lt_trichotomy a.session b.session
  · exact .inl (.inl earlier)
  · obtain group | group := Std.le_total (a := a.group) (b := b.group)
    · exact .inl (.inr ⟨same, group⟩)
    · exact .inr (.inr ⟨same.symm, group⟩)
  · exact .inr (.inl later)

theorem notAfter_antisymm (a b : Assignment) (first : a.notAfter b) (second : b.notAfter a) :
    (a.session, a.group) = (b.session, b.group) := by
  rw [notAfter_iff] at first second
  obtain earlier | ⟨same, group⟩ := first
  · omega
  · obtain later | ⟨-, group'⟩ := second
    · omega
    · rw [same, Std.le_antisymm group group']

theorem notAfter_of_eq {a b : Assignment} (same : (a.session, a.group) = (b.session, b.group)) :
    a.notAfter b := by
  obtain ⟨session, group⟩ := Prod.mk.inj same
  exact notAfter_iff.2 (.inr ⟨session, Std.le_of_eq group⟩)

end Assignment

namespace Schedule

variable {l : List Assignment} {s : Schedule} {t : Nat}

theorem filter_eq_map (l : List Assignment) (t : Nat) (group : String) :
    (l.filter fun a => (a.session, a.group) = (t, group)) =
      ((ofAssignments l).peopleIn t group).map fun person => ⟨person, group, t⟩ := by
  rw [peopleIn_ofAssignments, List.map_map]
  simp only [Prod.mk.injEq]
  refine (List.map_id _).symm.trans (List.map_congr_left fun a ha => ?_)
  obtain ⟨-, rfl, rfl⟩ : a ∈ l ∧ a.session = t ∧ a.group = group := by
    simpa using List.mem_filter.1 ha
  rfl

theorem filter_toAssignments_ofAssignments (l : List Assignment) (k : Nat × String) :
    ((ofAssignments l).toAssignments.filter fun a => (a.session, a.group) = k) =
      l.filter fun a => (a.session, a.group) = k := by
  rw [filter_eq_map, filter_eq_map, peopleIn_ofAssignments_toAssignments]

theorem pairwise_toAssignments (s : Schedule) :
    s.toAssignments.Pairwise (·.notAfter ·) := by
  rw [toAssignments, List.pairwise_flatMap]
  constructor
  · intro e _
    rw [List.pairwise_flatMap]
    constructor
    · intro g _
      exact List.pairwise_map.2 (List.pairwise_of_forall fun _ _ => Assignment.notAfter_of_eq rfl)
    · refine e.2.ascending.imp fun earlier a ha b hb => ?_
      obtain ⟨_, _, rfl⟩ := List.mem_map.1 ha
      obtain ⟨_, _, rfl⟩ := List.mem_map.1 hb
      exact Assignment.notAfter_iff.2 (.inr ⟨rfl, Std.le_of_lt earlier⟩)
  · refine s.sessions.ascending.imp fun earlier a ha b hb => ?_
    simp only [List.mem_flatMap, List.mem_map] at ha hb
    obtain ⟨_, _, _, _, rfl⟩ := ha
    obtain ⟨_, _, _, _, rfl⟩ := hb
    exact Assignment.notAfter_iff.2 (.inl earlier)

theorem toAssignments_ofAssignments_eq (l : List Assignment) :
    (ofAssignments l).toAssignments = l.mergeSort Assignment.notAfter := by
  refine eq_of_pairwise_of_filter_eq Assignment.notAfter_antisymm (pairwise_toAssignments _)
    (List.pairwise_mergeSort Assignment.notAfter_trans Assignment.notAfter_total l) fun k => ?_
  rw [filter_toAssignments_ofAssignments, filter_mergeSort Assignment.notAfter_trans
    Assignment.notAfter_total fun a b here there => Assignment.notAfter_of_eq ?_]
  rw [of_decide_eq_true here, of_decide_eq_true there]

/-- No session is without groups, and no group without people. -/
def Full (s : Schedule) : Prop :=
  ∀ e ∈ s.sessions.entries, e.2.entries ≠ [] ∧ ∀ g ∈ e.2.entries, g.2 ≠ []

instance (s : Schedule) : Decidable s.Full :=
  inferInstanceAs (Decidable (∀ e ∈ s.sessions.entries, _))

theorem full_pruned (s : Schedule) : s.pruned.Full := by
  intro e he
  obtain ⟨kept, occupied⟩ := List.mem_filter.1 he
  obtain ⟨d, -, rfl⟩ := List.mem_map.1 kept
  refine ⟨by simpa using occupied, fun g hg => ?_⟩
  simpa using (List.mem_filter.1 hg).2

theorem pruned_eq_self_iff : s.pruned = s ↔ s.Full := by
  constructor
  · exact fun same => same ▸ s.full_pruned
  · intro full
    have sessions : s.pruned.sessions = s.sessions := by
      rw [pruned, SortedMap.mapValues_eq_self, SortedMap.filterValues_eq_self]
      · intro e he
        simpa using (full e he).1
      · intro e he
        refine SortedMap.filterValues_eq_self fun g hg => ?_
        simpa using (full e he).2 g hg
    exact congrArg Schedule.mk sessions

theorem full_ofAssignments (l : List Assignment) : (ofAssignments l).Full := by
  intro e he
  rw [ofAssignments_eq_tabulate, SortedMap.mem_entries_iff, SortedMap.get?_tabulate,
    Option.map_eq_some_iff] at he
  obtain ⟨row, given, gathered⟩ := he
  obtain ⟨-, occupied⟩ := occupied?_eq_some.1 given
  rw [← gathered]
  constructor
  · intro nothing
    refine occupied (SortedMap.eq_nil_iff_valuesOf.2 fun group => ?_)
    have found := SortedMap.get?_gather row group
    rw [SortedMap.get?, nothing] at found
    rw [← getD_occupied? (SortedMap.valuesOf row group), ← found]
    rfl
  · intro g hg
    rw [SortedMap.mem_entries_iff, SortedMap.get?_gather, occupied?_eq_some] at hg
    exact hg.2

theorem ofAssignments_toAssignments_eq (s : Schedule) :
    ofAssignments s.toAssignments = s.pruned := by
  rw [← pruned_eq_self_iff.2 (full_ofAssignments s.toAssignments)]
  exact pruned_congr s.peopleIn_ofAssignments_toAssignments

theorem isSome_session?_ofAssignments :
    ((ofAssignments l).session? t).isSome ↔ ∃ a ∈ l, a.session = t := by
  have attended : SortedMap.rowOf (l.map fun a => ((a.session, a.group), a.person)) t ≠ [] ↔
      ∃ a ∈ l, a.session = t := by
    simp [SortedMap.rowOf, List.filter_map]
  rw [ofAssignments_eq_tabulate, session?, SortedMap.get?_tabulate, Option.isSome_map, ← attended]
  cases SortedMap.rowOf (l.map fun a => ((a.session, a.group), a.person)) t <;> simp [occupied?]

theorem perm_toAssignments_ofAssignments (l : List Assignment) :
    (ofAssignments l).toAssignments.Perm l := by
  rw [toAssignments_ofAssignments_eq]
  exact List.mergeSort_perm l _

end Schedule

theorem Seating.groups_ne_nil_iff {p : Problem} {session : Nat} {wish : String → Option String}
    {s : Seating} (filled : fill p session wish = .done s) :
    (s.groups p).entries ≠ [] ↔ ∃ person ∈ p.people, person.ActiveIn session := by
  constructor
  · intro occupied
    obtain ⟨g, hg⟩ := List.exists_mem_of_ne_nil _ occupied
    obtain ⟨listed, someone⟩ := mem_entries_groups.1 hg
    obtain ⟨id, hid⟩ := List.exists_mem_of_ne_nil _ someone
    rw [listed] at hid
    obtain ⟨index, seated, -⟩ := mem_members.1 hid
    obtain ⟨person, declared, -, active⟩ :=
      mem_activeIds.1 ((coherent_of_fill filled).active _ seated)
    exact ⟨person, declared, active⟩
  · intro someone nobody
    obtain ⟨person, declared, active⟩ := someone
    have seated := (mem_seated_iff filled).2 (mem_activeIds.2 ⟨person, declared, rfl, active⟩)
    rw [← (flatMap_groups_perm p s).mem_iff, nobody] at seated
    simp at seated

theorem Problem.full_iff_of_reconcile {p : Problem} {previous : List Assignment} {seeding : Bool}
    {s : Schedule} (h : p.reconcile previous seeding = .ok s) :
    s.Full ↔ ∀ t < p.sessionCount, ∃ person ∈ p.people, person.ActiveIn t := by
  obtain ⟨filled, entries⟩ := reconcile_eq_ok h
  rw [Schedule.Full, entries, List.forall_mem_map]
  simp only [List.mem_range]
  refine forall₂_congr fun t inside => (and_iff_left ?_).trans
    (Seating.groups_ne_nil_iff (filled t inside))
  exact fun g hg => (Seating.mem_entries_groups.1 hg).2

/-- A list made a schedule comes back as its stable sort by session and group: nothing is lost or
doubled, and under each group nothing changes places. A schedule written out comes back without
what is empty in it, which is all of it only when it is full; and one from a reconciliation is full
exactly when each session has someone to place. -/
theorem toAssignments_ofAssignments (l : List Assignment) (s : Schedule) :
    ((Schedule.ofAssignments l).toAssignments = l.mergeSort Assignment.notAfter ∧
      (Schedule.ofAssignments l).toAssignments.Perm l ∧
      ∀ t group, ((Schedule.ofAssignments l).toAssignments.filter fun a =>
        (a.session, a.group) = (t, group)) = l.filter fun a => (a.session, a.group) = (t, group)) ∧
    Schedule.ofAssignments s.toAssignments = s.pruned ∧
    (Schedule.ofAssignments s.toAssignments = s ↔ s.Full) ∧
    ∀ (p : Problem) (previous : List Assignment) (seeding : Bool),
      p.reconcile previous seeding = .ok s → (Schedule.ofAssignments s.toAssignments = s ↔
        ∀ t < p.sessionCount, ∃ person ∈ p.people, person.ActiveIn t) := by
  have full : Schedule.ofAssignments s.toAssignments = s ↔ s.Full := by
    rw [Schedule.ofAssignments_toAssignments_eq, Schedule.pruned_eq_self_iff]
  refine ⟨⟨Schedule.toAssignments_ofAssignments_eq l, Schedule.perm_toAssignments_ofAssignments l,
    fun t group => Schedule.filter_toAssignments_ofAssignments l (t, group)⟩,
    Schedule.ofAssignments_toAssignments_eq s, full, fun p previous seeding h => ?_⟩
  exact full.trans (Problem.full_iff_of_reconcile h)

def recess : Problem where
  people := [⟨"b", .empty, some (.ofList [0, 2])⟩, ⟨"a", .empty, some (.ofList [0])⟩]
  groups := [⟨"y", 1⟩, ⟨"x", 1⟩]
  sessionCount := 3

def recessSeats : Schedule :=
  .ofAssignments [⟨"b", "y", 0⟩, ⟨"a", "x", 0⟩, ⟨"b", "y", 2⟩]

theorem toAssignments_ofAssignments_recess :
    recess.reconcile [] = .ok (recessSeats.touch 1) ∧
      Schedule.ofAssignments (recessSeats.touch 1).toAssignments ≠ recessSeats.touch 1 ∧
    ∃ s, { recess with sessionCount := 1 }.reconcile [] = .ok s ∧
      Schedule.ofAssignments s.toAssignments = s := by
  have filled : recess.reconcile [] = .ok (recessSeats.touch 1) := by decide +kernel
  have short : { recess with sessionCount := 1 }.reconcile [] =
      .ok (.ofAssignments [⟨"a", "x", 0⟩, ⟨"b", "y", 0⟩]) := by decide +kernel
  refine ⟨filled, fun same => ?_, _, short, ?_⟩
  · have attended := ((toAssignments_ofAssignments [] _).2.2.2 recess [] true filled).1 same
    exact absurd (attended 1 (by decide)) (by decide)
  · exact ((toAssignments_ofAssignments [] _).2.2.2 _ [] true short).2 (by decide)

/-- What a schedule is asked agrees with the assignments it was built from: who is in a group and
how many, the least group of a person, whether a session is there, how many placements there are.
Whatever the schedule, the table of placements gives the group the schedule gives. -/
theorem lookups_ofAssignments (l : List Assignment) (t : Nat) (group person : String) (p : Problem)
    (s : Schedule) :
    (Schedule.ofAssignments l).peopleIn t group =
      (l.filter fun a => a.session = t ∧ a.group = group).map (·.person) ∧
    (Schedule.ofAssignments l).occupancy t group =
      (l.filter fun a => a.session = t ∧ a.group = group).length ∧
    ((Schedule.ofAssignments l).groupOf? t person = some group ↔ LeastGroup l t person group) ∧
    ((Schedule.ofAssignments l).groupOf? t person = none ↔ ∀ other, ⟨person, other, t⟩ ∉ l) ∧
    (((Schedule.ofAssignments l).session? t).isSome ↔ ∃ a ∈ l, a.session = t) ∧
    (Schedule.ofAssignments l).assignmentCount = l.length ∧
    (View.of p s).groupOf? t person = s.groupOf? t person := by
  have people := Schedule.peopleIn_ofAssignments l t group
  refine ⟨people, ?_, Schedule.groupOf?_ofAssignments_eq_some,
    Schedule.groupOf?_ofAssignments_eq_none, ?_, ?_, View.groupOf?_of p s t person⟩
  · rw [Schedule.occupancy, people, List.length_map]
  · exact Schedule.isSome_session?_ofAssignments
  · rw [← Schedule.length_toAssignments, (Schedule.perm_toAssignments_ofAssignments l).length_eq]

end Roster
