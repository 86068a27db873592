import Roster.Proofs.Rerun
import Roster.Proofs.Wishes

/-! Who keeps the group that an earlier result first names. Those who are bound to a seat come
before, and have theirs wherever it is. The others are heard in the order in which they are
first declared, and a group takes them back as long as it has room; whoever is not taken
back then finds the group full, so that later no one gets into it at all. -/

namespace Roster

namespace Seating

variable {p : Problem} {session : Nat} {s t : Seating} {wish : String → Option String}
  {people : List String} {id : String} {index : Nat}

theorem Grows.headcount_le (h : Grows p session s t) (index : Nat) :
    s.headcount index ≤ t.headcount index :=
  (h.order_prefix.sublist.map Prod.snd).count_le index

theorem Grows.spare_le (h : Grows p session s t) (records : s.Coherent p session) (index : Nat) :
    t.spare p index ≤ s.spare p index := by
  have more := h.headcount_le index
  rw [records.spare_eq, (h.coherent records).spare_eq]
  omega

theorem Grows.placed_of_full (h : Grows p session s t) (records : s.Coherent p session)
    (full : s.spare p index = 0) (seated : t.placed.get? id = some index) :
    s.placed.get? id = some index := by
  induction h with
  | refl => exact seated
  | put before _ _ room ih =>
    rw [get?_put] at seated
    split at seated
    · have less := before.spare_le records index
      rw [Option.some.inj seated] at room
      omega
    · exact ih seated

def hopeful (p : Problem) (wish : String → Option String) (s : Seating) (index : Nat)
    (people : List String) : Finset String :=
  people.toFinset.filter fun id =>
    s.placed.get? id = none ∧ (wish id).bind p.groupIndex? = some index

theorem mem_hopeful : id ∈ hopeful p wish s index people ↔
    id ∈ people ∧ s.placed.get? id = none ∧ (wish id).bind p.groupIndex? = some index := by
  rw [hopeful, Finset.mem_filter, List.mem_toFinset]

theorem keep_of_wish (fresh : s.placed.get? id = none)
    (wished : (wish id).bind p.groupIndex? = some index) :
    s.keep p wish id = if s.spare p index = 0 then s else s.put id index := by
  simp only [keep, fresh, wished]

theorem headcount_keep_eq (settled : (∃ i, s.placed.get? id = some i) ∨ s.spare p index = 0 ∨
      (wish id).bind p.groupIndex? ≠ some index) :
    (s.keep p wish id).headcount index = s.headcount index := by
  have ends := keep_ends p s id wish
  generalize s.keep p wish id = t at ends ⊢
  cases ends with
  | asBefore => rfl
  | @put i fresh wished room =>
    have other : index ≠ i := by
      rintro rfl
      simp [fresh, wished, Nat.ne_of_gt room] at settled
    rw [headcount_put, if_neg other, Nat.add_zero]

theorem mem_order_keep {e : String × Nat} (h : e ∈ (s.keep p wish id).order) :
    e ∈ s.order ∨ e.1 = id ∧ (wish id).bind p.groupIndex? = some e.2 := by
  have ends := keep_ends p s id wish
  generalize s.keep p wish id = t at ends h
  cases ends with
  | asBefore => exact .inl h
  | put _ wished =>
    cases List.mem_append.1 h with
    | inl old => exact .inl old
    | inr new =>
      rw [List.mem_singleton.1 new]
      exact .inr ⟨rfl, wished⟩

theorem mem_order_foldl_keep {e : String × Nat} (h : e ∈ (people.foldl (keep p wish) s).order) :
    e ∈ s.order ∨ e.1 ∈ people ∧ (wish e.1).bind p.groupIndex? = some e.2 := by
  induction people generalizing s with
  | nil => exact .inl h
  | cons a rest ih =>
    obtain before | ⟨later, wished⟩ := ih h
    · obtain old | ⟨rfl, wished⟩ := mem_order_keep before
      · exact .inl old
      · exact .inr ⟨List.mem_cons_self, wished⟩
    · exact .inr ⟨List.mem_cons_of_mem a later, wished⟩

section Walk

variable (records : s.Coherent p session) (active : ∀ a ∈ people, a ∈ p.activeIds session)

include records active

theorem fresh_foldl_keep (fresh : s.placed.get? id = none) (absent : id ∉ people) :
    (people.foldl (keep p wish) s).placed.get? id = none := by
  rw [Option.eq_none_iff_forall_ne_some]
  intro index seated
  have walked := (grows_foldl_keep wish active s).coherent records
  obtain old | ⟨listed, -⟩ := mem_order_foldl_keep ((walked.placed id index).1 seated)
  · rw [(records.placed id index).2 old] at fresh
    simp at fresh
  · exact absent listed

theorem placed_or_full (listed : id ∈ people)
    (wished : (wish id).bind p.groupIndex? = some index) :
    (∃ i, (people.foldl (keep p wish) s).placed.get? id = some i) ∨
      (people.foldl (keep p wish) s).spare p index = 0 := by
  obtain ⟨before, after, rfl⟩ := List.append_of_mem listed
  obtain ⟨activeBefore, activeRest⟩ := List.forall_mem_append.1 active
  obtain ⟨here, activeAfter⟩ := List.forall_mem_cons.1 activeRest
  rw [List.foldl_append, List.foldl_cons]
  generalize heard : before.foldl (keep p wish) s = u
  have walked : u.Coherent p session :=
    heard ▸ (grows_foldl_keep wish activeBefore s).coherent records
  have step : Grows p session u (u.keep p wish id) := grows_keep wish u here
  have rest := grows_foldl_keep wish activeAfter (u.keep p wish id)
  cases seated : u.placed.get? id with
  | some i => exact .inl ⟨i, (step.trans rest).placed seated⟩
  | none =>
    by_cases full : u.spare p index = 0
    · have less := (step.trans rest).spare_le walked index
      exact .inr (by omega)
    · refine .inl ⟨index, rest.placed ?_⟩
      rw [keep_of_wish seated wished, if_neg full, get?_put, if_pos rfl]

theorem headcount_foldl_keep : (people.foldl (keep p wish) s).headcount index =
    s.headcount index + min (s.spare p index) (hopeful p wish s index people).card := by
  induction people using List.reverseRecOn with
  | nil => simp [hopeful]
  | append_singleton rest id ih =>
    obtain ⟨activeRest, activeId⟩ := List.forall_mem_append.1 active
    have counted := ih activeRest
    have growth := grows_foldl_keep wish activeRest s
    rw [List.foldl_append, List.foldl_cons, List.foldl_nil]
    by_cases new : id ∉ rest ∧ s.placed.get? id = none ∧
        (wish id).bind p.groupIndex? = some index
    · obtain ⟨absent, fresh, wished⟩ := new
      have more : hopeful p wish s index (rest ++ [id]) =
          insert id (hopeful p wish s index rest) := by
        ext other
        simp only [Finset.mem_insert, mem_hopeful, List.mem_append, List.mem_singleton]
        grind
      have walked := growth.coherent records
      have spare := records.spare_eq index
      rw [more, Finset.card_insert_of_notMem (by simp [mem_hopeful, absent]),
        keep_of_wish (fresh_foldl_keep records activeRest fresh absent) wished]
      split
      · rename_i full
        rw [walked.spare_eq] at full
        omega
      · rename_i room
        rw [walked.spare_eq] at room
        rw [headcount_put, if_pos rfl]
        omega
    · have same : hopeful p wish s index (rest ++ [id]) = hopeful p wish s index rest := by
        ext other
        simp only [mem_hopeful, List.mem_append, List.mem_singleton]
        grind
      rw [same, ← counted]
      apply headcount_keep_eq
      by_cases wished : (wish id).bind p.groupIndex? = some index
      · cases before : s.placed.get? id with
        | some i => exact .inl ⟨i, growth.placed before⟩
        | none =>
          have again : id ∈ rest := by
            by_contra absent
            exact new ⟨absent, before, wished⟩
          exact (placed_or_full records activeRest again wished).imp_right .inl
      · exact .inr (.inr wished)

theorem card_hopeful_placed (growth : Grows p session (people.foldl (keep p wish) s) t) :
    ((hopeful p wish s index people).filter (t.placed.get? · = some index)).card =
      min (s.spare p index) (hopeful p wish s index people).card := by
  have walk := grows_foldl_keep wish active s
  have walked := walk.coherent records
  have split : (people.foldl (keep p wish) s).occupants index = s.occupants index ∪
      (hopeful p wish s index people).filter (t.placed.get? · = some index) := by
    ext id
    rw [Finset.mem_union, Finset.mem_filter, mem_occupants, mem_occupants, mem_hopeful]
    constructor
    · intro seated
      obtain old | ⟨listed, wished⟩ := mem_order_foldl_keep seated
      · exact .inl old
      · have now := (walked.placed id index).2 seated
        cases before : s.placed.get? id with
        | none => exact .inr ⟨⟨listed, rfl, wished⟩, growth.placed now⟩
        | some i =>
          have same := (walk.placed before).symm.trans now
          rw [Option.some.inj same] at before
          exact .inl ((records.placed id index).1 before)
    · intro kept
      rw [← records.placed, ← walked.placed] at *
      obtain old | ⟨⟨listed, -, wished⟩, seated⟩ := kept
      · exact walk.placed old
      · obtain ⟨i, now⟩ | full := placed_or_full records active listed wished
        · rw [growth.placed now] at seated
          rw [now, seated]
        · exact growth.placed_of_full walked full seated
  have apart : Disjoint (s.occupants index)
      ((hopeful p wish s index people).filter (t.placed.get? · = some index)) := by
    rw [Finset.disjoint_left]
    intro id seated kept
    rw [mem_occupants, ← records.placed] at seated
    rw [(mem_hopeful.1 (Finset.mem_of_mem_filter id kept)).2.1] at seated
    simp at seated
  have count := congrArg Finset.card split
  rw [Finset.card_union_of_disjoint apart, card_occupants walked, card_occupants records,
    headcount_foldl_keep records active] at count
  omega

end Walk

/-- Who is heard gets the group wished for exactly when there is room for one more besides those
heard before. -/
theorem placed_iff_lt_spare {before after : List String} (records : s.Coherent p session)
    (active : ∀ a ∈ before ++ id :: after, a ∈ p.activeIds session) (absent : id ∉ before)
    (fresh : s.placed.get? id = none) (wished : (wish id).bind p.groupIndex? = some index)
    (growth : Grows p session ((before ++ id :: after).foldl (keep p wish) s) t) :
    t.placed.get? id = some index ↔ (hopeful p wish s index before).card < s.spare p index := by
  obtain ⟨activeBefore, activeRest⟩ := List.forall_mem_append.1 active
  obtain ⟨-, activeAfter⟩ := List.forall_mem_cons.1 activeRest
  have counted : (before.foldl (keep p wish) s).headcount index = _ :=
    headcount_foldl_keep records activeBefore
  have still : (before.foldl (keep p wish) s).placed.get? id = none :=
    fresh_foldl_keep records activeBefore fresh absent
  have walked := (grows_foldl_keep wish activeBefore s).coherent records
  have room := walked.spare_eq index
  have roomBefore := records.spare_eq index
  rw [List.foldl_append, List.foldl_cons, keep_of_wish still wished] at growth
  have rest := (grows_foldl_keep wish activeAfter _).trans growth
  split at rest
  · rename_i full
    refine iff_of_false (fun seated => ?_) (by omega)
    rw [rest.placed_of_full walked full seated] at still
    simp at still
  · refine iff_of_true (rest.placed ?_) (by omega)
    rw [get?_put, if_pos rfl]

end Seating

theorem mem_before_iff {l before after : List String} {a b : String}
    (split : l = before ++ a :: after) (absent : a ∉ before) (hb : b ∈ l) :
    b ∈ before ↔ l.idxOf b < l.idxOf a := by
  have place : l.idxOf a = before.length := by
    rw [split, List.idxOf_append_of_notMem absent, List.idxOf_cons_self, Nat.add_zero]
  have start : l.take before.length = before := by rw [split, List.take_left]
  rw [place, ← List.mem_take_iff_idxOf_lt hb, start]

namespace Problem

variable {p : Problem} {previous : List Assignment} {schedule : Schedule} {session : Nat}

/-- The active people who are not bound and whom the earlier result first names in this group. -/
def wishers (p : Problem) (previous : List Assignment) (session : Nat) (group : String) :
    Finset String :=
  (p.activeIds session).toFinset.filter fun id =>
    ¬ p.Bound session id ∧ earlierGroup? previous session id = some group

def wishersBefore (p : Problem) (previous : List Assignment) (session : Nat) (group id : String) :
    Finset String :=
  (p.wishers previous session group).filter fun other =>
    (p.activeIds session).idxOf other < (p.activeIds session).idxOf id

def boundIn (p : Problem) (schedule : Schedule) (session : Nat) (group : String) :
    Finset String :=
  (schedule.peopleIn session group).toFinset.filter (p.Bound session ·)

theorem bind_groupIndex?_eq_some (distinct : (p.groups.map (·.id)).Nodup) {index : Nat}
    (declared : index < p.groups.length) {wished : Option String} :
    wished.bind p.groupIndex? = some index ↔ wished = some (p.groupId index) := by
  rw [Option.bind_eq_some_iff]
  constructor
  · intro h
    obtain ⟨group, rfl, there⟩ := h
    rw [groupId_of_groupIndex? there]
  · intro h
    exact ⟨_, h, groupIndex?_groupId distinct declared⟩

theorem mem_peopleIn_iff (distinct : (p.groups.map (·.id)).Nodup) {seeding : Bool}
    (h : p.reconcile previous seeding = .ok schedule) (inside : session < p.sessionCount)
    {index : Nat} (declared : index < p.groups.length) {id : String} :
    id ∈ schedule.peopleIn session (p.groupId index) ↔
      (p.seating (wishes previous seeding) session).placed.get? id = some index := by
  have records := Seating.coherent_of_fill ((reconcile_eq_ok h).1 session inside)
  rw [peopleIn_of_reconcile h, if_pos inside, Seating.mem_members]
  constructor
  · intro listed
    obtain ⟨i, seated, same⟩ := listed
    have first := groupIndex?_groupId distinct (records.index_lt seated)
    rw [same, groupIndex?_groupId distinct declared] at first
    rw [Option.some.inj first]
    exact (records.placed id i).2 seated
  · intro seated
    exact ⟨index, (records.placed id index).1 seated, rfl⟩

end Problem

namespace Seating

variable {p : Problem} {session : Nat} {a b : Seating} {id : String}

theorem fresh_iff_not_bound (pinned : placePinned p session (empty p) = .done a)
    (grouped : placeCliques p session a = .done b) :
    b.placed.get? id = none ↔ ¬ p.Bound session id := by
  constructor
  · intro fresh bound
    obtain ⟨index, seated⟩ := exists_placed_of_bound pinned grouped bound
    rw [seated] at fresh
    simp at fresh
  · intro free
    rw [Option.eq_none_iff_forall_ne_some]
    intro index seated
    have listed := ((coherent_of_placeCliques pinned grouped).placed id index).1 seated
    rw [← Attempt.seating_done b, ← grouped] at listed
    obtain old | member := mem_order_each_placeClique listed
    · obtain ⟨group, pin, -⟩ := (mem_order_of_placePinned pinned).1 old
      exact free (.inl (List.mem_map.2 ⟨_, pin, rfl⟩))
    · exact free (.inr member)

theorem mem_hopeful_iff (pinned : placePinned p session (empty p) = .done a)
    (grouped : placeCliques p session a = .done b) (distinct : (p.groups.map (·.id)).Nodup)
    {index : Nat} (declared : index < p.groups.length) {wish : String → Option String}
    {people : List String} : id ∈ hopeful p wish b index people ↔
      id ∈ people ∧ ¬ p.Bound session id ∧ wish id = some (p.groupId index) := by
  rw [mem_hopeful, fresh_iff_not_bound pinned grouped,
    Problem.bind_groupIndex?_eq_some distinct declared]

end Seating

section Heard

variable {p : Problem} {previous : List Assignment} {session index : Nat} {a b : Seating}
  (distinct : (p.groups.map (·.id)).Nodup) (declared : index < p.groups.length)
  (pinned : Seating.placePinned p session (.empty p) = .done a)
  (grouped : Seating.placeCliques p session a = .done b)

include distinct declared pinned grouped

theorem wishers_eq_hopeful : p.wishers previous session (p.groupId index) =
    Seating.hopeful p (earlierGroup? previous session) b index (p.activeIds session) := by
  ext id
  rw [Problem.wishers, Finset.mem_filter, List.mem_toFinset,
    Seating.mem_hopeful_iff pinned grouped distinct declared]

theorem wishersBefore_eq_hopeful {id : String} {before after : List String}
    (split : p.activeIds session = before ++ id :: after) (absent : id ∉ before) :
    p.wishersBefore previous session (p.groupId index) id =
      Seating.hopeful p (earlierGroup? previous session) b index before := by
  ext other
  rw [Problem.wishersBefore, Finset.mem_filter,
    wishers_eq_hopeful distinct declared pinned grouped,
    Seating.mem_hopeful_iff pinned grouped distinct declared,
    Seating.mem_hopeful_iff pinned grouped distinct declared, and_right_comm]
  refine and_congr_left fun _ => ?_
  constructor
  · intro listed
    exact (mem_before_iff split absent listed.1).2 listed.2
  · intro listed
    have active : other ∈ p.activeIds session := by simp [split, listed]
    exact ⟨active, (mem_before_iff split absent active).1 listed⟩

theorem boundIn_eq_occupants {seeding : Bool} {schedule : Schedule}
    (h : p.reconcile previous seeding = .ok schedule) (inside : session < p.sessionCount)
    (growth : Seating.Grows p session b (p.seating (wishes previous seeding) session)) :
    p.boundIn schedule session (p.groupId index) = b.occupants index := by
  have records := Seating.coherent_of_placeCliques pinned grouped
  ext id
  rw [Problem.boundIn, Finset.mem_filter, List.mem_toFinset,
    Problem.mem_peopleIn_iff distinct h inside declared, Seating.mem_occupants, ← records.placed]
  constructor
  · intro listed
    obtain ⟨seated, bound⟩ := listed
    obtain ⟨i, before⟩ := Seating.exists_placed_of_bound pinned grouped bound
    rwa [← growth.placed before, seated] at before
  · intro seated
    refine ⟨growth.placed seated, ?_⟩
    by_contra free
    rw [(Seating.fresh_iff_not_bound pinned grouped).2 free] at seated
    simp at seated

end Heard

/-- Of those whom an earlier result first names in a group, the group keeps as many as it has room
for besides the people bound to it, and those who are declared first. -/
theorem keepsGroup_of_reconcile {p : Problem} (distinct : (p.groups.map (·.id)).Nodup)
    {previous : List Assignment} {schedule : Schedule}
    (h : p.reconcile previous = .ok schedule) {session : Nat} (inside : session < p.sessionCount)
    {group : Group} (declared : group ∈ p.groups) :
    (∀ id ∈ p.wishers previous session group.id,
      id ∈ schedule.peopleIn session group.id ↔
        (p.boundIn schedule session group.id).card +
          (p.wishersBefore previous session group.id id).card < group.size) ∧
    ((p.wishers previous session group.id).filter
        (· ∈ schedule.peopleIn session group.id)).card =
      min (group.size - (p.boundIn schedule session group.id).card)
        (p.wishers previous session group.id).card := by
  obtain ⟨index, here, rfl⟩ := List.getElem_of_mem declared
  rw [← Problem.groupId_of_lt here, ← Problem.groupSize_of_lt here]
  obtain ⟨a, b, pinned, grouped, rest⟩ :=
    Seating.fill_eq_done.1 ((Problem.reconcile_eq_ok h).1 session inside)
  have records := Seating.coherent_of_placeCliques pinned grouped
  have seeded : Seating.Grows p session
      ((p.activeIds session).foldl (Seating.keep p (earlierGroup? previous session)) b)
      (p.seating (wishes previous true) session) := Seating.grows_of_placeRemaining rest
  have growth := (Seating.grows_placeSeeded (earlierGroup? previous session) b).trans seeded
  have held := Seating.card_occupants records index
  rw [← boundIn_eq_occupants distinct here pinned grouped h inside growth] at held
  have room := records.spare_eq index
  have seats : ∀ id, id ∈ schedule.peopleIn session (p.groupId index) ↔
      (p.seating (wishes previous true) session).placed.get? id = some index :=
    fun _ => Problem.mem_peopleIn_iff distinct h inside here
  constructor
  · intro id wisher
    rw [wishers_eq_hopeful distinct here pinned grouped, Seating.mem_hopeful] at wisher
    obtain ⟨active, fresh, wished⟩ := wisher
    obtain ⟨before, after, split, absent⟩ := List.eq_append_cons_of_mem active
    rw [split] at seeded
    rw [seats, Seating.placed_iff_lt_spare records (fun a ha => split ▸ ha) absent fresh wished
      seeded, wishersBefore_eq_hopeful distinct here pinned grouped split absent]
    omega
  · simp only [seats]
    rw [wishers_eq_hopeful distinct here pinned grouped,
      Seating.card_hopeful_placed records (fun _ active => active) seeded]
    omega

def cloakroom : Problem where
  people := [⟨"a", .empty, none⟩, ⟨"b", .empty, none⟩, ⟨"c", .empty, none⟩, ⟨"b", .empty, none⟩,
    ⟨"d", .empty, none⟩]
  groups := [⟨"x", 2⟩, ⟨"y", 3⟩]
  sessionCount := 1
  constraints := [.rule (.immovablePerson "a" "x")]

def cloakroomBefore : List Assignment :=
  [⟨"c", "x", 0⟩, ⟨"b", "x", 0⟩, ⟨"b", "y", 0⟩, ⟨"a", "y", 0⟩]

def cloakroomAfter : Schedule :=
  .ofAssignments [⟨"a", "x", 0⟩, ⟨"b", "x", 0⟩, ⟨"c", "y", 0⟩, ⟨"d", "y", 0⟩]

theorem keepsGroup_cloakroom :
    (cloakroom.groups.map (·.id)).Nodup ∧ cloakroom.reconcile cloakroomBefore = .ok cloakroomAfter ∧
      ("b" ∈ cloakroomAfter.peopleIn 0 "x" ↔ 1 + 0 < 2) ∧
      ("c" ∈ cloakroomAfter.peopleIn 0 "x" ↔ 1 + 1 < 2) ∧
      ((cloakroom.wishers cloakroomBefore 0 "x").filter (· ∈ cloakroomAfter.peopleIn 0 "x")).card =
        min (2 - 1) 2 := by
  have distinct : (cloakroom.groups.map (·.id)).Nodup := by decide
  have filled : cloakroom.reconcile cloakroomBefore = .ok cloakroomAfter := by decide +kernel
  have declared : (⟨"x", 2⟩ : Group) ∈ cloakroom.groups := by decide
  have inside : 0 < cloakroom.sessionCount := by decide
  have bound : (cloakroom.boundIn cloakroomAfter 0 "x").card = 1 := by decide +kernel
  have first : (cloakroom.wishersBefore cloakroomBefore 0 "x" "b").card = 0 := by decide +kernel
  have second : (cloakroom.wishersBefore cloakroomBefore 0 "x" "c").card = 1 := by decide +kernel
  have wishers : (cloakroom.wishers cloakroomBefore 0 "x").card = 2 := by decide +kernel
  obtain ⟨each, all⟩ := keepsGroup_of_reconcile distinct filled inside declared
  rw [bound, wishers] at all
  have keeps := each "b" (by decide +kernel)
  have leaves := each "c" (by decide +kernel)
  rw [bound, first] at keeps
  rw [bound, second] at leaves
  exact ⟨distinct, filled, keeps, leaves, all⟩

end Roster
