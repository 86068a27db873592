import Roster.Proofs.Defects
import Roster.Proofs.SameSession

/-! What an earlier result is asked for: where it first names those people who are not bound to
a seat before, and only if the group is still declared. Two earlier results that agree in
this are worth the same, seat by seat and in the order of the seats. -/

namespace Roster

namespace Problem

variable {p : Problem} {session : Nat}

def Bound (p : Problem) (session : Nat) (id : String) : Prop :=
  id ∈ (p.pins session).map Prod.fst ∨
    ∃ clique ∈ p.cliques session (p.activeIds session), id ∈ clique

instance (p : Problem) (session : Nat) (id : String) : Decidable (p.Bound session id) :=
  inferInstanceAs (Decidable (_ ∨ ∃ clique ∈ p.cliques session (p.activeIds session), id ∈ clique))

def wish? (p : Problem) (previous : List Assignment) (session : Nat) (id : String) :
    Option String :=
  (earlierGroup? previous session id).filter p.declaresGroup

theorem bind_groupIndex?_filter (p : Problem) (wished : Option String) :
    (wished.filter p.declaresGroup).bind p.groupIndex? = wished.bind p.groupIndex? := by
  cases wished with
  | none => rfl
  | some group =>
    rw [Option.filter_some]
    split
    · rfl
    · rename_i gone
      rw [Option.bind_none, Option.bind_some, groupIndex?_eq_none.2 gone]

end Problem

namespace Seating

variable {p : Problem} {session : Nat} {s a b : Seating} {wish wish' : String → Option String}

theorem exists_placed_of_bound (pinned : placePinned p session (empty p) = .done a)
    (grouped : placeCliques p session a = .done b) {id : String} (bound : p.Bound session id) :
    ∃ index, b.placed.get? id = some index := by
  obtain pin | ⟨clique, hc, member⟩ := bound
  · obtain ⟨e, he, rfl⟩ := List.mem_map.1 pin
    obtain ⟨index, -, seated⟩ := sitsIn_of_placePinned pinned he
    exact ⟨index, (grows_of_placeCliques grouped).placed seated⟩
  · obtain ⟨index, together⟩ := together_of_placeCliques grouped hc
    exact ⟨index, together id member⟩

theorem keep_congr {id : String} (same : (∃ index, s.placed.get? id = some index) ∨
      (wish id).bind p.groupIndex? = (wish' id).bind p.groupIndex?) :
    s.keep p wish id = s.keep p wish' id := by
  cases same with
  | inl seated =>
    obtain ⟨index, here⟩ := seated
    simp [keep, here]
  | inr agree => rw [keep, keep, agree]

theorem foldl_keep_congr {people : List String} (active : ∀ id ∈ people, id ∈ p.activeIds session)
    (same : ∀ id ∈ people, (∃ index, s.placed.get? id = some index) ∨
      (wish id).bind p.groupIndex? = (wish' id).bind p.groupIndex?) :
    people.foldl (keep p wish) s = people.foldl (keep p wish') s := by
  induction people generalizing s with
  | nil => rfl
  | cons id rest ih =>
    obtain ⟨here, others⟩ := List.forall_mem_cons.1 active
    obtain ⟨first, later⟩ := List.forall_mem_cons.1 same
    have growth : Grows p session s (s.keep p wish' id) := grows_keep wish' s here
    rw [List.foldl_cons, List.foldl_cons, keep_congr first]
    refine ih others fun other ho => (later other ho).imp_left fun seated => ?_
    obtain ⟨index, there⟩ := seated
    exact ⟨index, growth.placed there⟩

theorem fill_congr_wish (same : ∀ id ∈ p.activeIds session, ¬ p.Bound session id →
      (wish id).bind p.groupIndex? = (wish' id).bind p.groupIndex?) :
    fill p session wish = fill p session wish' := by
  rw [fill, fill]
  cases pinned : placePinned p session (empty p) with
  | stopped a why => rfl
  | done a =>
    rw [Attempt.andThen, Attempt.andThen]
    cases grouped : placeCliques p session a with
    | stopped b why => rfl
    | done b =>
      have seeded : placeSeeded p session wish b = placeSeeded p session wish' b := by
        refine foldl_keep_congr (fun _ active => active) fun id active => ?_
        by_cases bound : p.Bound session id
        · exact .inl (exists_placed_of_bound pinned grouped bound)
        · exact .inr (same id active bound)
      rw [Attempt.andThen, Attempt.andThen, seeded]

end Seating

section Previous

variable {p : Problem} {previous other : List Assignment}

/-- Two earlier results first name the same declared group for everyone who is heard. -/
def Problem.SameWishes (p : Problem) (previous other : List Assignment) : Prop :=
  ∀ t < p.sessionCount, ∀ id ∈ p.activeIds t, ¬ p.Bound t id →
    p.wish? previous t id = p.wish? other t id

instance (p : Problem) (previous other : List Assignment) :
    Decidable (p.SameWishes previous other) :=
  inferInstanceAs (Decidable (∀ t < p.sessionCount, ∀ id ∈ p.activeIds t, ¬ p.Bound t id →
    p.wish? previous t id = p.wish? other t id))

theorem Problem.SameWishes.reconcile_eq (same : p.SameWishes previous other) (seeding : Bool) :
    p.reconcile previous seeding = p.reconcile other seeding := by
  cases seeding with
  | false => rfl
  | true =>
    refine reconcile_eq_of_outcome_eq rfl fun t inside => ?_
    have filled : Seating.fill p t (wishes previous true t) =
        Seating.fill p t (wishes other true t) := by
      refine Seating.fill_congr_wish fun id active free => ?_
      have agree := same t inside id active free
      rw [wish?, wish?] at agree
      rw [wishes, wishes, if_pos rfl, if_pos rfl, ← bind_groupIndex?_filter, agree,
        bind_groupIndex?_filter]
    rw [outcome, outcome, filled]

theorem OnePerSeat.earlierGroup?_eq_some (once : OnePerSeat previous) {session : Nat}
    {person group : String} : earlierGroup? previous session person = some group ↔
      ⟨person, group, session⟩ ∈ previous := by
  rw [earlierGroup?, Option.map_eq_some_iff]
  constructor
  · intro found
    obtain ⟨a, first, rfl⟩ := found
    obtain ⟨rfl, rfl⟩ : a.session = session ∧ a.person = person := by
      simpa using List.find?_some first
    exact List.mem_of_find?_eq_some first
  · intro listed
    cases first : previous.find? fun a => a.session = session ∧ a.person = person with
    | none =>
      have missed := List.find?_eq_none.1 first _ listed
      simp at missed
    | some a =>
      obtain ⟨rfl, rfl⟩ : a.session = session ∧ a.person = person := by
        simpa using List.find?_some first
      have only := List.inj_on_of_nodup_map once (List.mem_of_find?_eq_some first) listed rfl
      exact ⟨a, rfl, by rw [only]⟩

theorem OnePerSeat.earlierGroup?_perm (once : OnePerSeat previous) (order : previous.Perm other) :
    earlierGroup? previous = earlierGroup? other := by
  have onceOther : OnePerSeat other := (order.map _).nodup_iff.1 once
  funext session person
  apply Option.ext
  intro group
  rw [once.earlierGroup?_eq_some, onceOther.earlierGroup?_eq_some, order.mem_iff]

/-- An entry between `before` and `after` that asks for nothing: nobody is heard there, or its
group is gone and it stands before no entry that would be heard instead. -/
def Problem.Idle (p : Problem) (before after : List Assignment) (a : Assignment) : Prop :=
  p.sessionCount ≤ a.session ∨ a.person ∉ p.activeIds a.session ∨ p.Bound a.session a.person ∨
    (¬ p.declaresGroup a.group ∧ (earlierGroup? before a.session a.person ≠ none ∨
      p.wish? after a.session a.person = none))

instance (p : Problem) (before after : List Assignment) (a : Assignment) :
    Decidable (p.Idle before after a) :=
  inferInstanceAs (Decidable (_ ∨ _ ∨ _ ∨ _))

inductive Problem.Padded (p : Problem) (l : List Assignment) : List Assignment → Prop
  | refl : Padded p l l
  | add (before after : List Assignment) (a : Assignment) (padded : Padded p l (before ++ after))
      (idle : p.Idle before after a) : Padded p l (before ++ a :: after)

theorem earlierGroup?_append (before after : List Assignment) (session : Nat) (person : String) :
    earlierGroup? (before ++ after) session person =
      (earlierGroup? before session person).or (earlierGroup? after session person) := by
  rw [earlierGroup?, earlierGroup?, earlierGroup?, List.find?_append, Option.map_or]

theorem earlierGroup?_cons (a : Assignment) (rest : List Assignment) (session : Nat)
    (person : String) : earlierGroup? (a :: rest) session person =
      if a.session = session ∧ a.person = person then some a.group
      else earlierGroup? rest session person := by
  rw [earlierGroup?, earlierGroup?, List.find?_cons]
  split
  · rename_i here
    rw [if_pos (by simpa using here)]
    rfl
  · rename_i elsewhere
    rw [if_neg (by simpa using elsewhere)]

theorem Problem.Idle.sameWishes {before after : List Assignment} {a : Assignment}
    (idle : p.Idle before after a) : p.SameWishes (before ++ after) (before ++ a :: after) := by
  intro t inside id active free
  rw [wish?, wish?, earlierGroup?_append, earlierGroup?_append, earlierGroup?_cons]
  by_cases here : a.session = t ∧ a.person = id
  · obtain ⟨rfl, rfl⟩ := here
    obtain ⟨gone, told | nothing⟩ : ¬ p.declaresGroup a.group ∧ _ :=
      ((idle.resolve_left (Nat.not_le.2 inside)).resolve_left (not_not.2 active)).resolve_left free
    · obtain ⟨group, first⟩ := Option.ne_none_iff_exists'.1 told
      rw [first]
      rfl
    · cases earlierGroup? before a.session a.person with
      | some group => rfl
      | none =>
        rw [wish?] at nothing
        rw [Option.none_or, Option.none_or, nothing, if_pos ⟨rfl, rfl⟩, Option.filter_some,
          if_neg gone]
  · rw [if_neg here]

theorem Problem.Padded.sameWishes (padded : p.Padded previous other) :
    p.SameWishes previous other := by
  induction padded with
  | refl => exact fun _ _ _ _ _ => rfl
  | add _ _ _ _ idle ih =>
    exact fun t inside id active free =>
      (ih t inside id active free).trans (idle.sameWishes t inside id active free)

end Previous

/-- An earlier result is heard through its wishes alone. So its order does not matter while it
has one entry per person and session, and no entry matters that is idle where it stands. -/
theorem reconcile_eq_of_sameWishes (p : Problem) (previous other : List Assignment)
    (seeding : Bool) :
    (p.SameWishes previous other → p.reconcile previous seeding = p.reconcile other seeding) ∧
    (OnePerSeat previous → previous.Perm other →
      p.reconcile previous seeding = p.reconcile other seeding) ∧
    (p.Padded previous other → p.reconcile previous seeding = p.reconcile other seeding) := by
  refine ⟨fun same => same.reconcile_eq seeding, fun once order => ?_, fun padded => ?_⟩
  · have same : p.SameWishes previous other := by
      intro t _ id _ _
      rw [Problem.wish?, Problem.wish?, once.earlierGroup?_perm order]
    exact same.reconcile_eq seeding
  · exact padded.sameWishes.reconcile_eq seeding

def foyer : Problem where
  people := [⟨"a", .empty, none⟩, ⟨"b", .empty, none⟩, ⟨"d", .empty, none⟩, ⟨"e", .empty, none⟩]
  groups := [⟨"x", 3⟩, ⟨"y", 3⟩]
  sessionCount := 1
  constraints := [.rule (.immovablePerson "b" "x"), .rule (.mustStayTogether ["d", "e"])]

theorem reconcile_eq_foyer :
    foyer.reconcile [⟨"a", "y", 0⟩] =
      .ok (.ofAssignments [⟨"b", "x", 0⟩, ⟨"d", "y", 0⟩, ⟨"e", "y", 0⟩, ⟨"a", "y", 0⟩]) ∧
    (foyer.SameWishes [⟨"a", "y", 0⟩] [⟨"e", "x", 0⟩, ⟨"a", "y", 0⟩, ⟨"a", "x", 0⟩] ∧
      foyer.reconcile [⟨"a", "y", 0⟩] =
        foyer.reconcile [⟨"e", "x", 0⟩, ⟨"a", "y", 0⟩, ⟨"a", "x", 0⟩]) ∧
    (OnePerSeat [⟨"a", "y", 0⟩, ⟨"b", "y", 0⟩] ∧
      foyer.reconcile [⟨"a", "y", 0⟩, ⟨"b", "y", 0⟩] =
        foyer.reconcile [⟨"b", "y", 0⟩, ⟨"a", "y", 0⟩]) ∧
    foyer.Padded [⟨"a", "y", 0⟩] [⟨"ghost", "x", 0⟩, ⟨"a", "y", 0⟩, ⟨"a", "gone", 0⟩] ∧
      foyer.reconcile [⟨"a", "y", 0⟩] =
        foyer.reconcile [⟨"ghost", "x", 0⟩, ⟨"a", "y", 0⟩, ⟨"a", "gone", 0⟩] := by
  have same : foyer.SameWishes [⟨"a", "y", 0⟩] [⟨"e", "x", 0⟩, ⟨"a", "y", 0⟩, ⟨"a", "x", 0⟩] := by
    decide +kernel
  have once : OnePerSeat [⟨"a", "y", 0⟩, ⟨"b", "y", 0⟩] := by decide
  have late : foyer.Padded [⟨"a", "y", 0⟩] [⟨"a", "y", 0⟩, ⟨"a", "gone", 0⟩] :=
    .add [⟨"a", "y", 0⟩] [] ⟨"a", "gone", 0⟩ .refl (by decide +kernel)
  have padded : foyer.Padded [⟨"a", "y", 0⟩]
      [⟨"ghost", "x", 0⟩, ⟨"a", "y", 0⟩, ⟨"a", "gone", 0⟩] :=
    .add [] [⟨"a", "y", 0⟩, ⟨"a", "gone", 0⟩] ⟨"ghost", "x", 0⟩ late (by decide +kernel)
  exact ⟨by decide +kernel, ⟨same, (reconcile_eq_of_sameWishes _ _ _ true).1 same⟩,
    ⟨once, (reconcile_eq_of_sameWishes _ _ _ true).2.1 once (.swap _ _ _)⟩,
    padded, (reconcile_eq_of_sameWishes _ _ _ true).2.2 padded⟩

/-- An entry for a group that is gone does matter where it stands before the entry it hides. -/
theorem reconcile_ne_hidden :
    ¬ foyer.declaresGroup "gone" ∧ OnePerSeat [⟨"a", "y", 0⟩] ∧
      foyer.reconcile [⟨"a", "y", 0⟩] =
        .ok (.ofAssignments [⟨"b", "x", 0⟩, ⟨"d", "y", 0⟩, ⟨"e", "y", 0⟩, ⟨"a", "y", 0⟩]) ∧
      foyer.reconcile [⟨"a", "gone", 0⟩, ⟨"a", "y", 0⟩] =
        .ok (.ofAssignments [⟨"b", "x", 0⟩, ⟨"d", "y", 0⟩, ⟨"e", "y", 0⟩, ⟨"a", "x", 0⟩]) ∧
      foyer.reconcile [⟨"a", "gone", 0⟩, ⟨"a", "y", 0⟩] ≠ foyer.reconcile [⟨"a", "y", 0⟩] := by
  decide +kernel

end Roster
