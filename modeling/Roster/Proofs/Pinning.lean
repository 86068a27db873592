import Roster.Proofs.Seats

/-! Which pins can be met. Pins are placed one by one, and the first bad one ends it; all the
same they come through exactly when everyone pinned is there, no one is pinned to two groups
and no group has more people pinned to it than seats. None of this looks at their order,
and neither does where everyone then sits. -/

namespace Roster

namespace Problem

variable {p : Problem}

theorem group?_eq_some {id : String} {group : Group} :
    p.group? id = some group ↔
      ∃ index, p.groupIndex? id = some index ∧ p.groups[index]? = some group := by
  rw [group?, List.find?_eq_bind_findIdx?_getElem?, Option.bind_eq_some_iff]
  rfl

def pinnedTo (p : Problem) (session : Nat) (group : String) : Finset String :=
  (((p.pins session).filter (·.2 = group)).map Prod.fst).toFinset

theorem mem_pinnedTo {session : Nat} {person group : String} :
    person ∈ p.pinnedTo session group ↔ (person, group) ∈ p.pins session := by
  simp [pinnedTo]

/-- The pins of a session, taken together, can be met. Of repeated ids the first declaration
counts. -/
structure Pinnable (p : Problem) (session : Nat) : Prop where
  present : ∀ e ∈ p.pins session, ∃ person, p.person? e.1 = some person ∧ person.ActiveIn session
  declared : ∀ e ∈ p.pins session, ∃ group, p.group? e.2 = some group
  single : ∀ person first second, (person, first) ∈ p.pins session →
    (person, second) ∈ p.pins session → first = second
  room : ∀ id group, p.group? id = some group → (p.pinnedTo session id).card ≤ group.size

theorem Pinnable.of_pins {q : Problem} {session : Nat} (able : p.Pinnable session)
    (people : p.people = q.people) (groups : p.groups = q.groups)
    (pins : ∀ e, e ∈ p.pins session ↔ e ∈ q.pins session) : q.Pinnable session := by
  have person : p.person? = q.person? := by
    funext id
    rw [person?, person?, people]
  have group : p.group? = q.group? := by
    funext id
    rw [group?, group?, groups]
  have pinned : ∀ id, p.pinnedTo session id = q.pinnedTo session id := by
    intro id
    ext person
    rw [mem_pinnedTo, mem_pinnedTo, pins]
  refine ⟨?_, ?_, ?_, ?_⟩
  · simpa only [pins, person] using able.present
  · simpa only [pins, group] using able.declared
  · simpa only [pins] using able.single
  · simpa only [pinned, group] using able.room

end Problem

namespace Seating

variable {p : Problem} {session : Nat} {s t : Seating} {person : String} {index : Nat}

def occupants (s : Seating) (index : Nat) : Finset String :=
  ((s.order.filter (·.2 = index)).map Prod.fst).toFinset

theorem mem_occupants : person ∈ s.occupants index ↔ (person, index) ∈ s.order := by
  simp [occupants]

theorem card_occupants (h : s.Coherent p session) (index : Nat) :
    (s.occupants index).card = s.headcount index := by
  have distinct := (List.filter_sublist (p := (·.2 = index)).map Prod.fst).nodup h.once
  rw [occupants, List.toFinset_card_of_nodup distinct, List.length_map, headcount,
    List.count_eq_countP, List.countP_map, List.countP_eq_length_filter]
  rfl

def FromPins (p : Problem) (session : Nat) (s : Seating) : Prop :=
  ∀ e ∈ s.order, ∃ group, (e.1, group) ∈ p.pins session ∧ p.groupIndex? group = some e.2

theorem seating_pin (p : Problem) (session : Nat) (s : Seating) (e : String × String) :
    (pin p session s e).seating = s ∨
      ∃ index, p.groupIndex? e.2 = some index ∧ (pin p session s e).seating = s.put e.1 index := by
  have ends := pin_ends p session s e.1 e.2
  generalize pin p session s e = x at ends ⊢
  cases ends with
  | seated _ _ declared => exact .inr ⟨_, declared, rfl⟩
  | _ => exact .inl rfl

theorem FromPins.pin (h : s.FromPins p session) {e : String × String}
    (he : e ∈ p.pins session) : (pin p session s e).seating.FromPins p session := by
  obtain same | ⟨index, declared, moved⟩ := seating_pin p session s e
  · rwa [same]
  · rw [moved]
    intro d hd
    cases List.mem_append.1 hd with
    | inl old => exact h d old
    | inr new =>
      rw [List.mem_singleton.1 new]
      exact ⟨e.2, he, declared⟩

theorem fromPins_empty (p : Problem) (session : Nat) : (empty p).FromPins p session := by
  intro e he
  simp [empty] at he

theorem FromPins.occupants_subset (h : s.FromPins p session) {group : String}
    (declared : p.groupIndex? group = some index) :
    s.occupants index ⊆ p.pinnedTo session group := by
  intro person seated
  obtain ⟨other, pinned, same⟩ := h _ (mem_occupants.1 seated)
  rw [Problem.eq_of_groupIndex?_eq declared same]
  exact Problem.mem_pinnedTo.2 pinned

theorem exists_pin_eq_done (able : p.Pinnable session) (records : s.Coherent p session)
    (pinned : s.FromPins p session) {e : String × String} (he : e ∈ p.pins session) :
    ∃ t, pin p session s e = .done t := by
  obtain ⟨person, group⟩ := e
  obtain ⟨found, hfound, present⟩ := able.present _ he
  obtain ⟨chosen, hchosen⟩ := able.declared _ he
  obtain ⟨index, declared, here⟩ := Problem.group?_eq_some.1 hchosen
  have size : p.groupSize index = chosen.size := by simp [Problem.groupSize, here]
  have ends := pin_ends p session s person group
  generalize Seating.pin p session s (person, group) = x at ends ⊢
  cases ends with
  | seated | again => exact ⟨_, rfl⟩
  | unknownPerson absent => simp [absent] at hfound
  | inactivePerson known away =>
    obtain rfl := Option.some.inj (hfound.symm.trans known)
    exact absurd present away
  | unknownGroup _ _ absent => simp [absent] at declared
  | elsewhere _ _ goal there apart =>
    obtain ⟨other, again, same⟩ := pinned _ ((records.placed person _).1 there)
    rw [able.single person other group again he, goal] at same
    exact absurd (Option.some.inj same).symm apart
  | full _ _ goal fresh full =>
    obtain rfl := Option.some.inj (declared.symm.trans goal)
    have absent : person ∉ s.occupants index := by
      rw [mem_occupants, ← records.placed, fresh]
      simp
    have among : insert person (s.occupants index) ⊆ p.pinnedTo session group :=
      Finset.insert_subset (Problem.mem_pinnedTo.2 he) (pinned.occupants_subset declared)
    have bound := (Finset.card_le_card among).trans (able.room group chosen hchosen)
    rw [Finset.card_insert_of_notMem absent, card_occupants records] at bound
    rw [records.spare_eq, size] at full
    omega

theorem fromPins_of_placePinned {a : Seating} (h : placePinned p session (empty p) = .done a) :
    a.FromPins p session := by
  have kept : (placePinned p session (empty p)).seating.FromPins p session :=
    keeps_each (FromPins p session) (fun _ _ he pinned => pinned.pin he) (fromPins_empty p session)
  rwa [h] at kept

theorem mem_order_of_placePinned {a : Seating}
    (h : placePinned p session (empty p) = .done a) :
    (person, index) ∈ a.order ↔
      ∃ group, (person, group) ∈ p.pins session ∧ p.groupIndex? group = some index := by
  constructor
  · exact fromPins_of_placePinned h _
  · intro pinned
    obtain ⟨group, listed, declared⟩ := pinned
    obtain ⟨seat, found, seated⟩ := sitsIn_of_placePinned h listed
    have records := coherent_of_placePinned h
    rw [Option.some.inj (found.symm.trans declared)] at seated
    exact (records.placed person index).1 seated

theorem active_of_pin {e : String × String} (h : pin p session s e = .done t) :
    ∃ person, p.person? e.1 = some person ∧ person.ActiveIn session := by
  have ends := pin_ends p session s e.1 e.2
  rw [h] at ends
  cases ends with
  | seated known present | again known present => exact ⟨_, known, present⟩

theorem pinnable_of_placePinned {a : Seating} (h : placePinned p session (empty p) = .done a) :
    p.Pinnable session := by
  have records := coherent_of_placePinned h
  refine ⟨?_, ?_, ?_, ?_⟩
  · exact forall_of_each_eq_done
      (fun e _ => ∃ person, p.person? e.1 = some person ∧ person.ActiveIn session)
      (fun s e _ => grows_pin s e) (fun _ _ _ _ => id)
      (fun _ _ _ _ run => active_of_pin run) h
  · intro e he
    obtain ⟨index, declared, seated⟩ := sitsIn_of_placePinned h he
    have inside := records.index_lt ((records.placed e.1 index).1 seated)
    exact ⟨_, Problem.group?_eq_some.2 ⟨index, declared, List.getElem?_eq_getElem inside⟩⟩
  · intro person first second hf hs
    obtain ⟨i, declaredFirst, here⟩ := sitsIn_of_placePinned h hf
    obtain ⟨j, declaredSecond, there⟩ := sitsIn_of_placePinned h hs
    rw [Option.some.inj (here.symm.trans there)] at declaredFirst
    exact Problem.eq_of_groupIndex?_eq declaredFirst declaredSecond
  · intro id group declared
    obtain ⟨index, chosen, here⟩ := Problem.group?_eq_some.1 declared
    have seated : p.pinnedTo session id ⊆ a.occupants index := by
      intro person pinned
      exact mem_occupants.2
        ((mem_order_of_placePinned h).2 ⟨id, Problem.mem_pinnedTo.1 pinned, chosen⟩)
    calc (p.pinnedTo session id).card
        ≤ (a.occupants index).card := Finset.card_le_card seated
      _ = a.headcount index := card_occupants records index
      _ ≤ p.groupSize index := records.seats index
      _ = group.size := by simp [Problem.groupSize, here]

/-- Pins come through exactly when they can be met. -/
theorem placePinned_eq_done_iff :
    (∃ a, placePinned p session (empty p) = .done a) ↔ p.Pinnable session := by
  constructor
  · intro h
    obtain ⟨a, through⟩ := h
    exact pinnable_of_placePinned through
  · intro able
    cases ended : placePinned p session (empty p) with
    | done a => exact ⟨a, rfl⟩
    | stopped t why =>
      obtain ⟨before, e, after, u, split, through, stop⟩ := exists_split_of_each_eq_stopped ended
      have inside : ∀ d ∈ before, d ∈ p.pins session := fun d hd => by simp [split, hd]
      have pinned : (Attempt.each (pin p session) (empty p) before).seating.FromPins p session :=
        keeps_each (FromPins p session) (fun _ d hd pinned => pinned.pin (inside d hd))
          (fromPins_empty p session)
      have growth : Grows p session (empty p)
          (Attempt.each (pin p session) (empty p) before).seating :=
        grows_each (fun s e _ => grows_pin s e) _
      rw [through, Attempt.seating_done] at pinned growth
      obtain ⟨v, met⟩ := exists_pin_eq_done able (growth.coherent (coherent_empty p session)) pinned
        (e := e) (by simp [split])
      rw [stop] at met
      simp at met

end Seating

end Roster
