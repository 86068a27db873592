import Roster.Proofs.Growth

/-! A session that is filled. Everyone pinned sits in the group of the pin, every clique
sits in one group, and exactly the active people have a seat, each of them one. -/

namespace Roster

theorem Attempt.andThen_eq_done {x : Attempt} {next : Seating → Attempt} {t : Seating} :
    x.andThen next = .done t ↔ ∃ s, x = .done s ∧ next s = .done t := by
  cases x with
  | done s => simp [andThen]
  | stopped s why => simp [andThen]

theorem Attempt.andThen_eq_stopped {x : Attempt} {next : Seating → Attempt} {t : Seating}
    {why : Obstacle} : x.andThen next = .stopped t why ↔
      x = .stopped t why ∨ ∃ s, x = .done s ∧ next s = .stopped t why := by
  cases x with
  | done s => simp [andThen]
  | stopped s other => simp [andThen]

theorem Attempt.each_cons_eq_done {α : Type} {step : Seating → α → Attempt} {s t : Seating}
    {a : α} {rest : List α} :
    each step s (a :: rest) = .done t ↔ ∃ u, step s a = .done u ∧ each step u rest = .done t := by
  rw [each, andThen_eq_done]

namespace Seating

variable {p : Problem} {session : Nat} {s t : Seating}

theorem forall_of_each_eq_done {α : Type} {step : Seating → α → Attempt} {l : List α}
    (settled : α → Seating → Prop)
    (grows : ∀ s, ∀ a ∈ l, Grows p session s (step s a).seating)
    (keeps : ∀ a s t, Grows p session s t → settled a s → settled a t)
    (settles : ∀ a ∈ l, ∀ s t, step s a = .done t → settled a t)
    (h : Attempt.each step s l = .done t) : ∀ a ∈ l, settled a t := by
  induction l generalizing s with
  | nil => simp
  | cons a rest ih =>
    obtain ⟨u, first, others⟩ := Attempt.each_cons_eq_done.1 h
    have growsRest := fun s b hb => grows s b (List.mem_cons_of_mem a hb)
    have growth : Grows p session u (Attempt.each step u rest).seating := grows_each growsRest u
    rw [others] at growth
    intro b hb
    cases List.mem_cons.1 hb with
    | inl same =>
      rw [same]
      exact keeps a u t growth (settles a List.mem_cons_self s u first)
    | inr later =>
      exact ih growsRest (fun c hc => settles c (List.mem_cons_of_mem a hc)) others b later

def Together (people : List String) (index : Nat) (s : Seating) : Prop :=
  ∀ person ∈ people, s.placed.get? person = some index

theorem Together.grows {people : List String} {index : Nat} (h : Together people index s)
    (growth : Grows p session s t) : Together people index t :=
  fun person named => growth.placed (h person named)

def SitsIn (p : Problem) (person group : String) (s : Seating) : Prop :=
  ∃ index, p.groupIndex? group = some index ∧ s.placed.get? person = some index

theorem SitsIn.grows {person group : String} (h : SitsIn p person group s)
    (growth : Grows p session s t) : SitsIn p person group t := by
  obtain ⟨index, declared, seated⟩ := h
  exact ⟨index, declared, growth.placed seated⟩

theorem sitsIn_of_pin {person group : String} (h : pin p session s (person, group) = .done t) :
    SitsIn p person group t := by
  have ends := pin_ends p session s person group
  rw [h] at ends
  cases ends with
  | seated _ _ declared => exact ⟨_, declared, by rw [get?_put, if_pos rfl]⟩
  | again _ _ declared there => exact ⟨_, declared, there⟩

theorem together_of_each_putInto {people : List String} {index : Nat}
    (distinct : people.Nodup) (active : ∀ a ∈ people, a ∈ p.activeIds session)
    (fresh : ∀ a ∈ people, s.placed.get? a = none)
    (h : Attempt.each (putInto p index) s people = .done t) : Together people index t := by
  induction people generalizing s with
  | nil => exact fun _ hid => absurd hid (by simp)
  | cons a rest ih =>
    obtain ⟨u, first, later⟩ := Attempt.each_cons_eq_done.1 h
    obtain ⟨-, rfl⟩ := putInto_eq_done.1 first
    have freshRest := forall_fresh_put distinct fresh index
    have activeRest := fun b hb => active b (List.mem_cons_of_mem a hb)
    have growth := grows_each_putInto index distinct.of_cons activeRest freshRest
    rw [later] at growth
    intro b hb
    cases List.mem_cons.1 hb with
    | inl same =>
      apply growth.placed
      rw [get?_put, if_pos same]
    | inr after => exact ih distinct.of_cons activeRest freshRest later b after

theorem together_of_placeClique {clique : List String}
    (hc : clique ∈ p.cliques session (p.activeIds session))
    (h : placeClique p s clique = .done t) : ∃ index, Together clique index t := by
  have distinct := (Problem.nodup_of_mem_cliques hc).filter
    fun member => (s.placed.get? member).isNone
  have active : ∀ a ∈ s.unplaced clique, a ∈ p.activeIds session :=
    fun a ha => Problem.mem_of_mem_cliques hc (mem_unplaced.1 ha).1
  have fresh : ∀ a ∈ s.unplaced clique, s.placed.get? a = none := fun a ha => (mem_unplaced.1 ha).2
  have settle : ∀ index, (∀ a ∈ clique, ∀ i, s.placed.get? a = some i → i = index) →
      Attempt.each (putInto p index) s (s.unplaced clique) = .done t → Together clique index t := by
    intro index agree run a ha
    have growth := grows_each_putInto index distinct active fresh
    rw [← unplaced, run] at growth
    cases seated : s.placed.get? a with
    | some i => exact growth.placed (agree a ha i seated ▸ seated)
    | none =>
      exact together_of_each_putInto distinct active fresh run a (mem_unplaced.2 ⟨ha, seated⟩)
  have ends := placeClique_ends p s clique
  rw [h] at ends
  cases ends with
  | roomiest nobody _ walk =>
    refine ⟨_, settle _ (fun a ha i seated => ?_) walk⟩
    rw [nobody a ha] at seated
    simp at seated
  | follow _ _ agree walk => exact ⟨_, settle _ agree walk⟩

theorem exists_placed_of_seatAnywhere {person : String} (h : s.seatAnywhere p person = .done t) :
    ∃ index, t.placed.get? person = some index := by
  have ends := seatAnywhere_ends p s person
  rw [h] at ends
  cases ends with
  | asBefore there => exact ⟨_, there⟩
  | put => exact ⟨_, by rw [get?_put, if_pos rfl]⟩

/-- Everything in a session that comes after the pins. -/
def afterPins (p : Problem) (session : Nat) (wish : String → Option String) (s : Seating) :
    Attempt :=
  (placeCliques p session s).andThen fun s =>
  placeRemaining p session (placeSeeded p session wish s)

theorem fill_eq_afterPins (p : Problem) (session : Nat) (wish : String → Option String) :
    fill p session wish =
      (placePinned p session (empty p)).andThen (afterPins p session wish) := rfl

theorem fill_eq_done {wish : String → Option String} :
    fill p session wish = .done s ↔ ∃ a b, placePinned p session (empty p) = .done a ∧
      placeCliques p session a = .done b ∧
      placeRemaining p session (placeSeeded p session wish b) = .done s := by
  simp only [fill, Attempt.andThen_eq_done]
  constructor
  · intro h
    obtain ⟨a, pinned, b, grouped, rest⟩ := h
    exact ⟨a, b, pinned, grouped, rest⟩
  · intro h
    obtain ⟨a, b, pinned, grouped, rest⟩ := h
    exact ⟨a, pinned, b, grouped, rest⟩

theorem fill_eq_stopped {wish : String → Option String} {why : Obstacle} :
    fill p session wish = .stopped t why ↔ placePinned p session (empty p) = .stopped t why ∨
      (∃ a, placePinned p session (empty p) = .done a ∧
        placeCliques p session a = .stopped t why) ∨
      ∃ a b, placePinned p session (empty p) = .done a ∧ placeCliques p session a = .done b ∧
        placeRemaining p session (placeSeeded p session wish b) = .stopped t why := by
  simp only [fill, Attempt.andThen_eq_stopped]
  refine or_congr_right ⟨?_, ?_⟩
  · intro h
    obtain ⟨a, pinned, grouped | ⟨b, grouped, rest⟩⟩ := h
    · exact .inl ⟨a, pinned, grouped⟩
    · exact .inr ⟨a, b, pinned, grouped, rest⟩
  · intro h
    obtain ⟨a, pinned, grouped⟩ | ⟨a, b, pinned, grouped, rest⟩ := h
    · exact ⟨a, pinned, .inl grouped⟩
    · exact ⟨a, pinned, .inr ⟨b, grouped, rest⟩⟩

theorem grows_of_placePinned {a : Seating} (h : placePinned p session s = .done a) :
    Grows p session s a := by
  have growth : Grows p session s (placePinned p session s).seating := grows_placePinned s
  rwa [h] at growth

theorem grows_of_placeCliques {a : Seating} (h : placeCliques p session s = .done a) :
    Grows p session s a := by
  have growth : Grows p session s (placeCliques p session s).seating := grows_placeCliques s
  rwa [h] at growth

theorem grows_of_placeRemaining {a : Seating} (h : placeRemaining p session s = .done a) :
    Grows p session s a := by
  have growth : Grows p session s (placeRemaining p session s).seating := grows_placeRemaining s
  rwa [h] at growth

section Phases

variable {a b : Seating} (pinned : placePinned p session (empty p) = .done a)

include pinned

theorem coherent_of_placePinned : a.Coherent p session :=
  (grows_of_placePinned pinned).coherent (coherent_empty p session)

theorem coherent_of_placeCliques (grouped : placeCliques p session a = .done b) :
    b.Coherent p session :=
  (grows_of_placeCliques grouped).coherent (coherent_of_placePinned pinned)

theorem coherent_placeSeeded (grouped : placeCliques p session a = .done b)
    (wish : String → Option String) : (placeSeeded p session wish b).Coherent p session :=
  (grows_placeSeeded wish b).coherent (coherent_of_placeCliques pinned grouped)

end Phases

theorem sitsIn_of_placePinned {a : Seating} (h : placePinned p session s = .done a)
    {person group : String} (pinned : (person, group) ∈ p.pins session) :
    SitsIn p person group a :=
  forall_of_each_eq_done (fun e s => SitsIn p e.1 e.2 s) (fun s e _ => grows_pin s e)
    (fun e s _ growth (sits : SitsIn p e.1 e.2 s) => sits.grows growth)
    (fun _ _ _ _ run => sitsIn_of_pin run) h _ pinned

theorem together_of_each_placeClique {cliques : List (List String)}
    (listed : cliques ⊆ p.cliques session (p.activeIds session))
    (h : Attempt.each (placeClique p) s cliques = .done t) {clique : List String}
    (hc : clique ∈ cliques) : ∃ index, Together clique index t :=
  forall_of_each_eq_done (fun clique s => ∃ index, Together clique index s)
    (fun s _ hc => grows_placeClique s (listed hc))
    (fun _ _ _ growth ⟨index, settled⟩ => ⟨index, settled.grows growth⟩)
    (fun _ hc _ _ run => together_of_placeClique (listed hc) run) h _ hc

theorem together_of_placeCliques (h : placeCliques p session s = .done t) {clique : List String}
    (hc : clique ∈ p.cliques session (p.activeIds session)) :
    ∃ index, Together clique index t :=
  together_of_each_placeClique (List.Subset.refl _) h hc

theorem exists_placed_of_placeRemaining (h : placeRemaining p session s = .done t)
    {person : String} (active : person ∈ p.activeIds session) :
    ∃ index, t.placed.get? person = some index :=
  forall_of_each_eq_done (fun person s => ∃ index, s.placed.get? person = some index)
    (fun s _ active => grows_seatAnywhere s active)
    (fun _ _ _ growth ⟨index, seated⟩ => ⟨index, growth.placed seated⟩)
    (fun _ _ _ _ run => exists_placed_of_seatAnywhere run) h person active

section Filled

variable {wish : String → Option String}

theorem grows_of_fill (h : fill p session wish = .done s) : Grows p session (empty p) s := by
  obtain ⟨a, b, pinned, grouped, rest⟩ := fill_eq_done.1 h
  have toCliques := (grows_of_placePinned pinned).trans (grows_of_placeCliques grouped)
  exact toCliques.trans ((grows_placeSeeded wish b).trans (grows_of_placeRemaining rest))

theorem coherent_of_fill (h : fill p session wish = .done s) : s.Coherent p session :=
  (grows_of_fill h).coherent (coherent_empty p session)

theorem sitsIn_of_mem_pins (h : fill p session wish = .done s) {person group : String}
    (pinned : (person, group) ∈ p.pins session) : SitsIn p person group s := by
  obtain ⟨a, b, pins, grouped, rest⟩ := fill_eq_done.1 h
  exact (sitsIn_of_placePinned pins pinned).grows ((grows_of_placeCliques grouped).trans
    ((grows_placeSeeded wish b).trans (grows_of_placeRemaining rest)))

theorem together_of_mem_cliques (h : fill p session wish = .done s) {clique : List String}
    (hc : clique ∈ p.cliques session (p.activeIds session)) :
    ∃ index, Together clique index s := by
  obtain ⟨a, b, _, grouped, rest⟩ := fill_eq_done.1 h
  obtain ⟨index, settled⟩ := together_of_placeCliques grouped hc
  exact ⟨index, settled.grows ((grows_placeSeeded wish b).trans (grows_of_placeRemaining rest))⟩

theorem exists_placed (h : fill p session wish = .done s) {person : String}
    (active : person ∈ p.activeIds session) : ∃ index, s.placed.get? person = some index := by
  obtain ⟨_, _, _, _, rest⟩ := fill_eq_done.1 h
  exact exists_placed_of_placeRemaining rest active

theorem mem_seated_iff (h : fill p session wish = .done s) {person : String} :
    person ∈ s.order.map Prod.fst ↔ person ∈ p.activeIds session := by
  have records := coherent_of_fill h
  constructor
  · intro seated
    obtain ⟨e, he, rfl⟩ := List.mem_map.1 seated
    exact records.active e he
  · intro active
    obtain ⟨index, seated⟩ := exists_placed h active
    exact List.mem_map.2 ⟨_, (records.placed person index).1 seated, rfl⟩

end Filled

end Seating

end Roster
