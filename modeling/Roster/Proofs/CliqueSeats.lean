import Roster.Proofs.Arrangement

/-! Where a clique goes when its turn comes. Whoever of it has a seat by then is pinned. With
nobody pinned all of it goes to the earliest of the roomiest groups, if that holds all of it; with
some pinned to one group the others follow there, if it holds them. A clique is never left half
seated while the run goes on, and one that is pinned to two groups always ends it. -/

namespace Roster

theorem Attempt.each_eq_stopped_of_split {α : Type} {step : Seating → α → Attempt}
    {s t u : Seating} {why : Obstacle} {before after : List α} {a : α}
    (through : each step s before = .done u) (stop : step u a = .stopped t why) :
    each step s (before ++ a :: after) = .stopped t why := by
  rw [each_append, through, andThen, each, stop]
  rfl

namespace Seating

variable {p : Problem} {session : Nat} {s t : Seating} {clique : List String}

def putAll (s : Seating) (index : Nat) (people : List String) : Seating :=
  people.foldl (fun s person => s.put person index) s

/-- The earliest of the groups with the most spare seats. -/
structure Roomiest (p : Problem) (s : Seating) (index : Nat) : Prop where
  declared : index < p.groups.length
  most : ∀ j < p.groups.length, s.spare p j ≤ s.spare p index
  first : ∀ j < index, s.spare p j < s.spare p index

theorem roomiest?_eq_some_iff {needed index : Nat} (several : 0 < needed) :
    s.roomiest? p needed = some index ↔ s.Roomiest p index ∧ needed ≤ s.spare p index := by
  rw [roomiest?_eq_some]
  constructor
  · intro h
    obtain ⟨room, enough, most, first⟩ := h
    exact ⟨⟨lt_of_spare_pos room, fun j _ => most j, first⟩, enough⟩
  · intro h
    obtain ⟨roomiest, enough⟩ := h
    refine ⟨by omega, enough, fun j => ?_, roomiest.first⟩
    cases Nat.lt_or_ge j p.groups.length with
    | inl inside => exact roomiest.most j inside
    | inr outside => rw [spare_of_le outside]; exact Nat.zero_le _

theorem each_putInto_eq_done {people : List String} {index : Nat} (h : s.Coherent p session)
    (distinct : people.Nodup) (active : ∀ a ∈ people, a ∈ p.activeIds session)
    (fresh : ∀ a ∈ people, s.placed.get? a = none) :
    Attempt.each (putInto p index) s people = .done t ↔
      people.length ≤ s.spare p index ∧ t = s.putAll index people := by
  induction people generalizing s with
  | nil => simp [Attempt.each, putAll, eq_comm]
  | cons a rest ih =>
    obtain ⟨activeFirst, activeRest⟩ := List.forall_mem_cons.1 active
    have freshFirst := fresh a List.mem_cons_self
    have later : 0 < s.spare p index →
        (Attempt.each (putInto p index) (s.put a index) rest = .done t ↔
          rest.length ≤ s.spare p index - 1 ∧ t = (s.put a index).putAll index rest) := by
      intro room
      have left := h.spare_put activeFirst freshFirst room index
      rw [if_pos rfl] at left
      rw [← left]
      exact ih (h.put activeFirst freshFirst room) distinct.of_cons activeRest
        (forall_fresh_put distinct fresh index)
    rw [Attempt.each_cons_eq_done, List.length_cons]
    constructor
    · intro run
      obtain ⟨u, first, after⟩ := run
      obtain ⟨room, rfl⟩ := putInto_eq_done.1 first
      obtain ⟨enough, same⟩ := (later room).1 after
      exact ⟨by omega, same⟩
    · intro enough
      have room : 0 < s.spare p index := by omega
      exact ⟨_, putInto_eq_done.2 ⟨room, rfl⟩, (later room).2 ⟨by omega, enough.2⟩⟩

/-- The pins are placed, and so are all cliques before this one. -/
def AtTurn (p : Problem) (session : Nat) (clique : List String) (s : Seating) : Prop :=
  ∃ start before after, placePinned p session (empty p) = .done start ∧
    p.cliques session (p.activeIds session) = before ++ clique :: after ∧
      Attempt.each (placeClique p) start before = .done s

def free (p : Problem) (session : Nat) (clique : List String) : List String :=
  clique.filter (· ∉ (p.pins session).map Prod.fst)

theorem mem_free {person : String} : person ∈ free p session clique ↔
    person ∈ clique ∧ person ∉ (p.pins session).map Prod.fst := by
  rw [free, List.mem_filter, decide_eq_true_eq]

theorem free_eq_self (unpinned : ∀ member ∈ clique, member ∉ (p.pins session).map Prod.fst) :
    free p session clique = clique :=
  List.filter_eq_self.2 fun member hm => by simpa using unpinned member hm

namespace AtTurn

variable (turn : AtTurn p session clique s)

include turn

theorem mem_cliques : clique ∈ p.cliques session (p.activeIds session) := by
  obtain ⟨_, _, _, _, split, _⟩ := turn
  simp [split]

theorem coherent : s.Coherent p session := by
  obtain ⟨_, _, _, pinned, split, through⟩ := turn
  exact (grows_of_each_placeClique split through).coherent (coherent_of_placePinned pinned)

theorem sitsIn {person group : String} (pin : (person, group) ∈ p.pins session) :
    SitsIn p person group s := by
  obtain ⟨_, _, _, pinned, split, through⟩ := turn
  exact (sitsIn_of_placePinned pinned pin).grows (grows_of_each_placeClique split through)

theorem placed_iff {member : String} (hm : member ∈ clique) {index : Nat} :
    s.placed.get? member = some index ↔
      ∃ group, (member, group) ∈ p.pins session ∧ p.groupIndex? group = some index := by
  constructor
  · obtain ⟨_, _, _, pinned, split, through⟩ := turn
    exact exists_pin_of_mem_clique pinned split through hm
  · intro h
    obtain ⟨group, pin, declared⟩ := h
    obtain ⟨seat, found, seated⟩ := turn.sitsIn pin
    rw [seated, ← found, declared]

theorem fresh_iff {member : String} (hm : member ∈ clique) :
    s.placed.get? member = none ↔ member ∉ (p.pins session).map Prod.fst := by
  rw [Option.eq_none_iff_forall_ne_some]
  constructor
  · intro nowhere pin
    obtain ⟨e, he, rfl⟩ := List.mem_map.1 pin
    obtain ⟨index, _, seated⟩ := turn.sitsIn he
    exact nowhere index seated
  · intro unpinned index seated
    obtain ⟨group, pin, _⟩ := (turn.placed_iff hm).1 seated
    exact unpinned (List.mem_map.2 ⟨_, pin, rfl⟩)

theorem unplaced_eq_free : s.unplaced clique = free p session clique := by
  refine List.filter_congr fun member hm => ?_
  rw [Bool.eq_iff_iff, decide_eq_true_eq, Option.isNone_iff_eq_none]
  exact turn.fresh_iff hm

theorem nodup_free : (free p session clique).Nodup :=
  (Problem.nodup_of_mem_cliques turn.mem_cliques).filter _

theorem active_of_mem_free {person : String} (h : person ∈ free p session clique) :
    person ∈ p.activeIds session :=
  Problem.mem_of_mem_cliques turn.mem_cliques (mem_free.1 h).1

theorem fresh_of_mem_free {person : String} (h : person ∈ free p session clique) :
    s.placed.get? person = none :=
  (turn.fresh_iff (mem_free.1 h).1).2 (mem_free.1 h).2

theorem each_putInto_free_eq_done {index : Nat} :
    Attempt.each (putInto p index) s (free p session clique) = .done t ↔
      (free p session clique).length ≤ s.spare p index ∧
        t = s.putAll index (free p session clique) :=
  each_putInto_eq_done turn.coherent turn.nodup_free (fun _ => turn.active_of_mem_free)
    fun _ => turn.fresh_of_mem_free

section Unpinned

variable (unpinned : ∀ member ∈ clique, member ∉ (p.pins session).map Prod.fst)

include unpinned

theorem unplaced_eq_self : s.unplaced clique = clique := by
  rw [turn.unplaced_eq_free, free_eq_self unpinned]

theorem placeClique_of_no_room (nowhere : s.roomiest? p clique.length = none) :
    placeClique p s clique = .stopped s (.cliqueInfeasible clique) := by
  have fresh := fun member hm => (turn.fresh_iff hm).2 (unpinned member hm)
  have ends := placeClique_ends p s clique
  generalize placeClique p s clique = x at ends ⊢
  cases ends with
  | infeasible => rfl
  | roomiest _ chosen => simp [turn.unplaced_eq_self unpinned, nowhere] at chosen
  | torn ha _ seat | follow ha seat => simp [fresh _ ha] at seat

theorem placeClique_of_roomiest {index : Nat}
    (chosen : s.roomiest? p clique.length = some index) :
    placeClique p s clique = .done (s.putAll index clique) := by
  have fresh := fun member hm => (turn.fresh_iff hm).2 (unpinned member hm)
  have whole := turn.unplaced_eq_self unpinned
  have ends := placeClique_ends p s clique
  generalize placeClique p s clique = x at ends ⊢
  cases ends with
  | infeasible _ nowhere => simp [whole, chosen] at nowhere
  | roomiest _ here walk =>
    rw [whole, chosen] at here
    obtain rfl := Option.some.inj here
    have enough : clique.length ≤ s.spare p index := (roomiest?_eq_some.1 chosen).2.1
    rw [← walk, turn.unplaced_eq_free, turn.each_putInto_free_eq_done, free_eq_self unpinned]
    exact ⟨enough, rfl⟩
  | torn ha _ seat | follow ha seat => simp [fresh _ ha] at seat

end Unpinned

theorem placeClique_of_pinned {group : String} {index : Nat}
    (declared : p.groupIndex? group = some index)
    (someone : ∃ member ∈ clique, (member, group) ∈ p.pins session)
    (only : ∀ member ∈ clique, ∀ other, (member, other) ∈ p.pins session → other = group) :
    placeClique p s clique = .each (putInto p index) s (free p session clique) := by
  have there : ∀ member ∈ clique, ∀ i, s.placed.get? member = some i → i = index := by
    intro member hm i seated
    obtain ⟨other, pin, found⟩ := (turn.placed_iff hm).1 seated
    rw [only member hm other pin, declared] at found
    exact (Option.some.inj found).symm
  obtain ⟨member, hm, pin⟩ := someone
  have seated := (turn.placed_iff hm).2 ⟨group, pin, declared⟩
  have ends := placeClique_ends p s clique
  generalize placeClique p s clique = x at ends ⊢
  cases ends with
  | infeasible nobody | roomiest nobody => simp [nobody member hm] at seated
  | torn ha hb seatA seatB apart =>
    exact absurd ((there _ ha _ seatA).trans (there _ hb _ seatB).symm) apart
  | follow ha seat _ walk => rw [← walk, there _ ha _ seat, turn.unplaced_eq_free]

theorem placeClique_of_torn {a b first second : String} (ha : a ∈ clique) (hb : b ∈ clique)
    (pinA : (a, first) ∈ p.pins session) (pinB : (b, second) ∈ p.pins session)
    (apart : first ≠ second) :
    ∃ x y, placeClique p s clique = .stopped s (.cliqueConflict clique x y) := by
  obtain ⟨i, declaredA, seatedA⟩ := turn.sitsIn pinA
  obtain ⟨j, declaredB, seatedB⟩ := turn.sitsIn pinB
  have differ : i ≠ j := fun same =>
    apart (Problem.eq_of_groupIndex?_eq declaredA (same ▸ declaredB))
  have ends := placeClique_ends p s clique
  generalize placeClique p s clique = x at ends ⊢
  cases ends with
  | infeasible nobody | roomiest nobody => simp [nobody a ha] at seatedA
  | torn => exact ⟨_, _, rfl⟩
  | follow _ _ agree =>
    exact absurd ((agree a ha i seatedA).trans (agree b hb j seatedB).symm) differ

end AtTurn

end Seating

namespace Problem

open Seating

variable {p : Problem} {previous : List Assignment} {seeding : Bool} {session : Nat}
  {clique : List String} {s t : Seating}

def Reaches (p : Problem) (previous : List Assignment) (seeding : Bool) (session : Nat) : Prop :=
  session < p.sessionCount ∧
    ∀ t < session, ∃ s, fill p t (wishes previous seeding t) = .done s

/-- What becomes of a clique when its turn comes, with the seats `s` given before. -/
structure SettledByRule (p : Problem) (previous : List Assignment) (seeding : Bool) (session : Nat)
    (s : Seating) (clique : List String) : Prop where
  spare : ∀ index, s.spare p index = p.groupSize index - s.headcount index
  whole : (∀ member ∈ clique, member ∉ (p.pins session).map Prod.fst) →
    ∀ index, s.Roomiest p index → clique.length ≤ s.spare p index →
      placeClique p s clique = .done (s.putAll index clique)
  infeasible : (∀ member ∈ clique, member ∉ (p.pins session).map Prod.fst) →
    (∀ index, s.Roomiest p index → s.spare p index < clique.length) →
      p.reconcile previous seeding = .error ⟨session, .cliqueInfeasible clique⟩
  follow : ∀ group, (∃ member ∈ clique, (member, group) ∈ p.pins session) →
    (∀ member ∈ clique, ∀ other, (member, other) ∈ p.pins session → other = group) →
      ∃ index, p.groupIndex? group = some index ∧
        (placeClique p s clique = .done (s.putAll index (free p session clique)) ↔
          (free p session clique).length ≤ s.spare p index) ∧
        (s.spare p index < (free p session clique).length →
          ∃ person ∈ free p session clique, p.reconcile previous seeding =
            .error ⟨session, .capacityExceeded person group (p.groupSize index)⟩)
  together : ∀ t, placeClique p s clique = .done t → ∃ index, Together clique index t ∧
    ∀ schedule, p.reconcile previous seeding = .ok schedule →
      ∀ member ∈ clique, schedule.groupOf? session member = some (p.groupId index)

def Torn (p : Problem) (session : Nat) (clique : List String) : Prop :=
  ∃ a ∈ clique, ∃ b ∈ clique, ∃ first second, first ≠ second ∧
    (a, first) ∈ p.pins session ∧ (b, second) ∈ p.pins session

theorem Reaches.reconcile_eq_error (reached : p.Reaches previous seeding session)
    (turn : AtTurn p session clique s) {why : Obstacle}
    (stop : placeClique p s clique = .stopped t why) :
    p.reconcile previous seeding = .error ⟨session, why⟩ := by
  obtain ⟨start, before, after, pinned, split, through⟩ := turn
  have grouped : placeCliques p session start = .stopped t why := by
    rw [placeCliques, split]
    exact Attempt.each_eq_stopped_of_split through stop
  exact Problem.reconcile_eq_error.2
    ⟨reached.1, reached.2, t, fill_eq_stopped.2 (.inr (.inl ⟨start, pinned, grouped⟩))⟩

theorem groupOf?_of_together (inside : session < p.sessionCount)
    (turn : AtTurn p session clique s) (placed : placeClique p s clique = .done t) {index : Nat}
    (together : Together clique index t) {schedule : Schedule}
    (h : p.reconcile previous seeding = .ok schedule) {member : String} (hm : member ∈ clique) :
    schedule.groupOf? session member = some (p.groupId index) := by
  obtain ⟨start, before, after, pinned, split, through⟩ := turn
  obtain ⟨a, b, pinned', grouped, rest⟩ := fill_eq_done.1 ((reconcile_eq_ok h).1 session inside)
  rw [pinned] at pinned'
  obtain rfl := Attempt.done.inj pinned'
  rw [placeCliques, split, Attempt.each_append, through, Attempt.andThen,
    Attempt.each_cons_eq_done] at grouped
  obtain ⟨u, first, others⟩ := grouped
  rw [placed] at first
  obtain rfl := Attempt.done.inj first
  have growth : Grows p session t (Attempt.each (placeClique p) t after).seating :=
    grows_each (fun s c hc => grows_placeClique s (by simp [split, hc])) t
  rw [others] at growth
  have later := growth.trans ((grows_placeSeeded _ b).trans (grows_of_placeRemaining rest))
  have seated := later.placed (together member hm)
  rw [groupOf?_of_reconcile h, if_pos inside, seated, Option.map_some]

theorem Reaches.settledByRule (reached : p.Reaches previous seeding session)
    (turn : AtTurn p session clique s) : p.SettledByRule previous seeding session s clique := by
  have several : 0 < clique.length := by
    have := (mem_cliques.1 turn.mem_cliques).1
    omega
  refine ⟨turn.coherent.spare_eq, ?_, ?_, ?_, ?_⟩
  · intro unpinned index roomiest enough
    exact turn.placeClique_of_roomiest unpinned
      ((roomiest?_eq_some_iff several).2 ⟨roomiest, enough⟩)
  · intro unpinned small
    have nowhere : s.roomiest? p clique.length = none := by
      rw [Option.eq_none_iff_forall_ne_some]
      intro index chosen
      obtain ⟨roomiest, enough⟩ := (roomiest?_eq_some_iff several).1 chosen
      have := small index roomiest
      omega
    exact reached.reconcile_eq_error turn (turn.placeClique_of_no_room unpinned nowhere)
  · intro group someone only
    obtain ⟨member, hm, pin⟩ := someone
    obtain ⟨index, declared, _⟩ := turn.sitsIn pin
    have step := turn.placeClique_of_pinned declared ⟨member, hm, pin⟩ only
    refine ⟨index, declared, ?_, fun crowded => ?_⟩
    · rw [step, turn.each_putInto_free_eq_done]
      exact and_iff_left rfl
    · cases ended : placeClique p s clique with
      | done t =>
        rw [step, turn.each_putInto_free_eq_done] at ended
        omega
      | stopped t why =>
        obtain ⟨person, unplaced, rfl⟩ := exists_of_each_putInto_eq_stopped (step.symm.trans ended)
        rw [groupId_of_groupIndex? declared] at ended
        exact ⟨person, unplaced, reached.reconcile_eq_error turn ended⟩
  · intro t placed
    obtain ⟨index, together⟩ := together_of_placeClique turn.mem_cliques placed
    exact ⟨index, together, fun _ h _ hm =>
      groupOf?_of_together reached.1 turn placed together h hm⟩

theorem Reaches.cliqueConflict_iff (reached : p.Reaches previous seeding session)
    (pins : ∃ start, placePinned p session (empty p) = .done start) :
    (∃ members first second, p.reconcile previous seeding =
        .error ⟨session, .cliqueConflict members first second⟩) ↔
      ∃ clique s, AtTurn p session clique s ∧ (¬ ∃ t, placeClique p s clique = .done t) ∧
        p.Torn session clique := by
  constructor
  · intro h
    obtain ⟨members, first, second, stop⟩ := h
    obtain ⟨-, -, t, stop⟩ := Problem.reconcile_eq_error.1 stop
    obtain ⟨start, through⟩ := pins
    obtain pinned | ⟨a, pinned, grouped⟩ | ⟨a, b, pinned, grouped, rest⟩ := fill_eq_stopped.1 stop
    · simp [pinned] at through
    · obtain ⟨before, clique, after, s, split, walked, stop⟩ :=
        exists_split_of_each_eq_stopped grouped
      have turn : AtTurn p session clique s := ⟨a, before, after, pinned, split, walked⟩
      obtain infeasible | ⟨_, _, _, _, crowded⟩ | ⟨x, hx, y, hy, i, j, hi, hj, apart⟩ :=
        placeClique_eq_stopped stop
      · simp at infeasible
      · simp at crowded
      · obtain ⟨one, pinOne, declaredOne⟩ := (turn.placed_iff hx).1 hi
        obtain ⟨two, pinTwo, declaredTwo⟩ := (turn.placed_iff hy).1 hj
        refine ⟨clique, s, turn, by simp [stop], x, hx, y, hy, one, two, ?_, pinOne, pinTwo⟩
        intro same
        rw [same, declaredTwo] at declaredOne
        exact apart (Option.some.inj declaredOne).symm
    · have records := coherent_placeSeeded pinned grouped (wishes previous seeding session)
      obtain ⟨⟨person, other⟩, -⟩ := seats_lt_of_placeRemaining records rest
      simp at other
  · intro h
    obtain ⟨clique, s, turn, -, a, ha, b, hb, first, second, apart, pinA, pinB⟩ := h
    obtain ⟨x, y, stop⟩ := turn.placeClique_of_torn ha hb pinA pinB apart
    exact ⟨clique, x, y, reached.reconcile_eq_error turn stop⟩

end Problem

/-- In a session that is reached and whose pins come through, every clique is settled by the
rule when its turn comes. -/
theorem cliques_settledByRule {p : Problem} {previous : List Assignment} {seeding : Bool}
    {session : Nat} (reached : p.Reaches previous seeding session)
    (pins : ∃ start, Seating.placePinned p session (.empty p) = .done start) :
    (∀ clique s, Seating.AtTurn p session clique s →
      p.SettledByRule previous seeding session s clique) ∧
    ((∃ members first second, p.reconcile previous seeding =
        .error ⟨session, .cliqueConflict members first second⟩) ↔
      ∃ clique s, Seating.AtTurn p session clique s ∧
        (¬ ∃ t, Seating.placeClique p s clique = .done t) ∧ p.Torn session clique) :=
  ⟨fun _ _ turn => reached.settledByRule turn, reached.cliqueConflict_iff pins⟩

def ensemble : Problem where
  people := [⟨"a", .empty, none⟩, ⟨"b", .empty, none⟩, ⟨"c", .empty, none⟩, ⟨"d", .empty, none⟩,
    ⟨"e", .empty, none⟩]
  groups := [⟨"x", 3⟩, ⟨"y", 3⟩]
  sessionCount := 2
  constraints := [.rule (.mustStayTogether ["d", "e"]), .rule (.mustStayTogether ["a", "b", "c"]),
    .rule (.immovablePerson "d" "x") (some [0]), .rule (.immovablePerson "a" "x") (some [1]),
    .rule (.immovablePerson "c" "y") (some [1])]

def ensembleStart : Seating := (Seating.empty ensemble).put "d" 0

def ensembleEnd : Seating := (ensembleStart.putAll 1 ["a", "b", "c"]).putAll 0 ["e"]

theorem cliques_settledByRule_ensemble :
    (∃ s t, Seating.AtTurn ensemble 0 ["a", "b", "c"] s ∧
      Seating.placeClique ensemble s ["a", "b", "c"] = .done (s.putAll 1 ["a", "b", "c"]) ∧
      Seating.AtTurn ensemble 0 ["d", "e"] t ∧
      Seating.placeClique ensemble t ["d", "e"] = .done (t.putAll 0 ["e"])) ∧
    ensemble.Reaches [] true 1 ∧
    ∃ members first second,
      ensemble.reconcile [] = .error ⟨1, .cliqueConflict members first second⟩ := by
  have pinned : Seating.placePinned ensemble 0 (.empty ensemble) = .done ensembleStart := by
    decide +kernel
  have pins : ensemble.pins 0 = [("d", "x")] := by decide
  have listed : ensemble.cliques 0 (ensemble.activeIds 0) = [["a", "b", "c"], ["d", "e"]] :=
    Problem.cliques_eq_of_sorted (by decide +kernel) (by decide)
  have settled : ∀ clique s, Seating.AtTurn ensemble 0 clique s →
      ensemble.SettledByRule [] true 0 s clique :=
    (cliques_settledByRule ⟨by decide, by simp⟩ ⟨ensembleStart, pinned⟩).1
  have first : Seating.AtTurn ensemble 0 ["a", "b", "c"] ensembleStart :=
    ⟨ensembleStart, [], [["d", "e"]], pinned, listed, rfl⟩
  have whole := (settled _ _ first).whole (by decide) 1
    ⟨by decide, by decide +kernel, by decide +kernel⟩ (by decide +kernel)
  have second : Seating.AtTurn ensemble 0 ["d", "e"] (ensembleStart.putAll 1 ["a", "b", "c"]) :=
    ⟨ensembleStart, [["a", "b", "c"]], [], pinned, listed,
      Attempt.each_cons_eq_done.2 ⟨_, whole, rfl⟩⟩
  obtain ⟨index, declared, follows, -⟩ := (settled _ _ second).follow "x"
    (by simp [pins]) (by simp [pins])
  obtain rfl : 0 = index := Option.some.inj declared
  have reached : ensemble.Reaches [] true 1 := by
    refine ⟨by decide, fun t before => ?_⟩
    obtain rfl : t = 0 := by omega
    have placed : Seating.placeCliques ensemble 0 ensembleStart = .done ensembleEnd := by
      rw [Seating.placeCliques, listed]
      exact Attempt.each_cons_eq_done.2 ⟨_, whole, Attempt.each_cons_eq_done.2
        ⟨_, follows.2 (by decide +kernel), rfl⟩⟩
    exact ⟨ensembleEnd, Seating.fill_eq_done.2
      ⟨ensembleStart, ensembleEnd, pinned, placed, by decide +kernel⟩⟩
  have pinnedApart : Seating.placePinned ensemble 1 (.empty ensemble) =
      .done (((Seating.empty ensemble).put "a" 0).put "c" 1) := by decide +kernel
  have listedApart : ensemble.cliques 1 (ensemble.activeIds 1) = [["a", "b", "c"], ["d", "e"]] :=
    Problem.cliques_eq_of_sorted (by decide +kernel) (by decide)
  have stuck : Seating.placeClique ensemble (((Seating.empty ensemble).put "a" 0).put "c" 1)
      ["a", "b", "c"] = .stopped (((Seating.empty ensemble).put "a" 0).put "c" 1)
        (.cliqueConflict ["a", "b", "c"] "x" "y") := by decide +kernel
  refine ⟨⟨_, _, first, whole, second, follows.2 (by decide +kernel)⟩, reached, ?_⟩
  refine (cliques_settledByRule reached ⟨_, pinnedApart⟩).2.2 ⟨["a", "b", "c"], _,
    ⟨_, [], [["d", "e"]], pinnedApart, listedApart, rfl⟩, by simp [stuck], ?_⟩
  exact ⟨"a", by decide, "c", by decide, "x", "y", by decide, by decide, by decide⟩

end Roster
