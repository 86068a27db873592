import Mathlib.Data.Finset.Sort
import Roster.Proofs.Lookup
import Roster.Proofs.Placement
import Roster.Report

/-! What inspections find of hard rules in a reconciled schedule. A pin is violated exactly
in the listed sessions that the problem does not have, and a rule to stay together exactly
where it names someone active and someone who is not; nothing else is left to find. -/

namespace Roster

theorem length_places_sub_one {people : List String} {place : String → Option String}
    {present : String → Prop} [DecidablePred present] {group : String}
    (placed : ∀ a ∈ people, present a → place a = some group)
    (away : ∀ b ∈ people, ¬ present b → place b = none) :
    (people.map place).eraseDups.length - 1 =
      if (∃ a ∈ people, present a) ∧ ∃ b ∈ people, ¬ present b then 1 else 0 := by
  split
  · rename_i mixed
    obtain ⟨⟨a, ha, here⟩, b, hb, gone⟩ := mixed
    have two : (people.map place).toFinset = {some group, none} := by
      ext found
      simp only [List.mem_toFinset, List.mem_map, Finset.mem_insert, Finset.mem_singleton]
      constructor
      · intro named
        obtain ⟨c, hc, rfl⟩ := named
        by_cases here : present c
        · exact .inl (placed c hc here)
        · exact .inr (away c hc here)
      · intro either
        cases either with
        | inl seated => exact ⟨a, ha, by rw [seated, placed a ha here]⟩
        | inr unseated => exact ⟨b, hb, by rw [unseated, away b hb gone]⟩
    rw [length_eraseDups, two, Finset.card_pair (by simp)]
  · rename_i alike
    have one : ∃ found, ∀ c ∈ people, place c = found := by
      by_cases someone : ∃ a ∈ people, present a
      · refine ⟨some group, fun c hc => placed c hc ?_⟩
        by_contra gone
        exact alike ⟨someone, c, hc, gone⟩
      · exact ⟨none, fun c hc => away c hc fun here => someone ⟨c, hc, here⟩⟩
    exact Nat.sub_eq_zero_of_le (length_eraseDups_map_le_one.2 one)

theorem View.violations_immovablePeople (v : View) (people : List String) (group : String)
    (t : Nat) : (v.immovablePeople people group t).violations =
      (people.filter (· ∉ v.schedule.peopleIn t group)).length := by
  rw [immovablePeople, Verdict.violations_sum_map]
  simp only [Verdict.violations_ofFinding]
  rw [total_map_const, Nat.one_mul]

namespace Constraint

def beyond (c : Constraint) (count : Nat) : Nat :=
  ((c.sessions?.getD []).toFinset.filter (count ≤ ·)).card

theorem nodup_covered (c : Constraint) (count : Nat) : (c.covered count).toList.Nodup :=
  (c.covered count).ascending.imp Nat.ne_of_lt

theorem length_filter_covered (c : Constraint) (count : Nat) (keep : Nat → Prop)
    [DecidablePred keep] : ((c.covered count).toList.filter (keep ·)).length =
      ((c.covered count).toList.toFinset.filter keep).card := by
  rw [← List.toFinset_card_of_nodup ((c.nodup_covered count).filter _), List.toFinset_filter]
  simp

theorem total_covered (c : Constraint) (count n : Nat) {found : Nat → Nat} (keep : Nat → Prop)
    [DecidablePred keep] (each : ∀ t, c.AppliesTo t → found t = if keep t then n else 0) :
    total ((c.covered count).toList.map found) =
      n * ((c.covered count).toList.filter (keep ·)).length := by
  rw [← total_map_ite]
  congr 1
  apply List.map_congr_left
  intro t ht
  exact each t (mem_covered.1 (SessionSet.mem_def.2 ht)).1

theorem length_covered_beyond (c : Constraint) (count : Nat) :
    ((c.covered count).toList.filter (count ≤ ·)).length = c.beyond count := by
  rw [length_filter_covered, beyond]
  congr 1
  ext t
  rw [Finset.mem_filter, Finset.mem_filter, List.mem_toFinset, List.mem_toFinset,
    ← SessionSet.mem_def, mem_covered]
  apply and_congr_left
  intro far
  cases listed : c.sessions? with
  | none => simp [Nat.not_lt.2 far]
  | some sessions => simp [AppliesTo, listed]

end Constraint

namespace Problem

def mixed (p : Problem) (c : Constraint) : Nat :=
  ((Finset.range p.sessionCount).filter fun t => c.AppliesTo t ∧
    (∃ a ∈ c.people, a ∈ p.activeIds t) ∧ ∃ b ∈ c.people, b ∉ p.activeIds t).card

/-- The violations of a hard constraint that are left in every reconciled schedule. -/
def residue? (p : Problem) (c : Constraint) : Option Nat :=
  match c with
  | .rule (.immovablePerson _ _) _ => some (c.beyond p.sessionCount)
  | .rule (.immovablePeople people _) _ => some (people.length * c.beyond p.sessionCount)
  | .rule (.mustStayTogether _) _ => some (p.mixed c)
  | _ => none

theorem exists_residue? (p : Problem) {c : Constraint} (hard : c.isHard) :
    ∃ n, p.residue? c = some n := by
  unfold residue?
  split
  · exact ⟨_, rfl⟩
  · exact ⟨_, rfl⟩
  · exact ⟨_, rfl⟩
  · rename_i rest
    cases c with
    | rule r sessions => cases r <;> simp_all [Constraint.isHard, Rule.isHard]
    | repeatEncounter => simp [Constraint.isHard] at hard
    | unknown => simp [Constraint.isHard] at hard

/-- The hard constraints ask for nothing that no schedule of the active people can give. -/
structure Meetable (p : Problem) : Prop where
  inRange : ∀ c ∈ p.constraints, c.isHard → ∀ listed ∈ c.sessions?, ∀ t ∈ listed,
    t < p.sessionCount
  unmixed : ∀ people sessions, .rule (.mustStayTogether people) sessions ∈ p.constraints →
    ∀ t < p.sessionCount, (Constraint.rule (.mustStayTogether people) sessions).AppliesTo t →
      (∀ a ∈ people, a ∈ p.activeIds t) ∨ ∀ a ∈ people, a ∉ p.activeIds t

theorem Meetable.beyond_eq_zero {p : Problem} (m : p.Meetable) {c : Constraint}
    (hc : c ∈ p.constraints) (hard : c.isHard) : c.beyond p.sessionCount = 0 := by
  rw [Constraint.beyond, Finset.card_eq_zero, Finset.filter_eq_empty_iff]
  intro t ht
  rw [List.mem_toFinset] at ht
  cases listed : c.sessions? with
  | none => simp [listed] at ht
  | some sessions =>
    rw [listed, Option.getD_some] at ht
    exact Nat.not_le.2 (m.inRange c hc hard sessions listed t ht)

theorem Meetable.mixed_eq_zero {p : Problem} (m : p.Meetable) {people : List String}
    {sessions : Option (List Nat)}
    (hc : .rule (.mustStayTogether people) sessions ∈ p.constraints) :
    p.mixed (.rule (.mustStayTogether people) sessions) = 0 := by
  rw [mixed, Finset.card_eq_zero, Finset.filter_eq_empty_iff]
  intro t ht both
  obtain ⟨applies, ⟨a, ha, actA⟩, b, hb, actB⟩ := both
  cases m.unmixed people sessions hc t (Finset.mem_range.1 ht) applies with
  | inl all => exact actB (all b hb)
  | inr nobody => exact nobody a ha actA

theorem Meetable.residue?_eq {p : Problem} (m : p.Meetable) {c : Constraint}
    (hc : c ∈ p.constraints) (hard : c.isHard) : p.residue? c = some 0 := by
  obtain ⟨n, hn⟩ := p.exists_residue? hard
  unfold residue? at hn ⊢
  split at hn
  · rw [m.beyond_eq_zero hc hard]
  · rw [m.beyond_eq_zero hc hard, Nat.mul_zero]
  · rw [m.mixed_eq_zero hc]
  · simp at hn

theorem length_covered_mixed (p : Problem) (c : Constraint) :
    ((c.covered p.sessionCount).toList.filter fun t => t < p.sessionCount ∧
      (∃ a ∈ c.people, a ∈ p.activeIds t) ∧ ∃ b ∈ c.people, b ∉ p.activeIds t).length =
        p.mixed c := by
  rw [Constraint.length_filter_covered, mixed]
  congr 1
  ext t
  rw [Finset.mem_filter, Finset.mem_filter, List.mem_toFinset, Finset.mem_range,
    ← SessionSet.mem_def, Constraint.mem_covered]
  constructor
  · intro h
    exact ⟨h.2.1, h.1.1, h.2.2⟩
  · intro h
    exact ⟨⟨h.2.1, fun _ => h.1⟩, h.1, h.2.2⟩

variable {p : Problem} {previous : List Assignment} {seeding : Bool} {s : Schedule}

section Reconciled

variable (h : p.reconcile previous seeding = .ok s)

include h

theorem groupOf?_eq_none {t : Nat} {person : String}
    (away : t < p.sessionCount → person ∉ p.activeIds t) : s.groupOf? t person = none := by
  rw [groupOf?_of_reconcile h]
  split
  · rename_i inside
    have filling := (reconcile_eq_ok h).1 t inside
    have absent := mt (Seating.mem_seated_iff filling).1 (away inside)
    rw [(Seating.coherent_of_fill filling).fresh_iff.2 absent]
    rfl
  · rfl

theorem groupOf?_of_mem_pins {t : Nat} (inside : t < p.sessionCount) {person group : String}
    (pinned : (person, group) ∈ p.pins t) : s.groupOf? t person = some group := by
  have filling := (reconcile_eq_ok h).1 t inside
  obtain ⟨index, declared, seated⟩ := Seating.sitsIn_of_mem_pins filling pinned
  rw [groupOf?_of_reconcile h, if_pos inside, seated, Option.map_some,
    groupId_of_groupIndex? declared]

theorem mem_peopleIn_of_mem_pins {t : Nat} (inside : t < p.sessionCount) {person group : String}
    (pinned : (person, group) ∈ p.pins t) : person ∈ s.peopleIn t group := by
  have filling := (reconcile_eq_ok h).1 t inside
  obtain ⟨index, declared, seated⟩ := Seating.sitsIn_of_mem_pins filling pinned
  rw [peopleIn_of_reconcile h, if_pos inside, Seating.mem_members]
  exact ⟨index, ((Seating.coherent_of_fill filling).placed person index).1 seated,
    groupId_of_groupIndex? declared⟩

theorem exists_groupOf?_eq {t : Nat} (inside : t < p.sessionCount) {people : List String}
    (together : people ∈ p.togetherLists t) :
    ∃ group, ∀ a ∈ people, a ∈ p.activeIds t → s.groupOf? t a = some group := by
  have filling := (reconcile_eq_ok h).1 t inside
  by_cases someone : ∃ a ∈ people, a ∈ p.activeIds t
  · obtain ⟨a, ha, actA⟩ := someone
    obtain ⟨index, seated⟩ := Seating.exists_placed filling actA
    refine ⟨p.groupId index, fun b hb actB => ?_⟩
    have same : (p.seating (wishes previous seeding) t).placed.get? b = some index := by
      by_cases self : a = b
      · rw [← self, seated]
      · obtain ⟨clique, hc, memA, memB⟩ :=
          exists_clique_of_together together ha hb actA actB self
        obtain ⟨one, settled⟩ := Seating.together_of_mem_cliques filling hc
        rw [settled b memB, ← settled a memA, seated]
    rw [groupOf?_of_reconcile h, if_pos inside, same]
    rfl
  · push Not at someone
    exact ⟨"", fun a ha actA => absurd actA (someone a ha)⟩

end Reconciled

section Found

variable (h : p.reconcile previous seeding = .ok s) {people : List String} {person group : String}
  {sessions : Option (List Nat)} {t : Nat}

include h

theorem found_immovablePerson (hc : .rule (.immovablePerson person group) sessions ∈ p.constraints)
    (applies : (Constraint.rule (.immovablePerson person group) sessions).AppliesTo t) :
    ((View.of p s).immovablePerson person group t).violations =
      if p.sessionCount ≤ t then 1 else 0 := by
  rw [View.immovablePerson, View.groupOf?_of]
  by_cases far : p.sessionCount ≤ t
  · rw [groupOf?_eq_none h (fun inside => by omega), if_neg (by simp), if_pos far,
      Verdict.violations_ofFinding]
  · have pinned : (person, group) ∈ p.pins t :=
      List.mem_flatMap.2 ⟨_, hc, by simp [Constraint.pins, Rule.pins, applies]⟩
    rw [groupOf?_of_mem_pins h (Nat.not_le.1 far) pinned, if_pos rfl, if_neg far]
    rfl

theorem found_immovablePeople (hc : .rule (.immovablePeople people group) sessions ∈ p.constraints)
    (applies : (Constraint.rule (.immovablePeople people group) sessions).AppliesTo t) :
    ((View.of p s).immovablePeople people group t).violations =
      if p.sessionCount ≤ t then people.length else 0 := by
  rw [View.violations_immovablePeople]
  change (people.filter (· ∉ s.peopleIn t group)).length = _
  by_cases far : p.sessionCount ≤ t
  · rw [peopleIn_of_reconcile h, if_neg (Nat.not_lt.2 far), if_pos far]
    simp
  · rw [if_neg far, List.length_eq_zero_iff, List.filter_eq_nil_iff]
    intro person named
    have pinned : (person, group) ∈ p.pins t :=
      List.mem_flatMap.2 ⟨_, hc, by simpa [Constraint.pins, Rule.pins, applies] using named⟩
    simpa using mem_peopleIn_of_mem_pins h (Nat.not_le.1 far) pinned

theorem found_stayTogether (hc : .rule (.mustStayTogether people) sessions ∈ p.constraints)
    (applies : (Constraint.rule (.mustStayTogether people) sessions).AppliesTo t) :
    ((View.of p s).stayTogether people t).violations =
      if t < p.sessionCount ∧ (∃ a ∈ people, a ∈ p.activeIds t) ∧ ∃ b ∈ people, b ∉ p.activeIds t
        then 1 else 0 := by
  have places : people.map ((View.of p s).groupOf? t) = people.map (s.groupOf? t) :=
    List.map_congr_left fun person _ => View.groupOf?_of p s t person
  rw [View.stayTogether, Verdict.violations_ofFinding, places]
  by_cases inside : t < p.sessionCount
  · have together : people ∈ p.togetherLists t :=
      List.mem_filterMap.2 ⟨_, hc, by simp [applies]⟩
    obtain ⟨group, placed⟩ := exists_groupOf?_eq h inside together
    have away : ∀ b ∈ people, b ∉ p.activeIds t → s.groupOf? t b = none :=
      fun b _ absent => groupOf?_eq_none h fun _ => absent
    rw [length_places_sub_one placed away]
    simp only [inside, true_and]
  · have away : ∀ b ∈ people, ¬ False → s.groupOf? t b = none :=
      fun b _ _ => groupOf?_eq_none h fun within => absurd within inside
    have nobody : ∀ a ∈ people, False → s.groupOf? t a = some "" := fun _ _ => False.elim
    rw [length_places_sub_one nobody away]
    simp [inside]

theorem violations_inspect {c : Constraint} (hc : c ∈ p.constraints) {n : Nat}
    (hn : p.residue? c = some n) :
    ((View.of p s).inspect (c.covered p.sessionCount) c).violations = n := by
  unfold residue? at hn
  split at hn
  · rename_i person group sessions
    rw [← Option.some.inj hn, View.inspect, View.inspectRule, Verdict.violations_sum_map,
      Constraint.total_covered _ _ 1 _ (fun t applies => found_immovablePerson h hc applies),
      Constraint.length_covered_beyond, Nat.one_mul]
  · rename_i people group sessions
    rw [← Option.some.inj hn, View.inspect, View.inspectRule, Verdict.violations_sum_map,
      Constraint.total_covered _ _ _ _ (fun t applies => found_immovablePeople h hc applies),
      Constraint.length_covered_beyond]
  · rename_i people sessions
    rw [← Option.some.inj hn, View.inspect, View.inspectRule, Verdict.violations_sum_map,
      Constraint.total_covered _ _ 1 _ (fun t applies => found_stayTogether h hc applies),
      Nat.one_mul, ← length_covered_mixed]
    rfl
  · simp at hn

end Found

theorem violations_of_mem_cards {p : Problem} {previous : List Assignment} {seeding : Bool}
    {s : Schedule} (h : p.reconcile previous seeding = .ok s) {card : Card}
    (hcard : card ∈ p.cards s) {n : Nat} (hn : p.residue? card.constraint = some n) :
    card.violations = n := by
  obtain ⟨⟨c, index⟩, he, rfl⟩ := List.mem_map.1 hcard
  exact violations_inspect h (List.fst_mem_of_mem_zipIdx he) hn

theorem hardViolations_cards_eq_zero {p : Problem} {s : Schedule} :
    (Summary.ofCards (p.cards s)).hardViolations = 0 ↔ ∀ c ∈ p.constraints, c.isHard →
      ((View.of p s).inspect (c.covered p.sessionCount) c).violations = 0 := by
  rw [Summary.ofCards, total_eq_zero, List.forall_mem_map]
  simp only [List.mem_filter, and_imp, cards, List.forall_mem_map]
  exact forall_mem_zipIdx (fun c => c.isHard →
    ((View.of p s).inspect (c.covered p.sessionCount) c).violations = 0) p.constraints

theorem Meetable.hardViolations_eq_zero {p : Problem} (m : p.Meetable)
    {previous : List Assignment} {seeding : Bool} {s : Schedule}
    (h : p.reconcile previous seeding = .ok s) :
    (Summary.ofCards (p.cards s)).hardViolations = 0 :=
  hardViolations_cards_eq_zero.2 fun _ hc hard => violations_inspect h hc (m.residue?_eq hc hard)

/-- A reconciled schedule is evaluated whenever the counts fit, and leaves exactly the
residue of each hard constraint. -/
theorem evaluate_reconciled {p : Problem} {previous : List Assignment} {seeding : Bool}
    {s : Schedule} (h : p.reconcile previous seeding = .ok s) :
    ((∀ c ∈ p.constraints, c.Listable p.sessionCount) →
      (∀ card ∈ p.cards s, card.violations < countLimit) → p.evaluate s = .ok (p.cards s)) ∧
    ∀ cards, p.evaluate s = .ok cards →
      cards.map (·.constraint) = p.constraints ∧
      (∀ card ∈ cards, ∀ n, p.residue? card.constraint = some n → card.violations = n) ∧
      (p.Meetable → (Summary.ofCards cards).hardViolations = 0) := by
  constructor
  · intro listable small
    exact evaluate_eq_ok.2 ⟨listable, small, rfl⟩
  · intro cards evaluated
    obtain ⟨-, -, rfl⟩ := evaluate_eq_ok.1 evaluated
    refine ⟨p.map_constraint_cards s, ?_, ?_⟩
    · intro card hcard n hn
      exact violations_of_mem_cards h hcard hn
    · intro m
      exact m.hardViolations_eq_zero h

def strained : Problem where
  people := [⟨"a", .empty, none⟩, ⟨"b", .empty, none⟩, ⟨"d", .empty, some (.ofList [0])⟩]
  groups := [⟨"x", 2⟩, ⟨"y", 1⟩]
  sessionCount := 2
  constraints := [.rule (.immovablePerson "b" "y") (some [0, 5, 5]),
    .rule (.immovablePeople ["b", "b"] "y") (some [1, 7, 6]), .rule (.mustStayTogether ["a", "d"])]

def relaxed : Problem :=
  { strained with constraints := [.rule (.immovablePerson "b" "y"),
      .rule (.mustStayTogether ["a", "d"]) (some [0])] }

def strainedSeats : Schedule :=
  .ofAssignments [⟨"a", "x", 0⟩, ⟨"d", "x", 0⟩, ⟨"b", "y", 0⟩, ⟨"a", "x", 1⟩, ⟨"b", "y", 1⟩]

theorem meetable_relaxed : relaxed.Meetable where
  inRange := by decide
  unmixed people sessions hc := by
    simp only [relaxed, List.mem_cons, List.not_mem_nil, or_false, Constraint.rule.injEq,
      reduceCtorEq, false_and, false_or, Rule.mustStayTogether.injEq] at hc
    obtain ⟨rfl, rfl⟩ := hc
    decide

theorem evaluate_strained :
    (strained.reconcile [] = .ok strainedSeats ∧
      ∃ cards, strained.evaluate strainedSeats = .ok cards ∧
      cards.map (·.constraint) = strained.constraints ∧
      ∀ card ∈ cards, strained.residue? card.constraint = some card.violations) ∧
    strained.constraints.map strained.residue? = [some 1, some 4, some 1] ∧
    relaxed.reconcile [] = .ok strainedSeats ∧ ∃ cards, relaxed.evaluate strainedSeats = .ok cards ∧
      (Summary.ofCards cards).hardViolations = 0 := by
  have filled : strained.reconcile [] = .ok strainedSeats := by decide +kernel
  have refilled : relaxed.reconcile [] = .ok strainedSeats := by decide +kernel
  have evaluated := (evaluate_reconciled filled).1 (by decide) (by decide +kernel)
  have reevaluated := (evaluate_reconciled refilled).1 (by decide) (by decide +kernel)
  obtain ⟨listed, counted, -⟩ := (evaluate_reconciled filled).2 _ evaluated
  obtain ⟨-, -, clean⟩ := (evaluate_reconciled refilled).2 _ reevaluated
  have hard : ∀ c ∈ strained.constraints, c.isHard := by decide
  refine ⟨⟨filled, _, evaluated, listed, ?_⟩, by decide +kernel, refilled, _, reevaluated,
    clean meetable_relaxed⟩
  intro card hcard
  obtain ⟨n, hn⟩ := strained.exists_residue? (hard _ (listed ▸ List.mem_map_of_mem hcard))
  rw [counted card hcard n hn, hn]

end Problem

end Roster
