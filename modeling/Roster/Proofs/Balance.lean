import Mathlib.Data.List.ProdSigma
import Roster.Proofs.Flatten

/-! Headcounts against their targets, exactly. What is off is added up in 32 bits over the covered
sessions and the wanted values, and the sum comes through just when it fits. Someone counts by
their last declaration and as often as they are listed, and whoever is not declared does not. -/

namespace Roster

def addCount (sum n : Nat) : Except Overflow Nat :=
  if sum + n < countLimit then .ok (sum + n) else .error .addition

theorem foldlM_addCount {α : Type} (n : α → Nat) {l : List α} {sum : Nat}
    (fits : sum < countLimit) :
    l.foldlM (fun sum a => addCount sum (n a)) sum =
      if sum + total (l.map n) < countLimit then .ok (sum + total (l.map n))
      else .error .addition := by
  induction l generalizing sum with
  | nil => exact (if_pos fits).symm
  | cons a rest ih =>
    rw [List.foldlM_cons, List.map_cons, total_cons, ← Nat.add_assoc, addCount]
    split
    · rename_i next
      exact ih next
    · rename_i above
      rw [if_neg (by omega)]
      rfl

namespace Verdict

theorem sum_map_sum {α β : Type} (f : α → β → Verdict) (l : List α) (m : List β) :
    sum (l.map fun a => sum (m.map (f a))) = sum ((l ×ˢ m).map fun e => f e.1 e.2) := by
  induction l with
  | nil => rfl
  | cons a rest ih =>
    rw [List.map_cons, sum_cons, ih, List.product_cons, List.map_append, sum_append, List.map_map]
    rfl

end Verdict

def BalanceMode.distance (mode : BalanceMode) (desired actual : Nat) : Nat :=
  match mode with
  | exact => ((desired : Int) - actual).natAbs
  | atLeast => (max 0 ((desired : Int) - actual)).toNat

theorem BalanceMode.deviation_eq_distance (mode : BalanceMode) (desired actual : Nat) :
    mode.deviation desired actual = mode.distance desired actual := by
  cases mode with
  | exact =>
    rw [deviation, distance]
    omega
  | atLeast =>
    rw [deviation, distance]
    omega

namespace Problem

variable {p : Problem} {s : Schedule} {t : Nat} {group key value id : String}

/-- The last declaration of a person among those of the same id. -/
def LastDeclared (p : Problem) (person : Person) : Prop :=
  ∃ earlier later, p.people = earlier ++ person :: later ∧ ∀ other ∈ later, other.id ≠ person.id

def HasValue (p : Problem) (key value id : String) : Prop :=
  ∃ person, p.LastDeclared person ∧ person.id = id ∧ person.attribute? key = some value

theorem find?_reverse_people_eq_some {person : Person} :
    p.people.reverse.find? (·.id = id) = some person ↔ p.LastDeclared person ∧ person.id = id := by
  simp only [find?_reverse_eq_some, LastDeclared, decide_eq_true_eq, Bool.not_eq_true',
    decide_eq_false_iff_not]
  constructor
  · intro h
    obtain ⟨rfl, last⟩ := h
    exact ⟨last, rfl⟩
  · intro h
    obtain ⟨last, rfl⟩ := h
    exact ⟨rfl, last⟩

theorem hasValue_iff : p.HasValue key value id ↔
    (p.people.reverse.find? (·.id = id)).bind (·.attribute? key) = some value := by
  simp only [HasValue, Option.bind_eq_some_iff, find?_reverse_people_eq_some, and_assoc]

instance (p : Problem) (key value id : String) : Decidable (p.HasValue key value id) :=
  decidable_of_iff _ hasValue_iff.symm

def headcount (p : Problem) (s : Schedule) (t : Nat) (group key value : String) : Nat :=
  ((s.peopleIn t group).filter (p.HasValue key value ·)).length

theorem headcount_of (p : Problem) (s : Schedule) (t : Nat) (group key value : String) :
    (View.of p s).headcount key value (s.peopleIn t group) = p.headcount s t group key value := by
  rw [View.headcount, headcount]
  refine congrArg List.length (List.filter_congr fun id _ => ?_)
  rw [decide_eq_decide]
  exact hasValue_iff.symm

theorem headcount_le (p : Problem) (s : Schedule) (t : Nat) (group key value : String) :
    p.headcount s t group key value ≤ s.assignmentCount := by
  calc p.headcount s t group key value
      ≤ (s.peopleIn t group).length := List.length_filter_le ..
    _ ≤ s.toAssignments.length := by
        rw [← s.peopleIn_ofAssignments_toAssignments, Schedule.peopleIn_ofAssignments,
          List.length_map]
        exact List.length_filter_le ..
    _ = s.assignmentCount := s.length_toAssignments

/-- The headcounts a balance looks at, session by session, each with the value and how many should
have it. -/
def targets (p : Problem) (c : Constraint) (desired : Headcounts) : List (Nat × String × Nat) :=
  (c.covered p.sessionCount).toList ×ˢ desired.entries

def missed (p : Problem) (s : Schedule) (group key : String) (mode : BalanceMode)
    (target : Nat × String × Nat) : Nat :=
  mode.distance target.2.2 (p.headcount s target.1 group key target.2.1)

def tally (p : Problem) (s : Schedule) (group key : String) (mode : BalanceMode)
    (targets : List (Nat × String × Nat)) : Except Overflow Nat :=
  targets.foldlM (fun sum target => addCount sum (p.missed s group key mode target)) 0

def imbalances (p : Problem) (s : Schedule) (group key : String) (mode : BalanceMode)
    (targets : List (Nat × String × Nat)) : List Finding :=
  (targets.filter (0 < p.missed s group key mode ·)).map fun target =>
    .attributeBalance target.1 group key target.2.1 target.2.2
      (p.headcount s target.1 group key target.2.1)

theorem tally_eq (p : Problem) (s : Schedule) (group key : String) (mode : BalanceMode)
    (targets : List (Nat × String × Nat)) : p.tally s group key mode targets =
      if total (targets.map (p.missed s group key mode)) < countLimit then
        .ok (total (targets.map (p.missed s group key mode)))
      else .error .addition := by
  rw [tally, foldlM_addCount _ (by decide), Nat.zero_add]

theorem inspect_attributeBalance (p : Problem) (s : Schedule) {c : Constraint}
    {group key : String} {desired : Headcounts} {mode : BalanceMode} {weight : Binary64}
    {sessions : Option (List Nat)}
    (balance : c = .rule (.attributeBalance group key desired mode weight) sessions) :
    (View.of p s).inspect (c.covered p.sessionCount) c =
      ⟨total ((p.targets c desired).map (p.missed s group key mode)),
        p.imbalances s group key mode (p.targets c desired)⟩ := by
  have each : (View.of p s).inspect (c.covered p.sessionCount) c =
      .sum ((p.targets c desired).map fun target =>
        .ofFinding (p.missed s group key mode target) (.attributeBalance target.1 group key
          target.2.1 target.2.2 (p.headcount s target.1 group key target.2.1))) := by
    rw [targets, ← Verdict.sum_map_sum fun t wanted =>
      .ofFinding (p.missed s group key mode (t, wanted)) (.attributeBalance t group key wanted.1
        wanted.2 (p.headcount s t group key wanted.1)), balance]
    refine congrArg Verdict.sum (List.map_congr_left fun t _ => ?_)
    refine congrArg Verdict.sum (List.map_congr_left fun wanted _ => ?_)
    simp only [missed, ← headcount_of, ← BalanceMode.deviation_eq_distance]
    rfl
  rw [each, Verdict.sum_map_ofFinding, imbalances]

end Problem

/-- A balance of headcounts is judged by exact arithmetic. Where the covered sessions can be
listed, all that is off is added up session by session and in each value by value, which comes
through exactly when the sum can be counted, and each headcount that is off is reported. -/
theorem judge_attributeBalance (p : Problem) {s : Schedule} (few : s.assignmentCount < countLimit)
    {c : Constraint} {group key : String} {desired : Headcounts} {mode : BalanceMode}
    {weight : Binary64} {sessions : Option (List Nat)}
    (balance : c = .rule (.attributeBalance group key desired mode weight) sessions) :
    (∀ t value, p.headcount s t group key value < countLimit) ∧
    (p.tally s group key mode (p.targets c desired) =
      if total ((p.targets c desired).map (p.missed s group key mode)) < countLimit then
        .ok (total ((p.targets c desired).map (p.missed s group key mode)))
      else .error .addition) ∧
    p.judge s c =
      if c.Listable p.sessionCount then
        (p.tally s group key mode (p.targets c desired)).map
          (⟨·, p.imbalances s group key mode (p.targets c desired)⟩)
      else .error .capacity := by
  have added := p.tally_eq s group key mode (p.targets c desired)
  refine ⟨fun t value => Nat.lt_of_le_of_lt (p.headcount_le s t group key value) few, added, ?_⟩
  rw [Problem.judge, View.judge, Constraint.listed, added]
  split
  · change Verdict.checked _ = _
    rw [p.inspect_attributeBalance s balance, Verdict.checked]
    split <;> rfl
  · rfl

def quartet : Problem where
  people := [⟨"a", .ofList [("voice", "alto")], none⟩, ⟨"b", .ofList [("voice", "bass")], none⟩,
    ⟨"a", .ofList [("voice", "bass")], none⟩]
  groups := [⟨"x", 4⟩]
  sessionCount := 2

def quartetSeats : Schedule :=
  .ofAssignments [⟨"a", "x", 0⟩, ⟨"guest", "x", 0⟩, ⟨"b", "x", 0⟩, ⟨"b", "x", 0⟩, ⟨"a", "x", 7⟩]

theorem judge_attributeBalance_quartet :
    quartetSeats.assignmentCount < countLimit ∧
      quartet.judge quartetSeats (.rule (.attributeBalance "x" "voice"
        (.ofList [("bass", 1), ("alto", 1), ("tenor", 0)])) (some [7, 0, 7])) =
        .ok ⟨4, [.attributeBalance 0 "x" "voice" "bass" 1 3,
          .attributeBalance 0 "x" "voice" "alto" 1 0,
          .attributeBalance 7 "x" "voice" "alto" 1 0]⟩ ∧
      quartet.judge quartetSeats (.rule (.attributeBalance "x" "voice"
        (.ofList [("bass", 4294967295), ("alto", 2), ("tenor", 2)]) .atLeast) (some [0])) =
        .error .addition := by
  have few : quartetSeats.assignmentCount < countLimit := by decide +kernel
  refine ⟨few, ?_, ?_⟩
  · obtain ⟨-, added, judged⟩ := judge_attributeBalance quartet few (c := .rule (.attributeBalance
      "x" "voice" (.ofList [("bass", 1), ("alto", 1), ("tenor", 0)])) (some [7, 0, 7])) rfl
    rw [judged, if_pos nofun, added, if_pos (by decide +kernel)]
    decide +kernel
  · obtain ⟨-, added, judged⟩ := judge_attributeBalance quartet few (c := .rule (.attributeBalance
      "x" "voice" (.ofList [("bass", 4294967295), ("alto", 2), ("tenor", 2)]) .atLeast)
      (some [0])) rfl
    rw [judged, if_pos nofun, added, if_neg (by decide +kernel)]
    rfl

/-- Where the sessions are too many to be listed a balance is not judged, also when nothing is
wanted and so nothing is off. -/
theorem judge_attributeBalance_nothing_wanted :
    Schedule.empty.assignmentCount < countLimit ∧
      total (((Problem.withSessions listLimit).targets
        (.rule (.attributeBalance "g" "k" .empty)) .empty).map
          ((Problem.withSessions listLimit).missed .empty "g" "k" .exact)) = 0 ∧
      (Problem.withSessions listLimit).judge .empty (.rule (.attributeBalance "g" "k" .empty)) =
        .error .capacity := by
  refine ⟨by decide, ?_, rfl⟩
  rw [Problem.targets, Headcounts.empty, List.product_nil]
  rfl

end Roster
