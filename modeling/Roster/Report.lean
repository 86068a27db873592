import Roster.Inspection

/-! One card per constraint, in declared order, and counters over the cards.
Violations are counted in 32 bits: one constraint with more of them ends the whole
evaluation. -/

namespace Roster

structure Card where
  constraint : Constraint
  index : Nat
  verdict : Verdict
  deriving DecidableEq

namespace Card

def violations (c : Card) : Nat := c.verdict.violations

def findings (c : Card) : List Finding := c.verdict.findings

def adheres (c : Card) : Bool := c.violations == 0

def isHard (c : Card) : Bool := c.constraint.isHard

end Card

def Problem.cards (p : Problem) (s : Schedule) : List Card :=
  let view := View.of p s
  p.constraints.zipIdx.map fun (c, index) =>
    ⟨c, index, view.inspect (c.covered p.sessionCount) c⟩

/-- Look at a schedule as it stands. The first constraint without a verdict ends it. -/
def Problem.evaluate (p : Problem) (s : Schedule) : Except Overflow (List Card) :=
  let view := View.of p s
  p.constraints.zipIdx.mapM fun (c, index) =>
    (view.judge p.sessionCount c).map (⟨c, index, ·⟩)

def Problem.evaluateAssignments (p : Problem) (l : List Assignment) : Except Overflow (List Card) :=
  p.evaluate (.ofAssignments l)

def Problem.judge (p : Problem) (s : Schedule) (c : Constraint) : Except Overflow Verdict :=
  (View.of p s).judge p.sessionCount c

theorem Problem.evaluate_eq_mapM (p : Problem) (s : Schedule) : p.evaluate s =
    p.constraints.zipIdx.mapM fun (c, index) => (p.judge s c).map (⟨c, index, ·⟩) := rfl

theorem View.judge_of_listable (v : View) {count : Nat} {c : Constraint}
    (listable : c.Listable count) : v.judge count c = (v.inspect (c.covered count) c).checked := by
  rw [judge, Constraint.listed, if_pos listable]
  rfl

theorem View.judge_eq_ok {v : View} {count : Nat} {c : Constraint} {verdict : Verdict} :
    v.judge count c = .ok verdict ↔ (c.Listable count ∧
      (v.inspect (c.covered count) c).violations < countLimit) ∧
      verdict = v.inspect (c.covered count) c := by
  unfold judge Constraint.listed Verdict.checked
  by_cases h : c.Listable count
  · by_cases hv : (v.inspect (c.covered count) c).violations < countLimit
    · simp [h, hv, Except.bind, eq_comm]
    · simp [h, hv, Except.bind]
  · simp [h, Except.bind]

theorem Problem.judge_eq_ok {p : Problem} {s : Schedule} {c : Constraint} {verdict : Verdict} :
    p.judge s c = .ok verdict ↔ (c.Listable p.sessionCount ∧
      ((View.of p s).inspect (c.covered p.sessionCount) c).violations < countLimit) ∧
      verdict = (View.of p s).inspect (c.covered p.sessionCount) c :=
  View.judge_eq_ok

/-- When each step comes through exactly under a condition, with one result, the whole
walk comes through exactly when all conditions hold. -/
theorem mapM_eq_ok {ε α β : Type} {f : α → Except ε β} {ok : α → Prop} {result : α → β}
    (h : ∀ a b, f a = .ok b ↔ ok a ∧ b = result a) {l : List α} {r : List β} :
    l.mapM f = .ok r ↔ (∀ a ∈ l, ok a) ∧ r = l.map result := by
  induction l generalizing r with
  | nil => simp [pure, Except.pure, eq_comm]
  | cons a rest ih =>
    rw [List.mapM_cons]
    cases ha : f a with
    | error e =>
      have : ¬ ok a := fun hok => by simp [(h a _).2 ⟨hok, rfl⟩] at ha
      simp [bind, Except.bind, this]
    | ok b =>
      obtain ⟨hok, rfl⟩ := (h a b).1 ha
      cases hr : rest.mapM f with
      | error e =>
        have : ¬ ∀ a ∈ rest, ok a := fun hall => by simp [ih.2 ⟨hall, rfl⟩] at hr
        simp [bind, Except.bind, hok, this]
      | ok bs =>
        obtain ⟨hall, rfl⟩ := ih.1 hr
        have : ∀ c ∈ a :: rest, ok c := List.forall_mem_cons.2 ⟨hok, hall⟩
        rw [and_iff_right this]
        exact ⟨fun h => (Except.ok.inj h).symm, fun h => congrArg Except.ok h.symm⟩

theorem mapM_congr {ε α β : Type} {f g : α → Except ε β} {l : List α}
    (same : ∀ a ∈ l, f a = g a) : l.mapM f = l.mapM g := by
  induction l with
  | nil => rfl
  | cons a rest ih =>
    obtain ⟨first, others⟩ := List.forall_mem_cons.1 same
    rw [List.mapM_cons, List.mapM_cons, first, ih others]

theorem forall_mem_zipIdx {α : Type} (holds : α → Prop) (l : List α) :
    (∀ e ∈ l.zipIdx, holds e.1) ↔ ∀ a ∈ l, holds a := by
  conv => rhs; rw [← List.zipIdx_map_fst 0 l]
  exact List.forall_mem_map.symm

theorem Problem.evaluate_eq_ok {p : Problem} {s : Schedule} {cards : List Card} :
    p.evaluate s = .ok cards ↔ (∀ c ∈ p.constraints, c.Listable p.sessionCount) ∧
      (∀ c ∈ p.cards s, c.violations < countLimit) ∧ cards = p.cards s := by
  have step : ∀ (e : Constraint × Nat) (card : Card),
      (((View.of p s).judge p.sessionCount e.1).map fun verdict => Card.mk e.1 e.2 verdict) =
        .ok card ↔ (e.1.Listable p.sessionCount ∧
          ((View.of p s).inspect (e.1.covered p.sessionCount) e.1).violations < countLimit) ∧
          card = ⟨e.1, e.2, (View.of p s).inspect (e.1.covered p.sessionCount) e.1⟩ := by
    intro e card
    cases h : (View.of p s).judge p.sessionCount e.1 with
    | error why =>
      have := fun hok => h.symm.trans (View.judge_eq_ok.2 ⟨hok, rfl⟩)
      exact iff_of_false nofun fun hok => nomatch this hok.1
    | ok verdict =>
      obtain ⟨hok, rfl⟩ := View.judge_eq_ok.1 h
      simp [Except.map, hok, eq_comm]
  refine (mapM_eq_ok step).trans ?_
  rw [← forall_mem_zipIdx (Constraint.Listable · p.sessionCount), Problem.cards,
    List.forall_mem_map, ← and_assoc]
  exact and_congr_left fun _ => ⟨fun h => ⟨fun e he => (h e he).1, fun e he => (h e he).2⟩,
    fun h e he => ⟨h.1 e he, h.2 e he⟩⟩

theorem Problem.map_constraint_cards (p : Problem) (s : Schedule) :
    (p.cards s).map (·.constraint) = p.constraints := by
  simp [cards, Function.comp_def, List.zipIdx_map_fst]

structure Summary where
  constraints : Nat
  violated : Nat
  violations : Nat
  hardViolations : Nat
  deriving DecidableEq

namespace Summary

def ofCards (cards : List Card) : Summary where
  constraints := cards.length
  violated := (cards.filter (!·.adheres)).length
  violations := total (cards.map (·.violations))
  hardViolations := total ((cards.filter (·.isHard)).map (·.violations))

def hasHardViolations (s : Summary) : Bool := 0 < s.hardViolations

end Summary

end Roster
