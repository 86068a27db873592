import Roster.Proofs.Written

/-! How a reconciliation ends, told by its sessions: with a schedule when each of them can be
filled, and otherwise in the first that cannot, at the obstacle met there. -/

namespace Roster.Problem

open Seating

variable {p : Problem}

theorem fillFrom_eq_error {wish : Nat → String → Option String} {count session : Nat}
    {start : Schedule} {i : Impasse} :
    p.fillFrom wish count session start = .error i ↔
      session ≤ i.session ∧ i.session < session + count ∧
        (∀ t, session ≤ t → t < i.session → ∃ s, fill p t (wish t) = .done s) ∧
        ∃ s, fill p i.session (wish i.session) = .stopped s i.obstacle := by
  induction count generalizing session start with
  | zero =>
    rw [fillFrom]
    constructor
    · intro h
      simp at h
    · intro h
      obtain ⟨least, most, -⟩ := h
      omega
  | succ count ih =>
    obtain ⟨place, why⟩ := i
    rw [fillFrom]
    cases first : fill p session (wish session) with
    | stopped s obstacle =>
      constructor
      · intro h
        obtain ⟨rfl, rfl⟩ := Impasse.mk.inj (Except.error.inj h)
        exact ⟨le_refl _, by simp, fun t least before => absurd before (by simpa using least),
          s, first⟩
      · intro h
        obtain ⟨least, -, before, t, stop⟩ := h
        cases Nat.eq_or_lt_of_le least with
        | inl same =>
          simp only at same
          subst same
          rw [first] at stop
          rw [(Attempt.stopped.inj stop).2]
        | inr more =>
          obtain ⟨u, through⟩ := before session (le_refl _) more
          rw [first] at through
          simp at through
    | done s =>
      refine ih.trans ⟨?_, ?_⟩
      · intro h
        obtain ⟨least, most, before, stop⟩ := h
        refine ⟨by omega, by omega, fun t low high => ?_, stop⟩
        cases Nat.eq_or_lt_of_le low with
        | inl same => exact ⟨s, same ▸ first⟩
        | inr more => exact before t more high
      · intro h
        obtain ⟨least, most, before, stop⟩ := h
        have later : place ≠ session := by
          intro same
          simp only [same, first] at stop
          simp at stop
        refine ⟨?_, by omega, fun t low high => before t (by omega) high, stop⟩
        simp only at least ⊢
        omega

variable {previous : List Assignment} {seeding : Bool}

theorem reconcile_eq_error {i : Impasse} :
    p.reconcile previous seeding = .error i ↔ i.session < p.sessionCount ∧
      (∀ t < i.session, ∃ s, fill p t (wishes previous seeding t) = .done s) ∧
      ∃ s, fill p i.session (wishes previous seeding i.session) = .stopped s i.obstacle := by
  refine fillFrom_eq_error.trans ?_
  simp only [Nat.zero_le, true_and, Nat.zero_add, true_implies]
  rfl

theorem reconcile_ok_iff :
    (∃ schedule, p.reconcile previous seeding = .ok schedule) ↔
      ∀ t < p.sessionCount, ∃ s, fill p t (wishes previous seeding t) = .done s := by
  constructor
  · intro h t inside
    obtain ⟨schedule, ended⟩ := h
    exact ⟨_, (reconcile_eq_ok ended).1 t inside⟩
  · intro filled
    cases ended : p.reconcile previous seeding with
    | ok schedule => exact ⟨schedule, rfl⟩
    | error i =>
      obtain ⟨inside, -, s, stop⟩ := reconcile_eq_error.1 ended
      obtain ⟨t, through⟩ := filled i.session inside
      rw [stop] at through
      simp at through

end Roster.Problem
