import Mathlib.Tactic.Common
import Roster.Seating

/-! Spare seats and the choice of the roomiest group: it is the earliest of those with the
most spare seats, and there is none exactly when no group has room enough. -/

namespace Roster

theorem Problem.groupSize_of_le {p : Problem} {index : Nat} (h : p.groups.length ≤ index) :
    p.groupSize index = 0 := by
  rw [groupSize, List.getElem?_eq_none h]
  rfl

theorem Problem.groupSize_of_lt {p : Problem} {index : Nat} (h : index < p.groups.length) :
    p.groupSize index = p.groups[index].size := by
  simp [groupSize, h]

theorem Problem.groupId_of_lt {p : Problem} {index : Nat} (h : index < p.groups.length) :
    p.groupId index = p.groups[index].id := by
  simp [groupId, h]

theorem Problem.groupId_of_groupIndex? {p : Problem} {group : String} {index : Nat}
    (h : p.groupIndex? group = some index) : p.groupId index = group := by
  obtain ⟨inside, same, _⟩ := List.findIdx?_eq_some_iff_getElem.1 h
  rw [groupId_of_lt inside]
  simpa using same

theorem Problem.eq_of_groupIndex?_eq {p : Problem} {first second : String} {index : Nat}
    (hf : p.groupIndex? first = some index) (hs : p.groupIndex? second = some index) :
    first = second :=
  (groupId_of_groupIndex? hf).symm.trans (groupId_of_groupIndex? hs)

namespace Seating

variable {p : Problem} {s : Seating}

theorem spare_of_le {index : Nat} (h : p.groups.length ≤ index) : s.spare p index = 0 := by
  rw [spare, Problem.groupSize_of_le h, Nat.zero_sub]

theorem lt_of_spare_pos {index : Nat} (h : 0 < s.spare p index) : index < p.groups.length := by
  by_contra out
  rw [spare_of_le (Nat.le_of_not_lt out)] at h
  exact Nat.lt_irrefl 0 h

/-- What is known of the best among the first groups. -/
inductive BestOf (p : Problem) (s : Seating) (needed count : Nat) : Option (Nat × Nat) → Prop
  | nobody (full : ∀ j < count, s.spare p j = 0 ∨ s.spare p j < needed) :
      BestOf p s needed count none
  | chosen {index : Nat} (inside : index < count) (room : 0 < s.spare p index)
      (enough : needed ≤ s.spare p index) (largest : ∀ j < count, s.spare p j ≤ s.spare p index)
      (first : ∀ j < index, s.spare p j < s.spare p index) :
      BestOf p s needed count (some (index, s.spare p index))

theorem BestOf.consider {needed count : Nat} {best : Option (Nat × Nat)}
    (h : s.BestOf p needed count best) :
    s.BestOf p needed (count + 1) (s.consider p needed best count) := by
  rw [Seating.consider]
  split
  · rename_i unfit
    cases h with
    | nobody full => exact .nobody (Nat.forall_lt_succ_right.2 ⟨full, unfit.symm⟩)
    | chosen inside room enough largest first =>
      exact .chosen (by omega) room enough
        (Nat.forall_lt_succ_right.2 ⟨largest, by omega⟩) first
  · rename_i fits
    cases h with
    | nobody full =>
      have more : ∀ j < count, s.spare p j < s.spare p count := fun j hj => by
        have := full j hj
        omega
      rw [if_pos nofun]
      exact .chosen (by omega) (by omega) (by omega)
        (Nat.forall_lt_succ_right.2 ⟨fun j hj => Nat.le_of_lt (more j hj), Nat.le_refl _⟩) more
    | chosen inside room enough largest first =>
      simp only [Option.mem_some_iff, forall_eq']
      split
      · rename_i more
        refine .chosen (by omega) (by omega) (by omega)
          (Nat.forall_lt_succ_right.2 ⟨fun j hj => ?_, Nat.le_refl _⟩) fun j hj => ?_
        · exact Nat.le_trans (largest j hj) (Nat.le_of_lt more)
        · exact Nat.lt_of_le_of_lt (largest j hj) more
      · rename_i less
        exact .chosen (by omega) room enough
          (Nat.forall_lt_succ_right.2 ⟨largest, Nat.le_of_not_lt less⟩) first

theorem bestOf_scan (p : Problem) (s : Seating) (needed count : Nat) :
    s.BestOf p needed count ((List.range count).foldl (s.consider p needed) none) := by
  induction count with
  | zero => exact .nobody nofun
  | succ count ih =>
    rw [List.range_succ, List.foldl_append]
    exact ih.consider

theorem exists_bestOf (p : Problem) (s : Seating) (needed : Nat) :
    ∃ best, s.roomiest? p needed = best.map Prod.fst ∧
      s.BestOf p needed p.groups.length best :=
  ⟨_, rfl, s.bestOf_scan p needed p.groups.length⟩

theorem roomiest?_eq_some {needed index : Nat} :
    s.roomiest? p needed = some index ↔
      0 < s.spare p index ∧ needed ≤ s.spare p index ∧ (∀ j, s.spare p j ≤ s.spare p index) ∧
        ∀ j < index, s.spare p j < s.spare p index := by
  obtain ⟨best, chosen, known⟩ := s.exists_bestOf p needed
  rw [chosen]
  cases known with
  | nobody full =>
    refine iff_of_false nofun fun h => ?_
    have := full index (lt_of_spare_pos h.1)
    omega
  | @chosen best inside room enough largest first =>
    rw [Option.map_some, Option.some_inj]
    constructor
    · intro same
      rw [← same]
      refine ⟨room, enough, fun j => ?_, first⟩
      cases Nat.lt_or_ge j p.groups.length with
      | inl within => exact largest j within
      | inr out =>
        rw [spare_of_le out]
        exact Nat.zero_le _
    · intro h
      obtain ⟨-, -, most, before⟩ := h
      have no_less := most best
      have no_more := largest index (lt_of_spare_pos (Nat.lt_of_lt_of_le room no_less))
      cases Nat.lt_trichotomy best index with
      | inl earlier => exact absurd (before best earlier) (by omega)
      | inr rest =>
        cases rest with
        | inl same => exact same
        | inr later => exact absurd (first index later) (by omega)

theorem roomiest?_eq_none {needed : Nat} :
    s.roomiest? p needed = none ↔ ∀ index, s.spare p index = 0 ∨ s.spare p index < needed := by
  obtain ⟨best, chosen, known⟩ := s.exists_bestOf p needed
  rw [chosen]
  cases known with
  | nobody full =>
    refine iff_of_true rfl fun index => ?_
    cases Nat.lt_or_ge index p.groups.length with
    | inl within => exact full index within
    | inr out => exact .inl (spare_of_le out)
  | @chosen best inside room enough largest first =>
    refine iff_of_false nofun fun h => ?_
    have := h best
    omega

theorem roomiest?_congr {q : Problem} {t : Seating} (spares : s.spare p = t.spare q)
    (groups : p.groups.length = q.groups.length) : s.roomiest? p = t.roomiest? q := by
  have considered : s.consider p = t.consider q := by
    funext needed best index
    rw [consider, consider, spares]
  funext needed
  rw [roomiest?, roomiest?, considered, groups]

end Seating

end Roster
