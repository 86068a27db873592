import Mathlib.Algebra.BigOperators.Group.Finset.Basic
import Mathlib.Data.Finset.Card
import Roster.Count

/-! Totals over lists: of what a list is filtered to, of constants, position by position and
entry by entry; how many different entries a list has and in which order they first come, and
when two ascending lists are the same. -/

namespace Roster

theorem total_eq_zero {l : List Nat} : total l = 0 ↔ ∀ n ∈ l, n = 0 := by
  induction l with
  | nil => simp
  | cons n rest ih => rw [total_cons, Nat.add_eq_zero_iff, ih, List.forall_mem_cons]

theorem le_total {n : Nat} {l : List Nat} (h : n ∈ l) : n ≤ total l := by
  induction l with
  | nil => simp at h
  | cons a rest ih =>
    rw [total_cons]
    cases List.mem_cons.1 h with
    | inl first => omega
    | inr later =>
      have := ih later
      omega

theorem total_perm {l m : List Nat} (order : l.Perm m) : total l = total m := by
  induction order with
  | nil => rfl
  | cons n _ ih => rw [total_cons, total_cons, ih]
  | swap a b rest =>
    simp only [total_cons]
    omega
  | trans _ _ first second => exact first.trans second

theorem total_map_const {α : Type} (n : Nat) (l : List α) :
    total (l.map fun _ => n) = n * l.length := by
  induction l with
  | nil => rfl
  | cons a rest ih =>
    rw [List.map_cons, total_cons, ih, List.length_cons, Nat.mul_succ, Nat.add_comm]

theorem total_map_add {α : Type} (f g : α → Nat) (l : List α) :
    total (l.map fun a => f a + g a) = total (l.map f) + total (l.map g) := by
  induction l with
  | nil => rfl
  | cons a rest ih =>
    simp only [List.map_cons, total_cons, ih]
    omega

theorem flatMap_replicate {α β : Type} (times : α → Nat) (b : β) (l : List α) :
    l.flatMap (fun a => List.replicate (times a) b) = List.replicate (total (l.map times)) b := by
  induction l with
  | nil => rfl
  | cons a rest ih =>
    rw [List.flatMap_cons, ih, List.replicate_append_replicate, List.map_cons, total_cons]

theorem total_filter {α : Type} (keep : α → Prop) [DecidablePred keep] (f : α → Nat) (l : List α) :
    total ((l.filter (keep ·)).map f) = total (l.map fun a => if keep a then f a else 0) := by
  induction l with
  | nil => rfl
  | cons a rest ih =>
    by_cases kept : keep a
    · simp [kept, ih]
    · simp [kept, ih]

theorem total_map_ite {α : Type} (holds : α → Prop) [DecidablePred holds] (n : Nat) (l : List α) :
    total (l.map fun a => if holds a then n else 0) = n * (l.filter (holds ·)).length := by
  rw [← total_filter, total_map_const]

/-- Pairs of entries that are related, counted from either side. -/
theorem total_length_filter_comm {α β : Type} (R : α → β → Prop) [∀ a b, Decidable (R a b)]
    (l : List α) (m : List β) : total (l.map fun a => (m.filter (R a ·)).length) =
      total (m.map fun b => (l.filter (R · b)).length) := by
  induction l with
  | nil => exact (total_eq_zero.2 (List.forall_mem_map.2 fun b _ => rfl)).symm
  | cons a rest ih =>
    have first : (m.filter (R a ·)).length = total (m.map fun b => if R a b then 1 else 0) := by
      rw [total_map_ite, Nat.one_mul]
    rw [List.map_cons, total_cons, ih, first, ← total_map_add]
    refine congrArg total (List.map_congr_left fun b _ => ?_)
    by_cases related : R a b
    · simp [related, Nat.add_comm]
    · simp [related]

theorem sum_range_getElem? {α : Type} (f : α → Nat) (l : List α) :
    ∑ index ∈ Finset.range l.length, (l[index]?.map f).getD 0 = total (l.map f) := by
  induction l with
  | nil => rfl
  | cons a rest ih =>
    rw [List.length_cons, Finset.sum_range_succ', List.map_cons, total_cons, ← ih, Nat.add_comm]
    simp

theorem sum_toFinset {α : Type} [DecidableEq α] {f : α → Nat} {l : List α} (distinct : l.Nodup) :
    ∑ a ∈ l.toFinset, f a = total (l.map f) := by
  induction l with
  | nil => rfl
  | cons a rest ih =>
    obtain ⟨absent, others⟩ := List.nodup_cons.1 distinct
    rw [List.toFinset_cons, Finset.sum_insert (by simpa using absent), ih others, List.map_cons,
      total_cons]

theorem nodup_eraseDups {α : Type} [BEq α] [LawfulBEq α] :
    (l : List α) → l.eraseDups.Nodup
  | [] => by simp
  | a :: rest => by
    rw [List.eraseDups_cons, List.nodup_cons, List.mem_eraseDups]
    exact ⟨by simp, nodup_eraseDups (rest.filter fun b => !b == a)⟩
termination_by l => l.length
decreasing_by exact Nat.lt_succ_of_le (List.length_filter_le _ _)

theorem pairwise_lt_zipIdx {α : Type} (l : List α) : l.zipIdx.Pairwise fun a b => a.2 < b.2 := by
  rw [← List.pairwise_map (f := Prod.snd) (R := (· < ·)), List.zipIdx_map_snd]
  exact List.pairwise_lt_range'

theorem pairwise_eraseDups_map {α β : Type} [BEq β] [LawfulBEq β] {R : α → α → Prop} (f : α → β) :
    (l : List α) → l.Pairwise R → (l.map f).eraseDups.Pairwise fun x y =>
      ∃ a ∈ l, f a = x ∧ ∀ b ∈ l, f b = y → R a b
  | [], _ => by simp
  | a :: rest, h => by
    obtain ⟨here, others⟩ := List.pairwise_cons.1 h
    have smaller := pairwise_eraseDups_map f (rest.filter fun b => !f b == f a) (others.filter _)
    rw [List.map_cons, List.eraseDups_cons, List.filter_map, List.pairwise_cons]
    have other : ∀ y ∈ ((rest.filter fun b => !f b == f a).map f).eraseDups, ∀ b ∈ a :: rest,
        f b = y → b ∈ rest.filter fun b => !f b == f a := by
      intro y hy b hb same
      obtain ⟨c, hc, rfl⟩ := List.mem_map.1 (List.mem_eraseDups.1 hy)
      have apart : f b ≠ f a := by
        have kept := List.of_mem_filter hc
        rw [same]
        simpa using kept
      rw [List.mem_filter]
      refine ⟨(List.mem_cons.1 hb).resolve_left fun first => apart (by rw [first]), ?_⟩
      simpa using apart
    refine ⟨fun y hy => ⟨a, by simp, rfl, fun b hb same => ?_⟩, smaller.imp_of_mem ?_⟩
    · exact here b (List.mem_of_mem_filter (other y hy b hb same))
    · intro x y hx hy earlier
      obtain ⟨b, hb, same, first⟩ := earlier
      refine ⟨b, List.mem_cons_of_mem a (List.mem_of_mem_filter hb), same, fun c hc there => ?_⟩
      exact first c (other y hy c hc there) there
termination_by l => l.length
decreasing_by exact Nat.lt_succ_of_le (List.length_filter_le _ _)

theorem length_eraseDups {α : Type} [BEq α] [LawfulBEq α] [DecidableEq α] (l : List α) :
    l.eraseDups.length = l.toFinset.card := by
  rw [← List.toFinset_card_of_nodup (nodup_eraseDups l)]
  congr 1
  ext a
  rw [List.mem_toFinset, List.mem_toFinset, List.mem_eraseDups]

theorem total_map_eq_single {α : Type} [DecidableEq α] {f : α → Nat} {l : List α} {a : α}
    (distinct : l.Nodup) (ha : a ∈ l) (others : ∀ b ∈ l, b ≠ a → f b = 0) :
    total (l.map f) = f a := by
  rw [← sum_toFinset distinct]
  exact Finset.sum_eq_single_of_mem a (List.mem_toFinset.2 ha)
    fun b hb => others b (List.mem_toFinset.1 hb)

theorem sum_count_sub_one_add_card {α : Type} [same : BEq α] [LawfulBEq α] [DecidableEq α]
    (l : List α) : ∑ a ∈ l.toFinset, (l.count a - 1) + l.toFinset.card = l.length := by
  obtain rfl : same = instBEqOfDecidableEq := lawful_beq_subsingleton _ _
  have listed : ∀ a ∈ l.toFinset, l.count a - 1 + 1 = l.count a := by
    intro a ha
    have := List.count_pos_iff.2 (List.mem_toFinset.1 ha)
    omega
  rw [Finset.card_eq_sum_ones, ← Finset.sum_add_distrib, Finset.sum_congr rfl listed,
    List.sum_toFinset_count_eq_length]

theorem length_eraseDups_map_le_one {α β : Type} [BEq β] [LawfulBEq β] [Nonempty β]
    {f : α → β} {l : List α} : (l.map f).eraseDups.length ≤ 1 ↔ ∃ b, ∀ a ∈ l, f a = b := by
  classical
  rw [length_eraseDups, Finset.card_le_one_iff_subset_singleton]
  simp only [Finset.subset_singleton_iff', List.mem_toFinset, List.forall_mem_map]

theorem eraseRepsBy_loop {α : Type} (same : α → α → Bool) (a : α) (kept l : List α) :
    List.eraseRepsBy.loop same a l kept = kept.reverse ++ List.eraseRepsBy.loop same a l [] := by
  induction l generalizing a kept with
  | nil => simp [List.eraseRepsBy.loop]
  | cons b rest ih =>
    rw [List.eraseRepsBy.loop, List.eraseRepsBy.loop]
    cases same a b with
    | true => exact ih a kept
    | false =>
      simp only
      rw [ih b (a :: kept), ih b [a]]
      simp

section Repeats

variable {α : Type} [BEq α] [LawfulBEq α]

theorem eraseReps_cons_cons [DecidableEq α] (a b : α) (l : List α) :
    (a :: b :: l).eraseReps = if a = b then (b :: l).eraseReps else a :: (b :: l).eraseReps := by
  rw [List.eraseReps, List.eraseRepsBy, List.eraseRepsBy.loop]
  by_cases same : a = b
  · rw [if_pos same, same, beq_self_eq_true]
    rfl
  · rw [if_neg same, beq_false_of_ne same]
    exact eraseRepsBy_loop _ b [a] l

theorem eraseReps_cons {a : α} {l : List α} (new : a ∉ l) :
    (a :: l).eraseReps = a :: l.eraseReps := by
  classical
  cases l with
  | nil => rfl
  | cons b rest =>
    rw [eraseReps_cons_cons, if_neg]
    exact fun same => new (same ▸ List.mem_cons_self)

theorem eraseReps_of_nodup {l : List α} (distinct : l.Nodup) : l.eraseReps = l := by
  induction l with
  | nil => rfl
  | cons a rest ih =>
    obtain ⟨new, others⟩ := List.nodup_cons.1 distinct
    rw [eraseReps_cons new, ih others]

theorem eraseReps_replicate_append {a : α} {l : List α} (new : a ∉ l) (n : Nat) :
    (List.replicate (n + 1) a ++ l).eraseReps = a :: l.eraseReps := by
  classical
  induction n with
  | zero => exact eraseReps_cons new
  | succ n ih =>
    rw [List.replicate_succ, List.replicate_succ, List.cons_append, List.cons_append,
      eraseReps_cons_cons, if_pos rfl]
    exact ih

theorem eraseReps_flatMap_replicate {β : Type} (times : β → Nat) (value : β → α) {l : List β}
    (distinct : (l.map value).Nodup) :
    (l.flatMap fun b => List.replicate (times b) (value b)).eraseReps =
      (l.filter (times · ≠ 0)).map value := by
  induction l with
  | nil => rfl
  | cons b rest ih =>
    obtain ⟨new, others⟩ := List.nodup_cons.1 distinct
    rw [List.flatMap_cons, List.filter_cons]
    cases often : times b with
    | zero => simpa using ih others
    | succ n =>
      have later : value b ∉ rest.flatMap fun b => List.replicate (times b) (value b) := by
        intro found
        obtain ⟨c, hc, run⟩ := List.mem_flatMap.1 found
        exact new (List.mem_map.2 ⟨c, hc, (List.eq_of_mem_replicate run).symm⟩)
      rw [eraseReps_replicate_append later, ih others]
      simp

end Repeats

theorem eq_of_mem_iff_of_ascending {l m : List Nat} (hl : l.Pairwise (· < ·))
    (hm : m.Pairwise (· < ·)) (same : ∀ t, t ∈ l ↔ t ∈ m) : l = m := by
  have order : l.Perm m :=
    (List.perm_ext_iff_of_nodup (hl.imp Nat.ne_of_lt) (hm.imp Nat.ne_of_lt)).2 same
  exact order.eq_of_pairwise (fun _ _ _ _ first second => absurd second (Nat.lt_asymm first)) hl hm

end Roster
