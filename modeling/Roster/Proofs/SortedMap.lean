import Mathlib.Tactic.Common
import Mathlib.Data.List.Induction
import Mathlib.Data.List.Nodup
import Mathlib.Data.List.Perm.Basic
import Roster.SortedMap

/-! Entries of a sorted map against its lookups, and what a change does to the entry list
as a whole. -/

namespace Roster

theorem flatMap_filter_eq {α β : Type} {keep : α → Bool} {f : α → List β} {l : List α}
    (nothing : ∀ a ∈ l, keep a = false → f a = []) : (l.filter keep).flatMap f = l.flatMap f := by
  induction l with
  | nil => rfl
  | cons a rest ih =>
    obtain ⟨first, others⟩ := List.forall_mem_cons.1 nothing
    cases kept : keep a with
    | true => rw [List.filter_cons_of_pos kept, List.flatMap_cons, List.flatMap_cons, ih others]
    | false => rw [List.filter_cons_of_neg (by simp [kept]), List.flatMap_cons, first kept,
        List.nil_append, ih others]

namespace SortedMap

theorem flatMap_alterEntries_perm {κ α : Type} [LT κ] [DecidableLT κ] (k : κ) (a : α)
    (l : List (κ × List α)) :
    ((alterEntries k (fun old => old.getD [] ++ [a]) l).flatMap Prod.snd).Perm
      (a :: l.flatMap Prod.snd) := by
  induction l with
  | nil => simp [alterEntries]
  | cons e rest ih =>
    rw [alterEntries]
    split
    · simp
    · split
      · rw [List.flatMap_cons, List.flatMap_cons]
        exact (ih.append_left e.2).trans List.perm_middle
      · rw [List.flatMap_cons, List.flatMap_cons]
        simp

variable {κ ν : Type} [LT κ] [LE κ] [Std.LawfulOrderLT κ]

theorem alterEntries_concat [DecidableLT κ] {k : κ} (f : Option ν → ν) {l : List (κ × ν)} (v : ν)
    (below : ∀ e ∈ l, e.1 < k) :
    alterEntries k f (l ++ [(k, v)]) = l ++ [(k, f (some v))] := by
  induction l with
  | nil => simp [alterEntries, Std.lt_irrefl]
  | cons e rest ih =>
    obtain ⟨first, others⟩ := List.forall_mem_cons.1 below
    rw [List.cons_append, alterEntries, if_neg (Std.not_gt_of_lt first), if_pos first, ih others]
    rfl

theorem lookup_eq_some_iff [DecidableEq κ] {l : List (κ × ν)}
    (ascending : l.Pairwise (fun a b => a.1 < b.1)) {k : κ} {v : ν} :
    l.lookup k = some v ↔ (k, v) ∈ l := by
  induction l with
  | nil => simp
  | cons e rest ih =>
    obtain ⟨j, w⟩ := e
    obtain ⟨later, ascendingRest⟩ := List.pairwise_cons.1 ascending
    by_cases same : k = j
    · subst same
      have absent : (k, v) ∉ rest := fun found => Std.lt_irrefl (later (k, v) found)
      simp [absent, eq_comm]
    · have first : (k == j) = false := by simpa using same
      rw [List.lookup_cons, first, List.mem_cons]
      simp [same, ih ascendingRest]

theorem mem_entries_iff [DecidableEq κ] (m : SortedMap κ ν) (k : κ) (v : ν) :
    (k, v) ∈ m.entries ↔ m.get? k = some v :=
  (lookup_eq_some_iff m.ascending).symm

theorem nodup_keys (m : SortedMap κ ν) : (m.entries.map Prod.fst).Nodup := by
  refine List.pairwise_map.2 (m.ascending.imp fun {a b} earlier same => ?_)
  rw [same] at earlier
  exact Std.lt_irrefl earlier

theorem nodup_entries (m : SortedMap κ ν) : m.entries.Nodup := m.nodup_keys.of_map

/-- Maps in which every key is looked up alike are the same. -/
theorem ext_get? [DecidableEq κ] {m n : SortedMap κ ν} (same : ∀ k, m.get? k = n.get? k) :
    m = n := by
  have entries : m.entries.Perm n.entries := by
    rw [List.perm_ext_iff_of_nodup m.nodup_entries n.nodup_entries]
    intro e
    rw [mem_entries_iff, mem_entries_iff, same]
  refine SortedMap.ext (entries.eq_of_pairwise ?_ m.ascending n.ascending)
  intro a b _ _ first second
  exact absurd second (Std.not_gt_of_lt first)

def filterValues (m : SortedMap κ ν) (keep : ν → Bool) : SortedMap κ ν :=
  ⟨m.entries.filter fun e => keep e.2, m.ascending.filter _⟩

@[simp] theorem get?_filterValues [DecidableEq κ] (m : SortedMap κ ν) (keep : ν → Bool) (k : κ) :
    (m.filterValues keep).get? k = (m.get? k).filter keep := by
  ext v
  rw [← mem_entries_iff, filterValues, List.mem_filter, mem_entries_iff, Option.filter_eq_some_iff]

omit [LE κ] [Std.LawfulOrderLT κ] in
theorem filterValues_eq_self {m : SortedMap κ ν} {keep : ν → Bool}
    (all : ∀ e ∈ m.entries, keep e.2) : m.filterValues keep = m :=
  SortedMap.ext (List.filter_eq_self.2 all)

omit [LE κ] [Std.LawfulOrderLT κ] in
theorem mapValues_eq_self {m : SortedMap κ ν} {f : ν → ν} (still : ∀ e ∈ m.entries, f e.2 = e.2) :
    m.mapValues f = m := by
  refine SortedMap.ext ((List.map_congr_left fun e he => ?_).trans (List.map_id _))
  rw [still e he]
  rfl

theorem flatMap_ite [DecidableEq κ] {α : Type} (m : SortedMap κ ν) (k : κ) (f : ν → List α) :
    m.entries.flatMap (fun e => if e.1 = k then f e.2 else []) = ((m.get? k).map f).getD [] := by
  obtain ⟨l, ascending⟩ := m
  rw [get?]
  induction l with
  | nil => rfl
  | cons e rest ih =>
    obtain ⟨later, ascendingRest⟩ := List.pairwise_cons.1 ascending
    rw [List.flatMap_cons, List.lookup_cons]
    by_cases same : e.1 = k
    · have nothing : rest.flatMap (fun d => if d.1 = k then f d.2 else []) = [] := by
        refine List.flatMap_eq_nil_iff.2 fun d hd => if_neg fun again => ?_
        have above := later d hd
        rw [same, again] at above
        exact Std.lt_irrefl above
      rw [if_pos same, nothing, List.append_nil, same, beq_self_eq_true]
      rfl
    · have other : (k == e.1) = false := by simpa using Ne.symm same
      rw [if_neg same, List.nil_append, other]
      exact ih ascendingRest

section OfList

variable {κ ν : Type} [LE κ] [LT κ] [Std.IsLinearOrder κ] [Std.LawfulOrderLT κ] [DecidableLT κ]

theorem ofList_concat (l : List (κ × ν)) (e : κ × ν) :
    ofList (l ++ [e]) = (ofList l).insert e.1 e.2 := by
  rw [ofList, List.foldl_append]
  rfl

theorem get?_ofList_eq_some [DecidableEq κ] {l : List (κ × ν)}
    (distinct : (l.map Prod.fst).Nodup) {k : κ} {v : ν} :
    (ofList l).get? k = some v ↔ (k, v) ∈ l := by
  induction l using List.reverseRecOn with
  | nil => simp [ofList]
  | append_singleton l e ih =>
    rw [List.map_append, List.nodup_append] at distinct
    obtain ⟨before, -, apart⟩ := distinct
    rw [ofList_concat, get?_insert, List.mem_append, List.mem_singleton, Prod.ext_iff]
    by_cases same : k = e.1
    · subst same
      have absent : (e.1, v) ∉ l := fun found =>
        apart e.1 (List.mem_map.2 ⟨_, found, rfl⟩) e.1 (by simp) rfl
      simp [absent, eq_comm]
    · simp [same, ih before]

theorem ofList_eq_of_perm [DecidableEq κ] {m : SortedMap κ ν} {l : List (κ × ν)}
    (order : l.Perm m.entries) : ofList l = m := by
  have distinct : (l.map Prod.fst).Nodup := (order.map Prod.fst).nodup_iff.2 m.nodup_keys
  refine ext_get? fun k => Option.ext fun v => ?_
  rw [get?_ofList_eq_some distinct, order.mem_iff, mem_entries_iff]

end OfList

section Cells

variable {ι : Type} [LT ι] [LE ι] [Std.LawfulOrderLT ι]

def cells (m : SortedMap κ (SortedMap ι ν)) : List ((κ × ι) × ν) :=
  m.entries.flatMap fun row => row.2.entries.map fun cell => ((row.1, cell.1), cell.2)

theorem mem_cells [DecidableEq κ] [DecidableEq ι] (m : SortedMap κ (SortedMap ι ν)) (k : κ) (i : ι)
    (v : ν) : ((k, i), v) ∈ m.cells ↔ (m.get? k).bind (·.get? i) = some v := by
  simp only [cells, List.mem_flatMap, List.mem_map, Prod.mk.injEq, Option.bind_eq_some_iff]
  constructor
  · intro h
    obtain ⟨row, hrow, cell, hcell, ⟨rfl, rfl⟩, rfl⟩ := h
    exact ⟨row.2, (m.mem_entries_iff _ _).1 hrow, (row.2.mem_entries_iff _ _).1 hcell⟩
  · intro h
    obtain ⟨row, hrow, hcell⟩ := h
    exact ⟨(k, row), (m.mem_entries_iff _ _).2 hrow, (i, v), (row.mem_entries_iff _ _).2 hcell,
      ⟨rfl, rfl⟩, rfl⟩

theorem nodup_map_fst_cells (m : SortedMap κ (SortedMap ι ν)) :
    (m.cells.map Prod.fst).Nodup := by
  have keys : m.cells.map Prod.fst =
      m.entries.flatMap fun row => (row.2.entries.map Prod.fst).map (row.1, ·) := by
    simp only [cells, List.map_flatMap, List.map_map]
    rfl
  rw [keys, List.nodup_flatMap]
  constructor
  · exact fun row _ => row.2.nodup_keys.map fun _ _ same => (Prod.mk.inj same).2
  · refine m.ascending.imp fun {row other} earlier cell first second => ?_
    obtain ⟨_, _, rfl⟩ := List.mem_map.1 first
    obtain ⟨_, _, same⟩ := List.mem_map.1 second
    rw [(Prod.mk.inj same).1] at earlier
    exact Std.lt_irrefl earlier

end Cells

end SortedMap

end Roster
