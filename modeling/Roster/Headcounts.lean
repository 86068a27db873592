/-! Wanted headcounts per attribute value, in declared order.
A value declared again keeps its place and takes the later count. -/

namespace Roster

@[ext] structure Headcounts where
  entries : List (String × Nat)
  distinct : (entries.map Prod.fst).Nodup
  deriving DecidableEq

namespace Headcounts

def empty : Headcounts := ⟨[], .nil⟩

def setEntries (value : String) (count : Nat) : List (String × Nat) → List (String × Nat)
  | [] => [(value, count)]
  | (v, n) :: rest =>
    if v = value then (v, count) :: rest else (v, n) :: setEntries value count rest

theorem map_fst_setEntries (value : String) (count : Nat) (l : List (String × Nat)) :
    (setEntries value count l).map Prod.fst =
      if value ∈ l.map Prod.fst then l.map Prod.fst else l.map Prod.fst ++ [value] := by
  induction l with
  | nil => rfl
  | cons e rest ih => grind [setEntries]

def set (h : Headcounts) (value : String) (count : Nat) : Headcounts where
  entries := setEntries value count h.entries
  distinct := by
    have := h.distinct
    rw [map_fst_setEntries]
    grind

def ofList (l : List (String × Nat)) : Headcounts := l.foldl (fun h e => h.set e.1 e.2) empty

theorem setEntries_of_notMem {value : String} (count : Nat) {l : List (String × Nat)}
    (h : value ∉ l.map Prod.fst) : setEntries value count l = l ++ [(value, count)] := by
  induction l with
  | nil => rfl
  | cons e rest ih => grind [setEntries]

theorem entries_foldl_set (h : Headcounts) {l : List (String × Nat)}
    (distinct : ((h.entries ++ l).map Prod.fst).Nodup) :
    (l.foldl (fun h e => h.set e.1 e.2) h).entries = h.entries ++ l := by
  induction l generalizing h with
  | nil => simp
  | cons e rest ih =>
    have he : (h.set e.1 e.2).entries = h.entries ++ [e] := setEntries_of_notMem _ (by grind)
    rw [List.foldl_cons, ih _ (by rw [he]; simpa using distinct), he]
    simp

@[simp] theorem ofList_entries (h : Headcounts) : ofList h.entries = h :=
  Headcounts.ext (entries_foldl_set empty h.distinct)

end Headcounts

end Roster
