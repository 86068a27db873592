/-! Sets of session indices, held as strictly ascending lists.
A list that names sessions in any order and with repeats stands for the set
`ofList` of it; `below n` is every session of a problem with `n` of them. -/

namespace Roster

@[ext] structure SessionSet where
  toList : List Nat
  ascending : toList.Pairwise (· < ·)
  deriving DecidableEq

namespace SessionSet

instance : Membership Nat SessionSet := ⟨fun s t => t ∈ s.toList⟩

theorem mem_def {s : SessionSet} {t : Nat} : t ∈ s ↔ t ∈ s.toList := .rfl

instance (t : Nat) (s : SessionSet) : Decidable (t ∈ s) :=
  inferInstanceAs (Decidable (t ∈ s.toList))

def below (n : Nat) : SessionSet := ⟨List.range n, List.pairwise_lt_range⟩

@[simp] theorem mem_below {n t : Nat} : t ∈ below n ↔ t < n := List.mem_range

def insertAscending (t : Nat) : List Nat → List Nat
  | [] => [t]
  | u :: rest =>
    if t < u then t :: u :: rest
    else if u < t then u :: insertAscending t rest
    else u :: rest

theorem mem_insertAscending {t u : Nat} {l : List Nat} :
    u ∈ insertAscending t l ↔ u = t ∨ u ∈ l := by
  induction l with
  | nil => simp [insertAscending]
  | cons a rest ih => grind [insertAscending]

theorem ascending_insertAscending (t : Nat) {l : List Nat} (h : l.Pairwise (· < ·)) :
    (insertAscending t l).Pairwise (· < ·) := by
  induction l with
  | nil => simp [insertAscending]
  | cons a rest ih =>
    have := @mem_insertAscending t
    grind [insertAscending, List.pairwise_cons]

def insert (s : SessionSet) (t : Nat) : SessionSet :=
  ⟨insertAscending t s.toList, ascending_insertAscending t s.ascending⟩

@[simp] theorem mem_insert {s : SessionSet} {t u : Nat} : u ∈ s.insert t ↔ u = t ∨ u ∈ s :=
  mem_insertAscending

def ofList (l : List Nat) : SessionSet := l.foldr (fun t s => s.insert t) ⟨[], .nil⟩

@[simp] theorem mem_ofList {l : List Nat} {t : Nat} : t ∈ ofList l ↔ t ∈ l := by
  induction l with
  | nil => exact .rfl
  | cons u rest ih => rw [List.mem_cons, ← ih]; exact mem_insert

theorem insertAscending_of_forall_lt {t : Nat} {l : List Nat} (h : ∀ u ∈ l, t < u) :
    insertAscending t l = t :: l := by
  cases l with
  | nil => rfl
  | cons u rest => simp [insertAscending, h u (by simp)]

theorem toList_ofList {l : List Nat} (h : l.Pairwise (· < ·)) : (ofList l).toList = l := by
  induction l with
  | nil => rfl
  | cons t rest ih =>
    obtain ⟨ht, hr⟩ := List.pairwise_cons.1 h
    change insertAscending t (ofList rest).toList = _
    rw [ih hr, insertAscending_of_forall_lt ht]

@[simp] theorem ofList_toList (s : SessionSet) : ofList s.toList = s :=
  SessionSet.ext (toList_ofList s.ascending)

end SessionSet

end Roster
