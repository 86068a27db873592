/-! Finite maps held as lists with strictly ascending keys.
Two maps are equal exactly when their entry lists are, so a map is compared,
written and walked through `entries`; `get?_alter` says what a change does to
every lookup. -/

namespace Roster

@[ext] structure SortedMap (κ ν : Type) [LT κ] where
  entries : List (κ × ν)
  ascending : entries.Pairwise (fun a b => a.1 < b.1)
  deriving DecidableEq

namespace SortedMap

variable {κ ν μ : Type} [LT κ]

def empty : SortedMap κ ν := ⟨[], .nil⟩

instance : Inhabited (SortedMap κ ν) := ⟨empty⟩

def get? [DecidableEq κ] (m : SortedMap κ ν) (k : κ) : Option ν := m.entries.lookup k

def mapValues (m : SortedMap κ ν) (f : ν → μ) : SortedMap κ μ :=
  ⟨m.entries.map fun e => (e.1, f e.2), m.ascending.map _ fun _ _ h => h⟩

@[simp] theorem get?_empty [DecidableEq κ] (k : κ) : (empty : SortedMap κ ν).get? k = none := rfl

@[simp] theorem get?_mapValues [DecidableEq κ] (m : SortedMap κ ν) (f : ν → μ) (k : κ) :
    (m.mapValues f).get? k = (m.get? k).map f := by
  obtain ⟨l, h⟩ := m
  simp only [mapValues, get?]
  clear h
  induction l with
  | nil => rfl
  | cons e rest ih => grind

def alterEntries [DecidableLT κ] (k : κ) (f : Option ν → ν) : List (κ × ν) → List (κ × ν)
  | [] => [(k, f none)]
  | (j, v) :: rest =>
    if k < j then (k, f none) :: (j, v) :: rest
    else if j < k then (j, v) :: alterEntries k f rest
    else (j, f (some v)) :: rest

theorem key_of_mem_alterEntries [DecidableLT κ] {k : κ} {f : Option ν → ν}
    {l : List (κ × ν)} {e : κ × ν} (h : e ∈ alterEntries k f l) :
    e.1 = k ∨ ∃ d ∈ l, d.1 = e.1 := by
  induction l with
  | nil => simp_all [alterEntries]
  | cons a rest ih => grind [alterEntries]

variable [LE κ] [Std.IsLinearOrder κ] [Std.LawfulOrderLT κ] [DecidableLT κ]

theorem ascending_alterEntries (k : κ) (f : Option ν → ν) {l : List (κ × ν)}
    (h : l.Pairwise (fun a b => a.1 < b.1)) :
    (alterEntries k f l).Pairwise (fun a b => a.1 < b.1) := by
  induction l with
  | nil => simp [alterEntries]
  | cons a rest ih =>
    obtain ⟨ha, hr⟩ := List.pairwise_cons.1 h
    unfold alterEntries
    split
    · refine List.pairwise_cons.2 ⟨fun e he => ?_, h⟩
      rcases List.mem_cons.1 he with rfl | he
      · assumption
      · exact Std.lt_trans ‹_› (ha e he)
    · split
      · refine List.pairwise_cons.2 ⟨fun e he => ?_, ih hr⟩
        rcases key_of_mem_alterEntries he with hk | ⟨d, hd, hk⟩
        · rw [hk]; assumption
        · rw [← hk]; exact ha d hd
      · exact List.pairwise_cons.2 ⟨ha, hr⟩

def alter (m : SortedMap κ ν) (k : κ) (f : Option ν → ν) : SortedMap κ ν :=
  ⟨alterEntries k f m.entries, ascending_alterEntries k f m.ascending⟩

def insert (m : SortedMap κ ν) (k : κ) (v : ν) : SortedMap κ ν := m.alter k fun _ => v

/-- The first value given for a key stays. -/
def insertNew (m : SortedMap κ ν) (k : κ) (v : ν) : SortedMap κ ν :=
  m.alter k fun old => old.getD v

def ofList (l : List (κ × ν)) : SortedMap κ ν := l.foldl (fun m e => m.insert e.1 e.2) empty

theorem alterEntries_of_forall_lt {k : κ} (f : Option ν → ν) {l : List (κ × ν)}
    (h : ∀ e ∈ l, e.1 < k) : alterEntries k f l = l ++ [(k, f none)] := by
  induction l with
  | nil => rfl
  | cons e rest ih => grind [alterEntries]

theorem entries_foldl_insert (m : SortedMap κ ν) {l : List (κ × ν)}
    (h : (m.entries ++ l).Pairwise (fun a b => a.1 < b.1)) :
    (l.foldl (fun m e => m.insert e.1 e.2) m).entries = m.entries ++ l := by
  induction l generalizing m with
  | nil => simp
  | cons e rest ih =>
    have he : (m.insert e.1 e.2).entries = m.entries ++ [e] :=
      alterEntries_of_forall_lt _ fun d hd =>
        (List.pairwise_append.1 h).2.2 d hd e (List.mem_cons_self ..)
    rw [List.foldl_cons, ih _ (by rw [he]; simpa using h), he]
    simp

@[simp] theorem ofList_entries (m : SortedMap κ ν) : ofList m.entries = m :=
  SortedMap.ext (entries_foldl_insert empty m.ascending)

theorem lookup_alterEntries [DecidableEq κ] (k j : κ) (f : Option ν → ν) {l : List (κ × ν)}
    (h : l.Pairwise (fun a b => a.1 < b.1)) :
    (alterEntries k f l).lookup j = if j = k then some (f (l.lookup k)) else l.lookup j := by
  induction l with
  | nil => grind [alterEntries]
  | cons a rest ih =>
    obtain ⟨ha, hr⟩ := List.pairwise_cons.1 h
    have hrest : ∀ x, x < a.1 → rest.lookup x = none := by
      intro x hx
      refine List.lookup_eq_none_iff.2 fun e he => ?_
      have := ha e he
      grind
    grind [alterEntries]

theorem get?_alter [DecidableEq κ] (m : SortedMap κ ν) (k j : κ) (f : Option ν → ν) :
    (m.alter k f).get? j = if j = k then some (f (m.get? k)) else m.get? j :=
  lookup_alterEntries k j f m.ascending

@[simp] theorem get?_insert [DecidableEq κ] (m : SortedMap κ ν) (k j : κ) (v : ν) :
    (m.insert k v).get? j = if j = k then some v else m.get? j := by
  rw [insert, get?_alter]

@[simp] theorem get?_insertNew [DecidableEq κ] (m : SortedMap κ ν) (k j : κ) (v : ν) :
    (m.insertNew k v).get? j = if j = k then some ((m.get? k).getD v) else m.get? j := by
  rw [insertNew, get?_alter]

def pushAt {ι α : Type} [LE ι] [LT ι] [Std.IsLinearOrder ι] [Std.LawfulOrderLT ι] [DecidableLT ι]
    (m : SortedMap κ (SortedMap ι (List α))) (k : κ) (i : ι) (a : α) :
    SortedMap κ (SortedMap ι (List α)) :=
  m.alter k fun row => (row.getD empty).alter i fun l => l.getD [] ++ [a]

def listAt {ι α : Type} [LT ι] [DecidableEq κ] [DecidableEq ι]
    (m : SortedMap κ (SortedMap ι (List α))) (k : κ) (i : ι) : List α :=
  ((m.get? k).bind (·.get? i)).getD []

end SortedMap

end Roster
