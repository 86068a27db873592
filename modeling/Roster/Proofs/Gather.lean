import Mathlib.Data.List.Induction
import Roster.Proofs.SortedMap

/-! Lists gathered under keys. What a key ends up with are the values that were given for it,
in their order, and a key nothing was given for is not there. So whether two gathered maps
are alike is a matter of the values of each key for itself. -/

namespace Roster

def occupied? {α : Type} : List α → Option (List α)
  | [] => none
  | first :: rest => some (first :: rest)

theorem occupied?_concat {α : Type} (l : List α) (a : α) :
    occupied? (l ++ [a]) = some (l ++ [a]) := by
  cases l <;> rfl

@[simp] theorem getD_occupied? {α : Type} (l : List α) : (occupied? l).getD [] = l := by
  cases l <;> rfl

theorem filter_not_isEmpty {α : Type} (found : Option (List α)) :
    found.filter (fun l => !l.isEmpty) = occupied? (found.getD []) := by
  cases found with
  | none => rfl
  | some l => cases l <;> rfl

theorem occupied?_eq_some {α : Type} {l m : List α} :
    occupied? l = some m ↔ m = l ∧ m ≠ [] := by
  cases l with
  | nil => simp [occupied?]
  | cons first rest =>
    rw [occupied?, Option.some.injEq]
    constructor
    · intro same
      exact ⟨same.symm, same ▸ List.cons_ne_nil _ _⟩
    · exact fun h => h.1.symm

theorem map_eq_of_rel {ν μ : Type} {R : ν → ν → Prop} {x y : Option ν} (h : Option.Rel R x y)
    {f : ν → μ} (blind : ∀ a b, R a b → f a = f b) : x.map f = y.map f := by
  cases h with
  | some related => rw [Option.map_some, Option.map_some, blind _ _ related]
  | none => rfl

theorem rel_mono {ν : Type} {R S : ν → ν → Prop} {x y : Option ν} (h : Option.Rel R x y)
    (weaker : ∀ a b, R a b → S a b) : Option.Rel S x y := by
  cases h with
  | some related => exact .some (weaker _ _ related)
  | none => exact .none

theorem rel_bind {ν μ : Type} {R : ν → ν → Prop} {S : μ → μ → Prop} {x y : Option ν}
    {f g : ν → Option μ} (h : Option.Rel R x y) (each : ∀ a b, R a b → Option.Rel S (f a) (g b)) :
    Option.Rel S (x.bind f) (y.bind g) := by
  cases h with
  | some related => exact each _ _ related
  | none => exact .none

theorem rel_getD {ν : Type} {R : ν → ν → Prop} {x y : Option ν} {a b : ν} (h : Option.Rel R x y)
    (other : R a b) : R (x.getD a) (y.getD b) := by
  cases h with
  | some related => exact related
  | none => exact other

/-- A relation between lists in which nothing is related to nothing only. -/
def Lasting {α : Type} (R : List α → List α → Prop) : Prop := ∀ a b, R a b → (a = [] ↔ b = [])

theorem rel_occupied? {α : Type} {R : List α → List α → Prop} (lasting : Lasting R)
    {a b : List α} (h : R a b) :
    Option.Rel R (occupied? a) (occupied? b) := by
  have alike := lasting a b h
  cases a with
  | nil =>
    rw [alike.1 rfl]
    exact .none
  | cons first rest =>
    cases b with
    | nil => simp at alike
    | cons other others => exact .some h

namespace SortedMap

section Alike

variable {κ ν μ : Type} [LT κ] [DecidableEq κ] {R : ν → ν → Prop} {m n : SortedMap κ ν}

def Alike (R : ν → ν → Prop) (m n : SortedMap κ ν) : Prop :=
  ∀ k, Option.Rel R (m.get? k) (n.get? k)

theorem Alike.mono {S : ν → ν → Prop} (h : m.Alike R n) (weaker : ∀ a b, R a b → S a b) :
    m.Alike S n :=
  fun k => rel_mono (h k) weaker

variable [LE κ] [Std.LawfulOrderLT κ]

theorem Alike.mapValues_eq (h : m.Alike R n) (f : ν → μ) (blind : ∀ a b, R a b → f a = f b) :
    m.mapValues f = n.mapValues f := by
  refine ext_get? fun k => ?_
  rw [get?_mapValues, get?_mapValues]
  exact map_eq_of_rel (h k) blind

theorem Alike.eq (h : m.Alike (· = ·) n) : m = n := by
  refine ext_get? fun k => ?_
  simpa using map_eq_of_rel (h k) (f := id) fun _ _ same => same

end Alike

section Values

variable {κ ι α : Type} [DecidableEq κ] [DecidableEq ι]

def valuesOf (l : List (ι × α)) (i : ι) : List α := (l.filter (·.1 = i)).map Prod.snd

theorem eq_nil_iff_valuesOf {l : List (ι × α)} : l = [] ↔ ∀ i, valuesOf l i = [] := by
  constructor
  · intro nothing i
    rw [nothing]
    rfl
  · intro nothing
    cases l with
    | nil => rfl
    | cons e rest =>
      have here := nothing e.1
      simp [valuesOf] at here

def rowOf (l : List ((κ × ι) × α)) (k : κ) : List (ι × α) :=
  (l.filter (·.1.1 = k)).map fun e => (e.1.2, e.2)

theorem valuesOf_rowOf (l : List ((κ × ι) × α)) (k : κ) (i : ι) :
    valuesOf (rowOf l k) i = valuesOf l (k, i) := by
  rw [valuesOf, rowOf, List.filter_map, List.filter_filter, List.map_map, valuesOf]
  congr 1
  refine List.filter_congr fun e _ => ?_
  rw [Bool.and_comm]
  simp [Prod.ext_iff]

end Values

section Gather

variable {ι α : Type} [DecidableEq ι] [LE ι] [LT ι] [Std.IsLinearOrder ι] [Std.LawfulOrderLT ι]
  [DecidableLT ι]

/-- The values under each key, in the order they come. -/
def gather (l : List (ι × α)) : SortedMap ι (List α) :=
  l.foldl (fun m e => m.alter e.1 fun old => old.getD [] ++ [e.2]) .empty

theorem get?_gather (l : List (ι × α)) (i : ι) : (gather l).get? i = occupied? (valuesOf l i) := by
  induction l using List.reverseRecOn with
  | nil => rfl
  | append_singleton l e ih =>
    rw [gather, List.foldl_append, List.foldl_cons, List.foldl_nil, ← gather, get?_alter, valuesOf,
      List.filter_append, List.map_append]
    by_cases same : i = e.1
    · rw [if_pos same, ← same, ih, getD_occupied?]
      simp [same, occupied?_concat, valuesOf]
    · rw [if_neg same, ih]
      simp [Ne.symm same, valuesOf]

end Gather

section Tabulate

variable {κ ι α : Type} [LE κ] [LT κ] [Std.IsLinearOrder κ] [Std.LawfulOrderLT κ]
  [DecidableLT κ] [DecidableEq κ] [LE ι] [LT ι] [Std.IsLinearOrder ι] [Std.LawfulOrderLT ι]
  [DecidableLT ι]

def tabulate (l : List ((κ × ι) × α)) : SortedMap κ (SortedMap ι (List α)) :=
  l.foldl (fun m e => m.pushAt e.1.1 e.1.2 e.2) .empty

theorem get?_tabulate (l : List ((κ × ι) × α)) (k : κ) :
    (tabulate l).get? k = (occupied? (rowOf l k)).map gather := by
  have getD_gather : ∀ row : List (ι × α),
      ((occupied? row).map gather).getD .empty = gather row := fun row => by cases row <;> rfl
  induction l using List.reverseRecOn with
  | nil => rfl
  | append_singleton l e ih =>
    rw [tabulate, List.foldl_append, List.foldl_cons, List.foldl_nil, ← tabulate, pushAt,
      get?_alter, rowOf, List.filter_append, List.map_append]
    by_cases same : k = e.1.1
    · rw [if_pos same, ← same, ih, getD_gather, List.filter_cons_of_pos (by simpa using same.symm),
        List.filter_nil, List.map_cons, List.map_nil, occupied?_concat, Option.map_some, gather,
        gather, List.foldl_append]
      rfl
    · rw [if_neg same, ih, List.filter_cons_of_neg (by simpa using Ne.symm same), List.filter_nil,
        List.map_nil, List.append_nil, rowOf]

variable [DecidableEq ι]

theorem bind_get?_tabulate (l : List ((κ × ι) × α)) (k : κ) (i : ι) :
    ((tabulate l).get? k).bind (·.get? i) = occupied? (valuesOf l (k, i)) := by
  rw [get?_tabulate, ← valuesOf_rowOf]
  cases rowOf l k with
  | nil => rfl
  | cons e rest => rw [occupied?, Option.map_some, Option.bind_some, get?_gather]

theorem listAt_tabulate (l : List ((κ × ι) × α)) (k : κ) (i : ι) :
    (tabulate l).listAt k i = valuesOf l (k, i) := by
  rw [listAt, bind_get?_tabulate, getD_occupied?]

theorem alike_gather {R : List α → List α → Prop} (lasting : Lasting R) {l m : List (ι × α)}
    (h : ∀ i, R (valuesOf l i) (valuesOf m i)) : (gather l).Alike R (gather m) := by
  intro i
  rw [get?_gather, get?_gather]
  exact rel_occupied? lasting (h i)

theorem alike_tabulate {R : List α → List α → Prop} (lasting : Lasting R) {l m : List ((κ × ι) × α)}
    (h : ∀ k i, R (valuesOf l (k, i)) (valuesOf m (k, i))) :
    (tabulate l).Alike (SortedMap.Alike R) (tabulate m) := by
  intro k
  have rows : ∀ i, R (valuesOf (rowOf l k) i) (valuesOf (rowOf m k) i) := by
    intro i
    rw [valuesOf_rowOf, valuesOf_rowOf]
    exact h k i
  have both : rowOf l k = [] ↔ rowOf m k = [] := by
    rw [eq_nil_iff_valuesOf, eq_nil_iff_valuesOf]
    exact forall_congr' fun i => lasting _ _ (rows i)
  rw [get?_tabulate, get?_tabulate]
  cases first : rowOf l k with
  | nil =>
    rw [both.1 first]
    exact .none
  | cons e rest =>
    cases second : rowOf m k with
    | nil => simp [first, second] at both
    | cons d others =>
      rw [first, second] at rows
      exact .some (alike_gather lasting rows)

end Tabulate

end SortedMap

end Roster
