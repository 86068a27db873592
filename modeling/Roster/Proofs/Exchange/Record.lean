import Mathlib.Data.List.Forall2
import Mathlib.Data.List.Nodup
import Roster.Exchange.Record

/-! Reading back what was written, member by member: numbers that fit, texts, lists, tables,
words, and the records made of them. -/

namespace Roster.Json

theorem list?_of_forall₂ {α : Type} {item? : Json → Option α} {l : List α} {items : List Json}
    (back : List.Forall₂ (fun a v => item? v = some a) l items) :
    (array items).list? item? = some l := by
  rw [list?]
  induction back with
  | nil => rfl
  | cons first _ ih =>
    rw [List.mapM_cons, first, ih]
    rfl

theorem count?_ofNat {n : Nat} (fits : n < countLimit) : (ofNat n).count? = some n := if_pos fits

theorem index?_ofNat {n : Nat} (fits : n < indexLimit) : (ofNat n).index? = some n := if_pos fits

@[simp] theorem list?_ofTexts (l : List String) : (ofTexts l).list? text? = some l :=
  list?_map l fun _ _ => rfl

theorem list?_ofNats {l : List Nat} (fits : ∀ n ∈ l, n < indexLimit) :
    (ofNats l).list? index? = some l :=
  list?_map l fun n hn => index?_ofNat (fits n hn)

@[simp] theorem pair?_ofTexts (a b : String) : (ofTexts [a, b]).pair? text? = some (a, b) := rfl

@[simp] theorem orNull?_ofOption (o : Option String) :
    (ofOption string o).orNull? text? = some o := by
  cases o <;> rfl

@[simp] theorem pair?_ofOptions (a b : Option String) :
    (array [ofOption string a, ofOption string b]).pair? (orNull? text?) = some (a, b) := by
  simp [pair?]

theorem orNull?_of_isNull {α : Type} {value? : Json → Option α} {v : Json}
    (given : v.isNull = false) : orNull? value? v = (value? v).map some := by
  cases v with
  | null => cases given
  | _ => rfl

theorem table?_map {α : Type} {value? : Json → Option α} {write : α → Json} {plain : Bool}
    (l : List (String × α)) (back : ∀ e ∈ l, value? (write e.2) = some e.2) :
    (object (l.map fun e => (e.1, write e.2)) plain).table? value? = some l :=
  mapM_map l fun e he => by simp [back e he]

section Members

variable {α : Type} (name other : String) (value? : Json → Option α) (v : Json)
  (l : List (String × Json))

@[simp] theorem required?_cons : required? name value? ((other, v) :: l) =
    if name = other then value? v else required? name value? l := by
  rw [required?, required?, List.lookup_cons]
  by_cases same : name = other
  · simp [same]
  · rw [if_neg same, beq_false_of_ne same]

@[simp] theorem default?_cons (a : α) : default? name a value? ((other, v) :: l) =
    if name = other then value? v else default? name a value? l := by
  rw [default?, default?, List.lookup_cons]
  by_cases same : name = other
  · simp [same]
  · rw [if_neg same, beq_false_of_ne same]

@[simp] theorem optional?_cons : optional? name value? ((other, v) :: l) =
    if name = other then orNull? value? v else optional? name value? l :=
  default?_cons ..

theorem optional?_optionalMember {name value?} {write : α → Json} {o : Option α}
    (back : ∀ a ∈ o, orNull? value? (write a) = some (some a)) :
    optional? name value? (optionalMember name write o) = some o := by
  cases o with
  | none => rfl
  | some a => rw [optionalMember, optional?_cons, if_pos rfl, back a rfl]

theorem mem_optionalMember {name : String} {write : α → Json} {o : Option α}
    {e : String × Json} : e ∈ optionalMember name write o ↔ ∃ a ∈ o, e = (name, write a) := by
  cases o <;> simp [optionalMember]

theorem nodup_append_optionalMember {name l} {write : α → Json} {o : Option α}
    (distinct : (l.map Prod.fst).Nodup) (new : name ∉ l.map Prod.fst) :
    ((l ++ optionalMember name write o).map Prod.fst).Nodup := by
  cases o with
  | none => simpa [optionalMember] using distinct
  | some a =>
    have apart : List.Disjoint (l.map Prod.fst) [name] := by simpa using new
    rw [List.map_append]
    exact distinct.append (List.nodup_singleton name) apart

end Members

theorem members?_object {names nullable : List String} {l : List (String × Json)} {plain : Bool}
    (distinct : (l.map Prod.fst).Nodup) :
    (object l plain).members? names nullable = some (l ++ nullable.map (·, null)) := by
  refine if_pos fun name _ => ?_
  have once := List.nodup_iff_count_le_one.1 distinct name
  rw [List.count, List.countP_map, List.countP_eq_length_filter] at once
  exact once

/-- A record names its kind in the one member that is called so, wherever it stands. -/
theorem tagged?_object {kind : String} {l : List (String × Json)} {plain : Bool}
    (readable : membersReadable l) (named : l.filter (·.1 = "type") = [("type", string kind)]) :
    (object l plain).tagged? = some (kind, object (l.filter (·.1 ≠ "type"))) := by
  have whole : (object l plain).isReadable = true := readable
  rw [tagged?, whole]
  simp only [named, Bool.not_true, Bool.false_eq_true, if_false]

theorem tagged?_cons {kind : String} {l : List (String × Json)}
    (readable : (object (("type", string kind) :: l)).isReadable)
    (untagged : "type" ∉ l.map Prod.fst) :
    (object (("type", string kind) :: l)).tagged? = some (kind, object l) := by
  have others : ∀ e ∈ l, e.1 ≠ "type" := fun e he same =>
    untagged (List.mem_map.2 ⟨e, he, same⟩)
  have alone : l.filter (·.1 = "type") = [] :=
    List.filter_eq_nil_iff.2 fun e he => by simpa using others e he
  have rest : l.filter (·.1 ≠ "type") = l :=
    List.filter_eq_self.2 fun e he => by simpa using others e he
  rw [tagged?_object readable (by rw [List.filter_cons_of_pos (by simp), alone]),
    List.filter_cons_of_neg (by simp), rest]

end Roster.Json
