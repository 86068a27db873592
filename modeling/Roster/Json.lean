import Roster.Binary64
import Roster.Count

/-! JSON values. The members of an object keep their order and may repeat a name; an
object is `plain` when no name of its members was written with an escape.
A number is an integer that fits 64 bits, signed or unsigned, or a binary64 number.
What is well written but means none of these is `unreadable`: a text with an unpaired
surrogate, a number out of range, a value nested too deep. It may stand only where it
is passed over. -/

namespace Roster

inductive Json
  | null
  | bool (b : Bool)
  | integer (n : Int)
  | double (x : Binary64)
  | string (s : String)
  | array (items : List Json)
  | object (members : List (String × Json)) (plain : Bool := true)
  | unreadable

namespace Json

mutual

def isReadable : Json → Bool
  | unreadable => false
  | array items => allReadable items
  | object members _ => membersReadable members
  | _ => true

def allReadable : List Json → Bool
  | [] => true
  | v :: rest => v.isReadable && allReadable rest

def membersReadable : List (String × Json) → Bool
  | [] => true
  | (_, v) :: rest => v.isReadable && membersReadable rest

end

theorem allReadable_map {α : Type} {write : α → Json} (l : List α)
    (h : ∀ a ∈ l, (write a).isReadable) : allReadable (l.map write) := by
  induction l with
  | nil => rfl
  | cons a rest ih => simp_all [allReadable]

theorem membersReadable_iff {l : List (String × Json)} :
    membersReadable l ↔ ∀ e ∈ l, e.2.isReadable := by
  induction l with
  | nil => simp [membersReadable]
  | cons e rest ih => simp [membersReadable, ih]

def ofNat (n : Nat) : Json := integer n

@[simp] theorem isReadable_ofNat (n : Nat) : (ofNat n).isReadable := rfl

def text? : Json → Option String
  | string s => some s
  | _ => none

def flag? : Json → Option Bool
  | bool b => some b
  | _ => none

def natural? (limit : Nat) : Json → Option Nat
  | integer (.ofNat n) => if n < limit then some n else none
  | _ => none

def number? : Json → Option Binary64
  | integer n => Binary64.ofInt? n
  | double x => some x
  | _ => none

def list? {α : Type} (item? : Json → Option α) : Json → Option (List α)
  | array items => items.mapM item?
  | _ => none

/-- An object whose member names are data, with one value form for all. -/
def table? {α : Type} (value? : Json → Option α) : Json → Option (List (String × α))
  | object members _ => members.mapM fun (name, v) => (value? v).map (name, ·)
  | _ => none

def plainTable? {α : Type} (value? : Json → Option α) : Json → Option (List (String × α))
  | object members true => (object members).table? value?
  | _ => none

def pair? {α : Type} (item? : Json → Option α) : Json → Option (α × α)
  | array [a, b] => (item? a).bind fun x => (item? b).map (x, ·)
  | _ => none

def orNull? {α : Type} (value? : Json → Option α) : Json → Option (Option α)
  | null => some none
  | v => (value? v).map some

theorem mapM_map {α β : Type} {item? : β → Option α} {write : α → β} (l : List α)
    (h : ∀ a ∈ l, item? (write a) = some a) : (l.map write).mapM item? = some l := by
  induction l with
  | nil => rfl
  | cons a rest ih =>
    simp only [List.map_cons, List.mapM_cons, h a (by simp), ih fun b hb => h b (by simp [hb])]
    rfl

theorem list?_map {α : Type} {item? : Json → Option α} {write : α → Json} (l : List α)
    (h : ∀ a ∈ l, item? (write a) = some a) : (array (l.map write)).list? item? = some l :=
  mapM_map l h

end Json

end Roster
