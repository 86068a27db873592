import Roster.Json

/-! Records in JSON. A record is an object, whose unknown members are passed over and
whose known ones may stand once, or an array of the members in declared order, whose
last ones may be left out. Reading either gives the members by name. Counts have 32
bits; session indices, group sizes and numbers of sessions have 64. -/

namespace Roster.Json

def count? : Json → Option Nat := natural? countLimit

def index? : Json → Option Nat := natural? indexLimit

def members? (names : List String) (nullable : List String := []) :
    Json → Option (List (String × Json))
  | object l _ =>
    if ∀ name ∈ names, (l.filter (·.1 = name)).length ≤ 1 then
      some (l ++ nullable.map (·, null))
    else none
  | array items => if items.length ≤ names.length then some (names.zip items) else none
  | _ => none

/-- A record that names its kind, and what is left of it: in an object the one member
`type`, in an array the first item. The name may come last, so all of it is taken up
and nothing in it may be unreadable. -/
def tagged? (v : Json) : Option (String × Json) :=
  if !v.isReadable then none
  else match v with
    | object l _ =>
      match l.filter (·.1 = "type") with
      | [(_, string tag)] => some (tag, object (l.filter (·.1 ≠ "type")))
      | _ => none
    | array (string tag :: items) => some (tag, array items)
    | _ => none

def isNull : Json → Bool
  | null => true
  | _ => false

def isVoid : Json → Bool
  | null | object [] _ => true
  | _ => false

def choice? {α : Type} (holdsNothing : Json → Bool) (words : List (String × α)) :
    Json → Option α
  | string s => words.lookup s
  | object [(s, v)] _ => if holdsNothing v then words.lookup s else none
  | _ => none

def required? {α : Type} (name : String) (value? : Json → Option α) (l : List (String × Json)) :
    Option α :=
  (l.lookup name).bind value?

/-- A member that may be left out but not be null. -/
def default? {α : Type} (name : String) (value : α) (value? : Json → Option α)
    (l : List (String × Json)) : Option α :=
  match l.lookup name with
  | none => some value
  | some v => value? v

def optional? {α : Type} (name : String) (value? : Json → Option α) (l : List (String × Json)) :
    Option (Option α) :=
  default? name none (orNull? value?) l

def optionalMember {α : Type} (name : String) (write : α → Json) :
    Option α → List (String × Json)
  | none => []
  | some a => [(name, write a)]

def ofOption {α : Type} (write : α → Json) : Option α → Json
  | none => null
  | some a => write a

@[simp] theorem isReadable_ofOption_string (o : Option String) :
    (ofOption string o).isReadable := by
  cases o <;> rfl

def ofTexts (l : List String) : Json := array (l.map string)

def ofNats (l : List Nat) : Json := array (l.map ofNat)

@[simp] theorem isReadable_ofTexts (l : List String) : (ofTexts l).isReadable :=
  allReadable_map l fun _ _ => rfl

@[simp] theorem isReadable_ofNats (l : List Nat) : (ofNats l).isReadable :=
  allReadable_map l fun _ _ => rfl

end Roster.Json
