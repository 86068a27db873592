import Roster.Exchange.Record
import Roster.Problem

/-! Problems in JSON. A constraint of a kind not known here is read as `unknown`,
whatever else it holds, so that newer files stay readable. Words have one form by
themselves, `ofJson?`, and a wider one as members of a tagged record, `ofMember?`. -/

namespace Roster

open Json

namespace PenaltyFunction

def word : PenaltyFunction → String
  | linear => "linear"
  | squared => "squared"

def words : List (String × PenaltyFunction) :=
  [("linear", linear), ("squared", squared)]

def ofJson? : Json → Option PenaltyFunction := choice? isNull words

def ofMember? : Json → Option PenaltyFunction := choice? isVoid words

end PenaltyFunction

namespace BalanceMode

def word : BalanceMode → String
  | exact => "exact"
  | atLeast => "at_least"

def words : List (String × BalanceMode) :=
  [("exact", exact), ("at_least", atLeast)]

def ofJson? : Json → Option BalanceMode := choice? isNull words

def ofMember? : Json → Option BalanceMode := choice? isVoid words

end BalanceMode

namespace MeetingMode

def word : MeetingMode → String
  | atLeast => "at_least"
  | exact => "exact"
  | atMost => "at_most"

def words : List (String × MeetingMode) :=
  [("at_least", atLeast), ("exact", exact), ("at_most", atMost)]

def ofJson? : Json → Option MeetingMode := choice? isNull words

def ofMember? : Json → Option MeetingMode := choice? isVoid words

end MeetingMode

namespace Person

/-- A person with the attributes written in some order. -/
def toJsonWith (p : Person) (attributes : List (String × String)) : Json :=
  object <|
    [("id", string p.id), ("attributes", object (attributes.map fun e => (e.1, string e.2)))] ++
    optionalMember "sessions" (fun s : SessionSet => ofNats s.toList) p.sessions

def toJson (p : Person) : Json := p.toJsonWith p.attributes.entries

def ofJson? (v : Json) : Option Person := do
  let l ← v.members? ["id", "attributes", "sessions"]
  return {
    id := ← required? "id" text? l
    attributes := ← default? "attributes" .empty (fun v => (v.table? text?).map .ofList) l
    sessions := ← optional? "sessions" (fun v => (v.list? index?).map .ofList) l }

end Person

namespace Group

def toJson (g : Group) : Json := object [("id", string g.id), ("size", ofNat g.size)]

def ofJson? (v : Json) : Option Group := do
  let l ← v.members? ["id", "size"]
  return { id := ← required? "id" text? l, size := ← required? "size" index? l }

end Group

namespace Headcounts

def toJson (h : Headcounts) : Json := object (h.entries.map fun e => (e.1, ofNat e.2))

@[simp] theorem isReadable_toJson (h : Headcounts) : h.toJson.isReadable :=
  membersReadable_iff.2 fun e he => by
    obtain ⟨d, _, rfl⟩ := List.mem_map.1 he
    exact isReadable_ofNat d.2

def ofJson? (v : Json) : Option Headcounts := (v.table? count?).map .ofList

end Headcounts

namespace Rule

def members : Rule → List (String × Json)
  | attributeBalance group key desired mode weight =>
    [("group_id", string group), ("attribute_key", string key),
      ("desired_values", desired.toJson), ("mode", string mode.word),
      ("penalty_weight", double weight)]
  | immovablePerson person group => [("person_id", string person), ("group_id", string group)]
  | immovablePeople people group => [("people", ofTexts people), ("group_id", string group)]
  | mustStayTogether people => [("people", ofTexts people)]
  | shouldStayTogether people weight | shouldNotBeTogether people weight =>
    [("people", ofTexts people), ("penalty_weight", double weight)]
  | pairMeetingCount first second target mode weight =>
    [("people", ofTexts [first, second]), ("target_meetings", ofNat target),
      ("mode", string mode.word), ("penalty_weight", double weight)]

def weightOf? : List (String × Json) → Option Binary64 := default? "penalty_weight" .one number?

def peopleOf? : List (String × Json) → Option (List String) := required? "people" (list? text?)

def reader? (kind : String) : Option (List String × (List (String × Json) → Option Rule)) :=
  match kind with
  | "AttributeBalance" => some
    (["group_id", "attribute_key", "desired_values", "mode", "penalty_weight", "sessions"],
      fun l => do
        return attributeBalance (← required? "group_id" text? l)
          (← required? "attribute_key" text? l) (← required? "desired_values" Headcounts.ofJson? l)
          (← default? "mode" .exact BalanceMode.ofMember? l) (← weightOf? l))
  | "ImmovablePerson" => some (["person_id", "group_id", "sessions"], fun l => do
      return immovablePerson (← required? "person_id" text? l) (← required? "group_id" text? l))
  | "ImmovablePeople" => some (["people", "group_id", "sessions"], fun l => do
      return immovablePeople (← peopleOf? l) (← required? "group_id" text? l))
  | "MustStayTogether" => some (["people", "sessions"], fun l => do
      return mustStayTogether (← peopleOf? l))
  | "ShouldStayTogether" => some (["people", "penalty_weight", "sessions"], fun l => do
      return shouldStayTogether (← peopleOf? l) (← weightOf? l))
  | "ShouldNotBeTogether" => some (["people", "penalty_weight", "sessions"], fun l => do
      return shouldNotBeTogether (← peopleOf? l) (← weightOf? l))
  | "PairMeetingCount" => some
    (["people", "target_meetings", "mode", "penalty_weight", "sessions"], fun l => do
      let (first, second) ← required? "people" (pair? text?) l
      return pairMeetingCount first second (← required? "target_meetings" count? l)
        (← default? "mode" .atLeast MeetingMode.ofMember? l) (← weightOf? l))
  | _ => none

end Rule

namespace Constraint

def toJson (c : Constraint) : Json :=
  object <| ("type", string c.kind) ::
    match c with
    | repeatEncounter limit penalty weight =>
      [("max_allowed_encounters", ofNat limit), ("penalty_function", string penalty.word),
        ("penalty_weight", double weight)]
    | rule r sessions => r.members ++ optionalMember "sessions" ofNats sessions
    | unknown => []

def repeatEncounterOf? (rest : Json) : Option Constraint := do
  let l ← rest.members? ["max_allowed_encounters", "penalty_function", "penalty_weight"]
  return repeatEncounter (← required? "max_allowed_encounters" count? l)
    (← default? "penalty_function" .linear PenaltyFunction.ofMember? l) (← Rule.weightOf? l)

theorem isReadable_toJson (c : Constraint) : c.toJson.isReadable := by
  rcases c with _ | ⟨r, _ | sessions⟩ | _
  · rfl
  · cases r <;> simp [toJson, isReadable, membersReadable, Rule.members, optionalMember]
  · cases r <;> simp [toJson, isReadable, membersReadable, Rule.members, optionalMember]
  · rfl

/-- Any members go with an unknown kind, but not further items of an array. -/
def unknownOf? : Json → Option Constraint
  | array (_ :: _) => none
  | _ => some unknown

def ofJson? (v : Json) : Option Constraint := do
  let (kind, rest) ← v.tagged?
  if kind = "RepeatEncounter" then repeatEncounterOf? rest
  else match Rule.reader? kind with
    | some (names, read?) =>
      let l ← rest.members? names
      return rule (← read? l) (← optional? "sessions" (list? index?) l)
    | none => unknownOf? rest

end Constraint

namespace Problem

def toJsonWith (p : Problem) (people : List Json) : Json :=
  object [("people", array people), ("groups", array (p.groups.map Group.toJson)),
    ("num_sessions", ofNat p.sessionCount),
    ("constraints", array (p.constraints.map Constraint.toJson))]

def toJson (p : Problem) : Json := p.toJsonWith (p.people.map Person.toJson)

def ofJson? (v : Json) : Option Problem := do
  let l ← v.members? ["people", "groups", "num_sessions", "constraints"]
  return {
    people := ← required? "people" (list? Person.ofJson?) l
    groups := ← required? "groups" (list? Group.ofJson?) l
    sessionCount := ← required? "num_sessions" index? l
    constraints := ← default? "constraints" [] (list? Constraint.ofJson?) l }

end Problem

end Roster
