import Roster.Exchange.Problem
import Roster.Finding

/-! Findings in JSON. A finding names its kind as a constraint does, but a kind not
known here is refused. -/

namespace Roster

open Json

namespace MemberPlacement

def toJson (m : MemberPlacement) : Json :=
  object [("person_id", string m.person), ("group_id", ofOption string m.group)]

def ofJson? (v : Json) : Option MemberPlacement := do
  let l ← v.members? ["person_id", "group_id"] ["group_id"]
  return {
    person := ← required? "person_id" text? l
    group := ← required? "group_id" (orNull? text?) l }

end MemberPlacement

namespace Finding

def kind : Finding → String
  | pairMeetingSummary .. => "PairMeetingSummary"
  | pairMeetingSession .. => "PairMeetingSession"
  | repeatEncounter .. => "RepeatEncounter"
  | attributeBalance .. => "AttributeBalance"
  | immovablePerson .. => "ImmovablePerson"
  | immovablePeople .. => "ImmovablePeople"
  | togetherSplit .. => "TogetherSplit"
  | notTogether .. => "NotTogether"

def members : Finding → List (String × Json)
  | pairMeetingSummary people target actual mode sessions =>
    [("people", ofTexts [people.1, people.2]), ("target", ofNat target), ("actual", ofNat actual),
      ("mode", string mode.word), ("sessions", ofNats sessions)]
  | pairMeetingSession session people together groups =>
    [("session", ofNat session), ("people", ofTexts [people.1, people.2]),
      ("together", bool together),
      ("groups", array [ofOption string groups.1, ofOption string groups.2])]
  | repeatEncounter people count limit sessions =>
    [("people", ofTexts [people.1, people.2]), ("count", ofNat count),
      ("max_allowed", ofNat limit), ("sessions", ofNats sessions)]
  | attributeBalance session group key value desired actual =>
    [("session", ofNat session), ("group_id", string group), ("attribute_key", string key),
      ("value", string value), ("desired", ofNat desired), ("actual", ofNat actual)]
  | immovablePerson session person required actual =>
    [("session", ofNat session), ("person_id", string person),
      ("required_group", string required), ("actual_group", ofOption string actual)]
  | immovablePeople session person required =>
    [("session", ofNat session), ("person_id", string person), ("required_group", string required)]
  | togetherSplit session placements =>
    [("session", ofNat session), ("placements", array (placements.map MemberPlacement.toJson))]
  | notTogether session group people =>
    [("session", ofNat session), ("group_id", string group), ("people", ofTexts people)]

def toJson (f : Finding) : Json := object (("type", string f.kind) :: f.members)

theorem isReadable_toJson (f : Finding) : f.toJson.isReadable := by
  cases f <;> simp [toJson, members, isReadable, membersReadable, allReadable]
  exact allReadable_map _ fun m _ => by
    simp [MemberPlacement.toJson, isReadable, membersReadable]

def sessionOf? : List (String × Json) → Option Nat := required? "session" index?

def ofJson? (v : Json) : Option Finding := do
  let (kind, rest) ← v.tagged?
  match kind with
  | "PairMeetingSummary" =>
    let l ← rest.members? ["people", "target", "actual", "mode", "sessions"]
    return pairMeetingSummary (← required? "people" (pair? text?) l) (← required? "target" count? l)
      (← required? "actual" count? l) (← required? "mode" MeetingMode.ofMember? l)
      (← required? "sessions" (list? index?) l)
  | "PairMeetingSession" =>
    let l ← rest.members? ["session", "people", "together", "groups"]
    return pairMeetingSession (← sessionOf? l) (← required? "people" (pair? text?) l)
      (← required? "together" flag? l) (← required? "groups" (pair? (orNull? text?)) l)
  | "RepeatEncounter" =>
    let l ← rest.members? ["people", "count", "max_allowed", "sessions"]
    return repeatEncounter (← required? "people" (pair? text?) l) (← required? "count" count? l)
      (← required? "max_allowed" count? l) (← required? "sessions" (list? index?) l)
  | "AttributeBalance" =>
    let l ← rest.members? ["session", "group_id", "attribute_key", "value", "desired", "actual"]
    return attributeBalance (← sessionOf? l) (← required? "group_id" text? l)
      (← required? "attribute_key" text? l) (← required? "value" text? l)
      (← required? "desired" count? l) (← required? "actual" count? l)
  | "ImmovablePerson" =>
    let l ← rest.members? ["session", "person_id", "required_group", "actual_group"]
      ["actual_group"]
    return immovablePerson (← sessionOf? l) (← required? "person_id" text? l)
      (← required? "required_group" text? l) (← required? "actual_group" (orNull? text?) l)
  | "ImmovablePeople" =>
    let l ← rest.members? ["session", "person_id", "required_group"]
    return immovablePeople (← sessionOf? l) (← required? "person_id" text? l)
      (← required? "required_group" text? l)
  | "TogetherSplit" =>
    let l ← rest.members? ["session", "placements"]
    return togetherSplit (← sessionOf? l)
      (← required? "placements" (list? MemberPlacement.ofJson?) l)
  | "NotTogether" =>
    let l ← rest.members? ["session", "group_id", "people"]
    return notTogether (← sessionOf? l) (← required? "group_id" text? l)
      (← required? "people" (list? text?) l)
  | _ => none

end Finding

end Roster
