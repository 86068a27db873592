import Mathlib.Tactic.Common
import Roster.Proofs.Exchange.Record
import Roster.Proofs.Walks
import Roster.Exchange.Problem

/-! A problem file with a constraint put into its list. Whatever else stands in the file is read
as before, so the file is accepted or refused as before, and the problem has the constraint in
that place. An object of a foreign kind is one that is read as an unknown constraint. -/

namespace Roster

open Json

section Member

variable {name key : String} (v : Json) (before after : List (String × Json))

theorem lookup_member_of_ne (other : name ≠ key) :
    (before ++ (key, v) :: after).lookup name = (before ++ after).lookup name := by
  rw [List.lookup_append, List.lookup_append, List.lookup_cons, beq_false_of_ne other]

theorem lookup_member_of_notMem (first : key ∉ before.map Prod.fst) :
    (before ++ (key, v) :: after).lookup key = some v := by
  have absent : before.lookup key = none :=
    List.lookup_eq_none_iff.2 fun e he => by
      have : key ≠ e.1 := fun same => first (List.mem_map.2 ⟨e, he, same.symm⟩)
      simpa using this
  rw [List.lookup_append, absent, List.lookup_cons_self, Option.none_or]

theorem members?_member (names : List String) (plain : Bool) :
    (object (before ++ (key, v) :: after) plain).members? names =
      if ∀ name ∈ names, ((before ++ (key, null) :: after).filter (·.1 = name)).length ≤ 1 then
        some (before ++ (key, v) :: after) else none := by
  have as_often (name : String) : ((before ++ (key, v) :: after).filter (·.1 = name)).length =
      ((before ++ (key, null) :: after).filter (·.1 = name)).length := by
    by_cases same : key = name <;> simp [same]
  simp only [members?, as_often, List.map_nil, List.append_nil]

theorem notMem_of_once (once : ((before ++ (key, v) :: after).filter (·.1 = key)).length ≤ 1) :
    key ∉ before.map Prod.fst := by
  intro found
  obtain ⟨e, he, same⟩ := List.mem_map.1 found
  have counted : 0 < (before.filter (·.1 = key)).length :=
    List.length_pos_of_mem (List.mem_filter.2 ⟨he, by simpa using same⟩)
  simp only [List.filter_append, List.length_append, List.filter_cons, decide_true, if_true,
    List.length_cons] at once
  omega

end Member

namespace Problem

/-- A problem file that lists its constraints, with whatever other members around the list. -/
def document (before after : List (String × Json)) (plain : Bool) (items : List Json) : Json :=
  object (before ++ ("constraints", array items) :: after) plain

theorem toJson_eq_document (p : Problem) : p.toJson =
    document [("people", array (p.people.map Person.toJson)),
      ("groups", array (p.groups.map Group.toJson)), ("num_sessions", ofNat p.sessionCount)] []
      true (p.constraints.map Constraint.toJson) := rfl

def insertConstraint (p : Problem) (place : Nat) (c : Constraint) : Problem :=
  { p with constraints := p.constraints.insertIdx place c }

theorem ofJson?_document (before after : List (String × Json)) (plain : Bool) (items : List Json) :
    ofJson? (document before after plain items) =
      (ofJson? (document before after plain [])).bind fun p =>
        (items.mapM Constraint.ofJson?).map fun constraints => { p with constraints } := by
  simp only [ofJson?, document, members?_member]
  split
  · rename_i once
    have first := notMem_of_once _ _ _ (once "constraints" (by simp))
    simp (disch := decide) only [Option.bind_eq_bind, Option.bind_some, required?, default?,
      lookup_member_of_notMem _ _ _ first, lookup_member_of_ne, list?]
    generalize ((before ++ after).lookup "people").bind _ = people
    generalize ((before ++ after).lookup "groups").bind _ = groups
    generalize ((before ++ after).lookup "num_sessions").bind _ = count
    cases people <;> cases groups <;> cases count <;> cases items.mapM Constraint.ofJson? <;> rfl
  · rfl

theorem ofJson?_document_insertIdx {item : Json} {c : Constraint}
    (through : Constraint.ofJson? item = some c) (before after : List (String × Json))
    (plain : Bool) (items : List Json) (place : Nat) :
    ofJson? (document before after plain (items.insertIdx place item)) =
      (ofJson? (document before after plain items)).map (·.insertConstraint place c) := by
  rw [ofJson?_document, ofJson?_document _ _ _ items, mapM_insertIdx through]
  cases ofJson? (document before after plain []) with
  | none => rfl
  | some p => cases items.mapM Constraint.ofJson? <;> rfl

end Problem

def Constraint.IsSupported (kind : String) : Prop := ∃ c : Constraint, c ≠ unknown ∧ c.kind = kind

theorem Rule.reader?_eq_none {kind : String} (foreign : ∀ r : Rule, r.kind ≠ kind) :
    reader? kind = none := by
  unfold reader?
  split
  · exact absurd rfl (foreign (attributeBalance "" "" .empty))
  · exact absurd rfl (foreign (immovablePerson "" ""))
  · exact absurd rfl (foreign (immovablePeople [] ""))
  · exact absurd rfl (foreign (mustStayTogether []))
  · exact absurd rfl (foreign (shouldStayTogether []))
  · exact absurd rfl (foreign (shouldNotBeTogether []))
  · exact absurd rfl (foreign (pairMeetingCount "" "" 0))
  · rfl

/-- An object of a foreign kind is read as an unknown constraint, whatever readable members it
has and wherever the kind stands among them. -/
theorem Constraint.ofJson?_foreign {kind : String} {members : List (String × Json)} {plain : Bool}
    (named : members.filter (·.1 = "type") = [("type", string kind)])
    (foreign : ¬ IsSupported kind) (readable : ∀ e ∈ members, e.2.isReadable) :
    ofJson? (object members plain) = some unknown := by
  have other : kind ≠ "RepeatEncounter" := fun same =>
    foreign ⟨repeatEncounter 0, nofun, same.symm⟩
  have noRule : Rule.reader? kind = none :=
    Rule.reader?_eq_none fun r same => foreign ⟨rule r, nofun, same⟩
  rw [ofJson?, tagged?_object (membersReadable_iff.2 readable) named]
  simp only [Option.bind_eq_bind, Option.bind_some, if_neg other, noRule]
  rfl

end Roster
