import Roster.Exchange.Problem
import Roster.Proofs.Exchange.Record
import Roster.Proofs.SortedMap

/-! A written problem reads back. Numbers are unbounded here, while the reader holds counts to
32 bits and sessions, sizes and numbers of sessions to 64: `Fits` says that a value has only
numbers of its width, and is all that is asked. -/

namespace Roster

open Json

def SessionsFit (sessions : List Nat) : Prop := ∀ t ∈ sessions, t < indexLimit

instance (sessions : List Nat) : Decidable (SessionsFit sessions) :=
  inferInstanceAs (Decidable (∀ t ∈ sessions, t < indexLimit))

@[simp] theorem PenaltyFunction.ofMember?_word (p : PenaltyFunction) :
    ofMember? (string p.word) = some p := by
  cases p <;> rfl

@[simp] theorem BalanceMode.ofMember?_word (m : BalanceMode) :
    ofMember? (string m.word) = some m := by
  cases m <;> rfl

@[simp] theorem MeetingMode.ofMember?_word (m : MeetingMode) :
    ofMember? (string m.word) = some m := by
  cases m <;> rfl

namespace Person

def Fits (p : Person) : Prop := ∀ s ∈ p.sessions, SessionsFit s.toList

instance (p : Person) : Decidable p.Fits :=
  inferInstanceAs (Decidable (∀ s ∈ p.sessions, SessionsFit s.toList))

def WrittenAs (p : Person) (v : Json) : Prop :=
  ∃ attributes : List (String × String),
    attributes.Perm p.attributes.entries ∧ v = p.toJsonWith attributes

theorem writtenAs_toJson (p : Person) : p.WrittenAs p.toJson := ⟨_, .refl _, rfl⟩

theorem ofJson?_of_writtenAs {p : Person} (fits : p.Fits) {v : Json} (written : p.WrittenAs v) :
    ofJson? v = some p := by
  obtain ⟨attributes, order, rfl⟩ := written
  obtain ⟨id, held, sessions⟩ := p
  have table : (object (attributes.map fun e => (e.1, string e.2))).table? text? =
      some attributes :=
    table?_map attributes fun _ _ => rfl
  have whole : SortedMap.ofList attributes = held := SortedMap.ofList_eq_of_perm order
  have listed : optional? "sessions" (fun v => (v.list? index?).map SessionSet.ofList)
      (optionalMember "sessions" (fun s : SessionSet => ofNats s.toList) sessions) =
        some sessions :=
    optional?_optionalMember fun s given => by
      rw [orNull?_of_isNull rfl, list?_ofNats (fits s given)]
      simp
  rw [ofJson?, toJsonWith, members?_object (nodup_append_optionalMember (by simp) (by simp))]
  simp [text?, table, whole, listed]

end Person

namespace Group

def Fits (g : Group) : Prop := g.size < indexLimit

instance (g : Group) : Decidable g.Fits := inferInstanceAs (Decidable (g.size < indexLimit))

theorem ofJson?_toJson {g : Group} (fits : g.Fits) : ofJson? g.toJson = some g := by
  rw [ofJson?, toJson, members?_object (by simp)]
  simp [text?, index?_ofNat fits]

end Group

namespace Headcounts

def Fits (h : Headcounts) : Prop := ∀ e ∈ h.entries, e.2 < countLimit

instance (h : Headcounts) : Decidable h.Fits :=
  inferInstanceAs (Decidable (∀ e ∈ h.entries, e.2 < countLimit))

theorem ofJson?_toJson {h : Headcounts} (fits : h.Fits) : ofJson? h.toJson = some h := by
  rw [ofJson?, toJson, table?_map h.entries fun e he => count?_ofNat (fits e he)]
  simp

end Headcounts

namespace Rule

def Fits : Rule → Prop
  | attributeBalance _ _ desired _ _ => desired.Fits
  | pairMeetingCount _ _ target _ _ => target < countLimit
  | _ => True

instance : DecidablePred Fits
  | attributeBalance _ _ desired _ _ => inferInstanceAs (Decidable desired.Fits)
  | pairMeetingCount _ _ target _ _ => inferInstanceAs (Decidable (target < countLimit))
  | immovablePerson .. | immovablePeople .. | mustStayTogether .. | shouldStayTogether ..
  | shouldNotBeTogether .. => inferInstanceAs (Decidable True)

theorem nodup_members (r : Rule) : (r.members.map Prod.fst).Nodup := by
  cases r <;> simp [members]

theorem type_notMem_members (r : Rule) : "type" ∉ r.members.map Prod.fst := by
  cases r <;> simp [members]

theorem sessions_notMem_members (r : Rule) : "sessions" ∉ r.members.map Prod.fst := by
  cases r <;> simp [members]

theorem optional?_sessions_members {α : Type} (r : Rule) (value? : Json → Option α)
    (tail : List (String × Json)) :
    optional? "sessions" value? (r.members ++ tail) = optional? "sessions" value? tail := by
  cases r <;> simp [members]

theorem exists_reader? {r : Rule} (fits : r.Fits) :
    ∃ names read?, reader? r.kind = some (names, read?) ∧
      ∀ tail, read? (r.members ++ tail) = some r := by
  cases r with
  | attributeBalance group key desired mode weight =>
    refine ⟨_, _, rfl, fun tail => ?_⟩
    simp [members, weightOf?, text?, number?, Headcounts.ofJson?_toJson fits]
  | pairMeetingCount first second target mode weight =>
    refine ⟨_, _, rfl, fun tail => ?_⟩
    simp [members, weightOf?, number?, count?_ofNat fits]
  | _ =>
    refine ⟨_, _, rfl, fun tail => ?_⟩
    simp [members, weightOf?, peopleOf?, text?, number?]

theorem kind_ne_repeatEncounter (r : Rule) : r.kind ≠ "RepeatEncounter" := by
  cases r <;> simp [kind]

end Rule

namespace Constraint

def Fits : Constraint → Prop
  | repeatEncounter limit _ _ => limit < countLimit
  | rule r sessions => r.Fits ∧ ∀ listed ∈ sessions, SessionsFit listed
  | unknown => True

instance : DecidablePred Fits
  | repeatEncounter limit _ _ => inferInstanceAs (Decidable (limit < countLimit))
  | rule r sessions =>
    inferInstanceAs (Decidable (r.Fits ∧ ∀ listed ∈ sessions, SessionsFit listed))
  | unknown => inferInstanceAs (Decidable True)

theorem ofJson?_toJson {c : Constraint} (fits : c.Fits) : ofJson? c.toJson = some c := by
  have readable := c.isReadable_toJson
  cases c with
  | repeatEncounter limit penalty weight =>
    rw [ofJson?, toJson, tagged?_cons readable (by simp)]
    simp only [kind, Option.bind_eq_bind, Option.bind_some, if_true]
    rw [repeatEncounterOf?, members?_object (by simp)]
    simp [Rule.weightOf?, number?, count?_ofNat fits]
  | rule r sessions =>
    obtain ⟨ruleFits, sessionsFit⟩ := fits
    obtain ⟨names, read?, known, read⟩ := Rule.exists_reader? ruleFits
    have listed : optional? "sessions" (list? index?)
        (r.members ++ optionalMember "sessions" ofNats sessions) = some sessions := by
      rw [r.optional?_sessions_members]
      refine optional?_optionalMember fun l given => ?_
      rw [orNull?_of_isNull rfl, list?_ofNats (sessionsFit l given)]
      rfl
    have untagged : "type" ∉
        (r.members ++ optionalMember "sessions" ofNats sessions).map Prod.fst := by
      rw [List.map_append, List.mem_append]
      rintro (own | last)
      · exact r.type_notMem_members own
      · obtain ⟨e, he, same⟩ := List.mem_map.1 last
        obtain ⟨l, _, rfl⟩ := mem_optionalMember.1 he
        simp at same
    rw [ofJson?, toJson, tagged?_cons readable untagged]
    simp only [kind, Option.bind_eq_bind, Option.bind_some, r.kind_ne_repeatEncounter, if_false,
      known, members?_object (nodup_append_optionalMember r.nodup_members
        r.sessions_notMem_members), List.map_nil, List.append_nil, read, listed]
    rfl
  | unknown => rfl

end Constraint

namespace Problem

/-- All numbers of the problem have their widths. -/
structure Fits (p : Problem) : Prop where
  people : ∀ q ∈ p.people, q.Fits
  groups : ∀ g ∈ p.groups, g.Fits
  sessionCount : p.sessionCount < indexLimit
  constraints : ∀ c ∈ p.constraints, c.Fits

instance (p : Problem) : Decidable p.Fits :=
  decidable_of_iff ((∀ q ∈ p.people, q.Fits) ∧ (∀ g ∈ p.groups, g.Fits) ∧
    p.sessionCount < indexLimit ∧ ∀ c ∈ p.constraints, c.Fits)
    ⟨fun ⟨people, groups, count, constraints⟩ => ⟨people, groups, count, constraints⟩,
      fun fits => ⟨fits.people, fits.groups, fits.sessionCount, fits.constraints⟩⟩

/-- The attributes of each person may come in any order. -/
def WrittenAs (p : Problem) (v : Json) : Prop :=
  ∃ people : List Json, List.Forall₂ Person.WrittenAs p.people people ∧ v = p.toJsonWith people

theorem writtenAs_toJson (p : Problem) : p.WrittenAs p.toJson :=
  ⟨_, List.forall₂_map_right_iff.2 (List.forall₂_same.2 fun q _ => q.writtenAs_toJson), rfl⟩

theorem ofJson?_of_writtenAs {p : Problem} (fits : p.Fits) {v : Json} (written : p.WrittenAs v) :
    ofJson? v = some p := by
  obtain ⟨items, each, rfl⟩ := written
  have people : (array items).list? Person.ofJson? = some p.people := by
    refine list?_of_forall₂ (List.forall₂_iff_get.2 ⟨each.length_eq, fun i hi hj => ?_⟩)
    exact Person.ofJson?_of_writtenAs (fits.people _ (List.get_mem ..)) (each.get hi hj)
  have groups := list?_map p.groups fun g hg => Group.ofJson?_toJson (fits.groups g hg)
  have constraints :=
    list?_map p.constraints fun c hc => Constraint.ofJson?_toJson (fits.constraints c hc)
  rw [ofJson?, toJsonWith, members?_object (by simp)]
  simp [people, groups, index?_ofNat fits.sessionCount, constraints]

theorem ofJson?_toJson {p : Problem} (fits : p.Fits) : ofJson? p.toJson = some p :=
  ofJson?_of_writtenAs fits p.writtenAs_toJson

end Problem

end Roster
