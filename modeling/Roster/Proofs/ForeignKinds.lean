import Mathlib.Data.List.InsertIdx
import Roster.Json.Reader
import Roster.Proofs.Exchange.Document
import Roster.Proofs.Exchange.Problem
import Roster.Proofs.Rearranged
import Roster.Defect

/-! Files from a later version. A constraint of a kind not known here is kept as `unknown`, and
everything done with the problem is done as if it were not there: evaluation has one more
card, in its place and with nothing on it, and defects and reconciliations are as before. -/

namespace Roster

theorem flatMap_insertIdx {α β : Type} {f : α → List β} {a : α} (nothing : f a = []) (place : Nat)
    (l : List α) : (l.insertIdx place a).flatMap f = l.flatMap f := by
  induction place generalizing l with
  | zero => simp [nothing]
  | succ place ih =>
    cases l with
    | nil => rfl
    | cons first rest => simp [ih]

/-- What a card says, without its number. -/
def Card.said (card : Card) : Constraint × Verdict := (card.constraint, card.verdict)

namespace Summary

def ofSaid (l : List (Constraint × Verdict)) : Summary :=
  ofCards (l.map fun said => ⟨said.1, 0, said.2⟩)

theorem ofSaid_map_said (cards : List Card) : ofSaid (cards.map Card.said) = ofCards cards := by
  simp only [ofSaid, ofCards, List.map_map, List.filter_map, List.length_map]
  rfl

theorem ofSaid_eq_of_perm {l m : List (Constraint × Verdict)} (order : l.Perm m) :
    ofSaid l = ofSaid m := by
  have same := order.map fun said => Card.mk said.1 0 said.2
  rw [ofSaid, ofSaid, ofCards, ofCards, same.length_eq, (same.filter _).length_eq,
    total_perm (same.map _), total_perm ((same.filter _).map _)]

theorem ofSaid_cons_clear (c : Constraint) (l : List (Constraint × Verdict)) :
    ofSaid ((c, .clear) :: l) = { ofSaid l with constraints := l.length + 1 } := by
  cases hard : c.isHard <;>
    simp [ofSaid, ofCards, Card.adheres, Card.violations, Card.isHard, Verdict.clear, hard]

end Summary

namespace Problem

variable {p : Problem} {c : Constraint} (place : Nat)

theorem sameSession_insertConstraint (soft : c.isHard = false) (session : Nat) :
    SameSession (p.insertConstraint place c) session p session where
  groups := rfl
  active := rfl
  present _ := rfl
  pins := flatMap_insertIdx (f := fun d : Constraint => d.pins session)
    (Constraint.pins_of_soft soft) place p.constraints
  tied a b := by
    have lists : (p.insertConstraint place c).togetherLists session = p.togetherLists session := by
      rw [togetherLists_eq, togetherLists_eq, List.filterMap_eq_flatMap_toList,
        List.filterMap_eq_flatMap_toList]
      refine flatMap_insertIdx ?_ place _
      rw [Constraint.together?_of_soft soft]
      rfl
    rw [Tied, Tied, lists]

theorem reconcile_insertConstraint (soft : c.isHard = false) (previous : List Assignment)
    (seeding : Bool) :
    (p.insertConstraint place c).reconcile previous seeding = p.reconcile previous seeding := by
  refine reconcile_congr ?_ (fun t _ => sameSession_insertConstraint place soft t) previous seeding
  rfl

theorem map_kind_defects (p : Problem) : p.defects.map (·.kind) =
    (Defect.ofPeople p.sessionCount [] p.people ++ Defect.ofGroups [] p.groups).map (·.kind) ++
      p.constraints.flatMap fun c => (p.slips c).map (·.kind) := by
  have numbered : p.constraints.flatMap (fun c => (p.slips c).map (·.kind)) =
      p.constraints.zipIdx.flatMap fun e => (p.slips e.1).map (·.kind) := by
    conv_lhs => rw [← List.zipIdx_map_fst 0 p.constraints, List.flatMap_map]
  rw [defects, List.map_append, numbered, List.map_flatMap]
  simp only [List.map_map]
  rfl

theorem map_kind_defects_insertConstraint (right : p.slips c = []) :
    (p.insertConstraint place c).defects.map (·.kind) = p.defects.map (·.kind) := by
  rw [map_kind_defects, map_kind_defects]
  refine congrArg _ (flatMap_insertIdx ?_ place p.constraints)
  exact congrArg (List.map (·.kind)) right

theorem evaluate_insertConstraint {s : Schedule} {verdict : Verdict}
    (through : p.judge s c = .ok verdict) :
    ((p.insertConstraint place c).evaluate s).map (List.map Card.said) =
      (p.evaluate s).map fun cards => (cards.map Card.said).insertIdx place (c, verdict) := by
  let judged (d : Constraint) := (p.judge s d).map (d, ·)
  have step : judged c = .ok (c, verdict) := congrArg (Except.map (c, ·)) through
  have walk : ((p.insertConstraint place c).evaluate s).map (List.map Card.said) =
      (p.constraints.insertIdx place c).mapM judged :=
    map_evaluate _ s fun _ _ => rfl
  have alone : (p.evaluate s).map (List.map Card.said) = p.constraints.mapM judged :=
    map_evaluate p s fun _ _ => rfl
  rw [walk, mapM_insertIdx step, ← alone]
  cases p.evaluate s <;> rfl

theorem summary_insertConstraint {s : Schedule} {place : Nat}
    (position : place ≤ p.constraints.length) (through : p.judge s c = .ok .clear) :
    ((p.insertConstraint place c).evaluate s).map Summary.ofCards =
      (p.evaluate s).map fun cards =>
        { Summary.ofCards cards with constraints := cards.length + 1 } := by
  have told (x : Except Overflow (List Card)) :
      x.map Summary.ofCards = (x.map (List.map Card.said)).map Summary.ofSaid := by
    cases x with
    | error why => rfl
    | ok cards => exact congrArg Except.ok (Summary.ofSaid_map_said cards).symm
  rw [told, evaluate_insertConstraint place through]
  cases found : p.evaluate s with
  | error why => rfl
  | ok cards =>
    obtain ⟨-, -, rfl⟩ := evaluate_eq_ok.1 found
    have inside : place ≤ ((p.cards s).map Card.said).length := by simpa [cards] using position
    refine congrArg Except.ok ?_
    rw [Summary.ofSaid_eq_of_perm (List.perm_insertIdx _ _ inside), Summary.ofSaid_cons_clear,
      Summary.ofSaid_map_said, List.length_map]

end Problem

/-- A number too large for binary64 leaves the whole file unread, though it stands in a member that
nobody looks at. And with `2 ^ 60` sessions an unknown constraint ends the evaluation, since the
sessions it covers are listed first. -/
theorem foreign_kind_not_passed_over :
    ((Json.read? ("\x7b\"people\": [], \"groups\": [], \"num_sessions\": 1, " ++
        "\"constraints\": []\x7d")).bind Problem.ofJson? = some (.withSessions 1) ∧
      (Json.read? ("\x7b\"people\": [], \"groups\": [], \"num_sessions\": 1, " ++
        "\"constraints\": [\x7b\"type\": \"TimeTravel\", \"weight\": 1e400\x7d]\x7d")).bind
          Problem.ofJson? = none) ∧
      (Problem.withSessions listLimit).evaluate .empty = .ok [] ∧
      ((Problem.withSessions listLimit).insertConstraint 0 .unknown).evaluate .empty =
        .error .capacity := by
  decide +kernel

/-- An object of a foreign kind in a file, whatever else it holds, is one constraint more that is
numbered and gets a card. Nothing else comes of it. -/
theorem foreign_kind_passed_over {kind : String} {members : List (String × Json)} (plain : Bool)
    (named : members.filter (·.1 = "type") = [("type", .string kind)])
    (foreign : ¬ Constraint.IsSupported kind) (readable : ∀ e ∈ members, e.2.isReadable)
    (place : Nat) :
    (∀ before after whole items,
      Problem.ofJson? (Problem.document before after whole
          (items.insertIdx place (.object members plain))) =
        (Problem.ofJson? (Problem.document before after whole items)).map
          (·.insertConstraint place .unknown)) ∧
    ∀ p : Problem, place ≤ p.constraints.length →
      (p.sessionCount < listLimit → ∀ s : Schedule,
        ((p.insertConstraint place .unknown).evaluate s).map (List.map Card.said) =
            (p.evaluate s).map (fun cards =>
              (cards.map Card.said).insertIdx place (.unknown, .clear)) ∧
          ((p.insertConstraint place .unknown).evaluate s).map Summary.ofCards =
            (p.evaluate s).map fun cards =>
              { Summary.ofCards cards with constraints := cards.length + 1 }) ∧
      (p.insertConstraint place .unknown).defects.map (·.kind) = p.defects.map (·.kind) ∧
      ∀ previous seeding, (p.insertConstraint place .unknown).reconcile previous seeding =
        p.reconcile previous seeding := by
  refine ⟨fun before after whole items => ?_, fun p position => ⟨fun few s => ?_, ?_, ?_⟩⟩
  · exact Problem.ofJson?_document_insertIdx (Constraint.ofJson?_foreign named foreign readable)
      before after whole items place
  · have through : p.judge s .unknown = .ok .clear :=
      Problem.judge_eq_ok.2 ⟨⟨fun _ => few, (by decide : 0 < countLimit)⟩, rfl⟩
    exact ⟨Problem.evaluate_insertConstraint place through,
      Problem.summary_insertConstraint position through⟩
  · exact Problem.map_kind_defects_insertConstraint place rfl
  · exact Problem.reconcile_insertConstraint place rfl

def apart : Problem where
  people := [⟨"a", .empty, none⟩, ⟨"b", .empty, none⟩]
  groups := [⟨"x", 2⟩, ⟨"y", 2⟩]
  sessionCount := 1
  constraints := [.rule (.immovablePerson "b" "x"), .rule (.mustStayTogether ["a", "b"])]

def timeTravel : List (String × Json) :=
  [("people", .null), ("when", .array [.double .one, .object [("type", .bool true)]]),
    ("type", .string "TimeTravel"), ("people", .ofTexts ["a"])]

theorem not_isSupported_timeTravel : ¬ Constraint.IsSupported "TimeTravel" := by
  intro supported
  obtain ⟨c, known, same⟩ := supported
  cases c with
  | repeatEncounter limit penalty weight => simp [Constraint.kind] at same
  | rule r sessions => cases r <;> simp [Constraint.kind, Rule.kind] at same
  | unknown => exact known rfl

theorem foreign_kind_passed_over_timeTravel :
    Problem.ofJson? (Problem.document [("people", .array (apart.people.map Person.toJson)),
        ("groups", .array (apart.groups.map Group.toJson)), ("num_sessions", .ofNat 1)] [] true
        ((apart.constraints.map Constraint.toJson).insertIdx 1 (.object timeTravel))) =
      some (apart.insertConstraint 1 .unknown) ∧
    ((apart.insertConstraint 1 .unknown).evaluateAssignments [⟨"a", "y", 0⟩]).map Summary.ofCards =
      .ok ⟨3, 2, 2, 2⟩ ∧
    (apart.insertConstraint 1 .unknown).defects.map (·.kind) = [] ∧
    (apart.insertConstraint 1 .unknown).reconcile [⟨"a", "y", 0⟩] =
      .ok (.ofAssignments [⟨"b", "x", 0⟩, ⟨"a", "x", 0⟩]) := by
  have fits : apart.Fits := by decide +kernel
  have written : Problem.ofJson? apart.toJson = some apart := Problem.ofJson?_toJson fits
  rw [Problem.toJson_eq_document] at written
  have named : timeTravel.filter (·.1 = "type") = [("type", .string "TimeTravel")] := rfl
  obtain ⟨read, used⟩ :=
    foreign_kind_passed_over true named not_isSupported_timeTravel (by decide) 1
  obtain ⟨evaluated, defects, reconciled⟩ := used apart (by decide)
  refine ⟨?_, ?_, ?_, ?_⟩
  · exact (read _ _ _ _).trans (congrArg (Option.map _) written)
  · exact (evaluated (by decide) _).2.trans (by decide +kernel)
  · exact defects.trans (by decide +kernel)
  · exact (reconciled [⟨"a", "y", 0⟩] true).trans (by decide +kernel)

end Roster
