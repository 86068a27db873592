import Roster.Constraint
import Roster.Count

/-! What an inspection notes down. Each finding holds the facts needed to show one
unmet rule, or, for meetings, one session looked at; a verdict gathers the findings of
a constraint with the number of violations they stand for. -/

namespace Roster

structure MemberPlacement where
  person : String
  group : Option String
  deriving DecidableEq

inductive Finding
  | pairMeetingSummary (people : String × String) (target actual : Nat) (mode : MeetingMode)
      (sessions : List Nat)
  | pairMeetingSession (session : Nat) (people : String × String) (together : Bool)
      (groups : Option String × Option String)
  | repeatEncounter (people : String × String) (count limit : Nat) (sessions : List Nat)
  | attributeBalance (session : Nat) (group key value : String) (desired actual : Nat)
  | immovablePerson (session : Nat) (person required : String) (actual : Option String)
  | immovablePeople (session : Nat) (person required : String)
  | togetherSplit (session : Nat) (placements : List MemberPlacement)
  | notTogether (session : Nat) (group : String) (people : List String)
  deriving DecidableEq

def Finding.session? : Finding → Option Nat
  | pairMeetingSession session _ _ _ | attributeBalance session _ _ _ _ _
  | immovablePerson session _ _ _ | immovablePeople session _ _ | togetherSplit session _
  | notTogether session _ _ => some session
  | pairMeetingSummary .. | repeatEncounter .. => none

structure Verdict where
  violations : Nat
  findings : List Finding
  deriving DecidableEq

namespace Verdict

def clear : Verdict := ⟨0, []⟩

/-- One finding that stands for `violations`, or nothing when there are none. -/
def ofFinding (violations : Nat) (finding : Finding) : Verdict :=
  if violations = 0 then clear else ⟨violations, [finding]⟩

def sum (l : List Verdict) : Verdict := ⟨total (l.map (·.violations)), l.flatMap (·.findings)⟩

def checked (v : Verdict) : Except Overflow Verdict :=
  if v.violations < countLimit then .ok v else .error .addition

@[simp] theorem sum_nil : sum [] = clear := rfl

theorem sum_cons (v : Verdict) (l : List Verdict) :
    sum (v :: l) = ⟨v.violations + (sum l).violations, v.findings ++ (sum l).findings⟩ := rfl

theorem sum_append (l m : List Verdict) :
    sum (l ++ m) = ⟨(sum l).violations + (sum m).violations,
      (sum l).findings ++ (sum m).findings⟩ := by
  simp [sum]

@[simp] theorem violations_ofFinding (n : Nat) (finding : Finding) :
    (ofFinding n finding).violations = n := by
  unfold ofFinding
  split
  · rename_i none
    rw [none]
    rfl
  · rfl

theorem mem_findings_ofFinding {n : Nat} {finding f : Finding} :
    f ∈ (ofFinding n finding).findings ↔ 0 < n ∧ f = finding := by
  unfold ofFinding
  split
  · simp [clear, *]
  · simp [Nat.pos_iff_ne_zero, *]

theorem sum_map_ofFinding {α : Type} (n : α → Nat) (finding : α → Finding) (l : List α) :
    sum (l.map fun a => ofFinding (n a) (finding a)) =
      ⟨total (l.map n), (l.filter (0 < n ·)).map finding⟩ := by
  induction l with
  | nil => rfl
  | cons a rest ih =>
    rw [List.map_cons, sum_cons, ih, List.filter_cons, ofFinding]
    split <;> simp_all [clear, Nat.pos_iff_ne_zero]

theorem violations_sum_map {α : Type} (f : α → Verdict) (l : List α) :
    (sum (l.map f)).violations = total (l.map fun a => (f a).violations) := by
  rw [sum, List.map_map]
  rfl

end Verdict

end Roster
