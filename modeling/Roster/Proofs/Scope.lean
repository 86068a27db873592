import Roster.Proofs.OfAssignments
import Roster.Report

/-! What of a schedule a constraint looks at. A rule looks at the people it names, in the sessions
it covers and in whatever groups they are, and a balance at everyone in its group; so placements
of others may come and go and the verdict stays. -/

namespace Roster

theorem Verdict.sum_map_filter {α : Type} {keep : α → Bool} {f : α → Verdict} {l : List α}
    (idle : ∀ a ∈ l, keep a = false → f a = .clear) :
    sum ((l.filter keep).map f) = sum (l.map f) := by
  induction l with
  | nil => rfl
  | cons a rest ih =>
    obtain ⟨first, others⟩ := List.forall_mem_cons.1 idle
    cases kept : keep a with
    | true => rw [List.filter_cons_of_pos kept, List.map_cons, List.map_cons, sum_cons, sum_cons,
        ih others]
    | false =>
      rw [List.filter_cons_of_neg (by simp [kept]), List.map_cons, sum_cons, first kept, ih others]
      simp [clear]

namespace Schedule

variable {s s' : Schedule} {people : List String} {t : Nat}

theorem groupOf?_congr {person : String}
    (same : ∀ group, person ∈ s.peopleIn t group ↔ person ∈ s'.peopleIn t group) :
    s.groupOf? t person = s'.groupOf? t person := by
  ext group
  rw [groupOf?_eq_some, groupOf?_eq_some]
  simp only [same]

def company (s : Schedule) (people : List String) (t : Nat) : SessionGroups :=
  (((s.session? t).getD .empty).mapValues fun members =>
    people.filter (· ∈ members)).filterValues fun present => !present.isEmpty

theorem get?_company (s : Schedule) (people : List String) (t : Nat) (group : String) :
    (s.company people t).get? group = occupied? (people.filter (· ∈ s.peopleIn t group)) := by
  rw [company, SortedMap.get?_filterValues, SortedMap.get?_mapValues, filter_not_isEmpty,
    peopleIn_eq]
  cases ((s.session? t).getD .empty).get? group <;> simp

theorem company_congr
    (same : ∀ person ∈ people, ∀ group, person ∈ s.peopleIn t group ↔
      person ∈ s'.peopleIn t group) : s.company people t = s'.company people t := by
  refine SortedMap.ext_get? fun group => ?_
  rw [get?_company, get?_company]
  refine congrArg occupied? (List.filter_congr fun person named => ?_)
  exact decide_eq_decide.2 (same person named group)

end Schedule

namespace View

@[simp] theorem schedule_of (p : Problem) (s : Schedule) : (of p s).schedule = s := rfl

theorem inDeclaredOrder_mapValues (v : View) (groups : SessionGroups)
    (f : List String → List String) : v.inDeclaredOrder (groups.mapValues f) =
      (v.inDeclaredOrder groups).map fun e => (e.1, f e.2) := by
  simp only [inDeclaredOrder, SortedMap.get?_mapValues, List.map_append, List.map_filterMap,
    Option.map_map]
  rw [SortedMap.mapValues, List.filter_map]
  rfl

theorem inDeclaredOrder_filterValues (v : View) (groups : SessionGroups)
    (keep : List String → Bool) : v.inDeclaredOrder (groups.filterValues keep) =
      (v.inDeclaredOrder groups).filter fun e => keep e.2 := by
  simp only [inDeclaredOrder, SortedMap.get?_filterValues, List.filter_append,
    List.filter_filterMap]
  congr 1
  · refine List.filterMap_congr fun id _ => ?_
    cases groups.get? id with
    | none => rfl
    | some people => by_cases kept : keep people <;> simp [Option.filter, kept]
  · rw [SortedMap.filterValues, List.filter_filter, List.filter_filter]
    exact List.filter_congr fun e _ => Bool.and_comm _ _

theorem notTogether_eq_visits (v : View) (people : List String) (t : Nat) :
    v.notTogether people t =
      .sum ((v.inDeclaredOrder ((v.schedule.session? t).getD .empty)).map fun e =>
        .ofFinding ((people.filter (· ∈ e.2)).length - 1)
          (.notTogether t e.1 (people.filter (· ∈ e.2)))) := by
  rw [notTogether]
  cases v.schedule.session? t with
  | none => simp [inDeclaredOrder, SortedMap.empty, SortedMap.get?]
  | some groups => rfl

theorem notTogether_eq_company (v : View) (people : List String) (t : Nat) :
    v.notTogether people t = .sum ((v.inDeclaredOrder (v.schedule.company people t)).map fun e =>
      .ofFinding (e.2.length - 1) (.notTogether t e.1 e.2)) := by
  rw [Schedule.company, inDeclaredOrder_filterValues, Verdict.sum_map_filter,
    inDeclaredOrder_mapValues, List.map_map, notTogether_eq_visits]
  · rfl
  · intro e _ empty
    have nobody : e.2 = [] := by simpa using empty
    simp [nobody, Verdict.ofFinding]

end View

/-- A rule cannot tell two schedules apart in a session. To a balance the order of its group is
nothing; the others look only at who is in a group, however often. -/
def Rule.SeesAlike (r : Rule) (s s' : Schedule) (t : Nat) : Prop :=
  match r with
  | .attributeBalance group _ _ _ _ => (s.peopleIn t group).Perm (s'.peopleIn t group)
  | r => ∀ person ∈ r.people, ∀ group, person ∈ s.peopleIn t group ↔ person ∈ s'.peopleIn t group

theorem Rule.seesAlike_of_perm (r : Rule) {s s' : Schedule} {t : Nat}
    (order : ∀ group, (s.peopleIn t group).Perm (s'.peopleIn t group)) : r.SeesAlike s s' t := by
  cases r with
  | attributeBalance group => exact order group
  | _ => exact fun _ _ group => (order group).mem_iff

namespace View

variable {p : Problem} {s s' : Schedule} {t : Nat} {sessions : List Nat}

theorem groupOf?_of_congr {person : String}
    (same : ∀ group, person ∈ s.peopleIn t group ↔ person ∈ s'.peopleIn t group) :
    (of p s).groupOf? t person = (of p s').groupOf? t person := by
  rw [groupOf?_of, groupOf?_of, Schedule.groupOf?_congr same]

theorem stayTogether_of_congr {people : List String}
    (same : ∀ person ∈ people, ∀ group, person ∈ s.peopleIn t group ↔
      person ∈ s'.peopleIn t group) :
    (of p s).stayTogether people t = (of p s').stayTogether people t := by
  have found : people.map ((of p s).groupOf? t) = people.map ((of p s').groupOf? t) :=
    List.map_congr_left fun person named => groupOf?_of_congr (same person named)
  have placed :
      (people.map fun person => (⟨person, (of p s).groupOf? t person⟩ : MemberPlacement)) =
        people.map fun person => ⟨person, (of p s').groupOf? t person⟩ :=
    List.map_congr_left fun person named => by rw [groupOf?_of_congr (same person named)]
  simp only [stayTogether, found, placed]

theorem inspectRule_of_seesAlike {r : Rule} (alike : ∀ t ∈ sessions, r.SeesAlike s s' t) :
    (of p s).inspectRule sessions r = (of p s').inspectRule sessions r := by
  cases r with
  | attributeBalance group key desired mode =>
    refine congrArg Verdict.sum (List.map_congr_left fun t ht => ?_)
    have counted : ∀ value, (of p s).headcount key value (s.peopleIn t group) =
        (of p s').headcount key value (s'.peopleIn t group) :=
      fun _ => ((alike t ht).filter _).length_eq
    simp only [attributeBalance, schedule_of, counted]
  | immovablePerson person group =>
    refine congrArg Verdict.sum (List.map_congr_left fun t ht => ?_)
    have named : person ∈ (Rule.immovablePerson person group).people := List.mem_singleton.2 rfl
    rw [immovablePerson, immovablePerson, groupOf?_of_congr (alike t ht person named)]
  | immovablePeople people group =>
    refine congrArg Verdict.sum (List.map_congr_left fun t ht => ?_)
    have missing : people.filter (· ∉ s.peopleIn t group) =
        people.filter (· ∉ s'.peopleIn t group) :=
      List.filter_congr fun person named =>
        decide_eq_decide.2 (not_congr (alike t ht person named group))
    rw [immovablePeople, immovablePeople, schedule_of, schedule_of, missing]
  | mustStayTogether =>
    exact congrArg Verdict.sum (List.map_congr_left fun t ht => stayTogether_of_congr (alike t ht))
  | shouldStayTogether =>
    exact congrArg Verdict.sum (List.map_congr_left fun t ht => stayTogether_of_congr (alike t ht))
  | shouldNotBeTogether people =>
    refine congrArg Verdict.sum (List.map_congr_left fun t ht => ?_)
    have present : s.company people t = s'.company people t := Schedule.company_congr (alike t ht)
    rw [notTogether_eq_company, notTogether_eq_company, schedule_of, schedule_of, present]
    rfl
  | pairMeetingCount first second target mode =>
    have places : ∀ t ∈ sessions, (of p s).groupOf? t first = (of p s').groupOf? t first ∧
        (of p s).groupOf? t second = (of p s').groupOf? t second := by
      intro t ht
      exact ⟨groupOf?_of_congr (alike t ht first (by simp [Rule.people])),
        groupOf?_of_congr (alike t ht second (by simp [Rule.people]))⟩
    have met : ∀ t ∈ sessions, (of p s).meet first second t = (of p s').meet first second t := by
      intro t ht
      rw [meet, meet, (places t ht).1, (places t ht).2]
    have records : (sessions.map fun t => Finding.pairMeetingSession t (first, second)
          ((of p s).meet first second t) ((of p s).groupOf? t first, (of p s).groupOf? t second)) =
        sessions.map fun t => .pairMeetingSession t (first, second)
          ((of p s').meet first second t)
          ((of p s').groupOf? t first, (of p s').groupOf? t second) :=
      List.map_congr_left fun t ht => by rw [met t ht, (places t ht).1, (places t ht).2]
    rw [inspectRule, inspectRule, pairMeetingCount, pairMeetingCount, List.filter_congr met,
      records]

theorem judge_congr {v v' : View} {count : Nat} {c : Constraint}
    (same : v.inspect (c.covered count) c = v'.inspect (c.covered count) c) :
    v.judge count c = v'.judge count c := by
  rw [judge, judge, Constraint.listed]
  split
  · exact congrArg Verdict.checked same
  · rfl

end View

theorem Problem.exists_judge_eq_ok_iff {p : Problem} {s : Schedule} {c : Constraint} :
    (∃ verdict, p.judge s c = .ok verdict) ↔ c.Listable p.sessionCount ∧
      ((View.of p s).inspect (c.covered p.sessionCount) c).violations < countLimit := by
  simp only [judge_eq_ok, exists_and_left, exists_eq, and_true]

def Rule.concerns (r : Rule) (a : Assignment) : Bool :=
  match r with
  | .attributeBalance group _ _ _ _ => a.group = group
  | r => a.person ∈ r.people

def Constraint.concerns (c : Constraint) (count : Nat) (a : Assignment) : Bool :=
  match c with
  | .repeatEncounter .. => true
  | .rule r listed => a.session ∈ (Constraint.rule r listed).covered count && r.concerns a
  | .unknown => false

theorem Rule.seesAlike_filter (r : Rule) (l : List Assignment) {keep : Assignment → Bool} {t : Nat}
    (kept : ∀ a ∈ l, a.session = t → keep a = r.concerns a) :
    r.SeesAlike (.ofAssignments (l.filter keep)) (.ofAssignments l) t := by
  have named : ∀ person group, r.concerns ⟨person, group, t⟩ →
      (person ∈ (Schedule.ofAssignments (l.filter keep)).peopleIn t group ↔
        person ∈ (Schedule.ofAssignments l).peopleIn t group) := by
    intro person group concerned
    rw [Schedule.mem_peopleIn_ofAssignments, Schedule.mem_peopleIn_ofAssignments, List.mem_filter]
    exact and_iff_left_of_imp fun listed => (kept _ listed rfl).trans concerned
  cases r with
  | attributeBalance group key desired mode weight =>
    refine .of_eq ?_
    rw [Schedule.peopleIn_ofAssignments, Schedule.peopleIn_ofAssignments, List.filter_filter]
    refine congrArg (List.map _) (List.filter_congr fun a listed => ?_)
    by_cases here : a.session = t ∧ a.group = group
    · have concerned := kept a listed here.1
      simp [concerned, Rule.concerns, here]
    · simp [here]
  | _ => exact fun person listed group => named person group (decide_eq_true listed)

/-- A constraint is judged by the placements that concern it alone: with all others taken out of
the list the verdict is the same, and where there is none the reason is. -/
theorem judge_filter_concerns (p : Problem) (l : List Assignment) (c : Constraint) :
    p.judge (.ofAssignments (l.filter (c.concerns p.sessionCount))) c =
      p.judge (.ofAssignments l) c := by
  refine View.judge_congr ?_
  cases c with
  | repeatEncounter limit penalty weight =>
    have everything : l.filter ((Constraint.repeatEncounter limit penalty weight).concerns
        p.sessionCount) = l := List.filter_eq_self.2 fun _ _ => rfl
    rw [everything]
  | rule r listed =>
    refine View.inspectRule_of_seesAlike fun t covered => r.seesAlike_filter l fun a _ here => ?_
    rw [Constraint.concerns, here, decide_eq_true (SessionSet.mem_def.2 covered), Bool.true_and]
  | unknown => rfl

end Roster
