import Mathlib
import Roster.Exchange.Schedule
import Roster.Exchange.Finding
import Roster.Proofs.Exchange.Problem

/-! Reading undoes writing for everything that is exchanged: problems, schedules and findings.
Sessions of a schedule are names of members there, so their decimal form has to read back too. -/

namespace Roster

open Json

namespace Schedule

def Fits (s : Schedule) : Prop := SessionsFit (s.sessions.entries.map Prod.fst)

instance (s : Schedule) : Decidable s.Fits :=
  inferInstanceAs (Decidable (SessionsFit (s.sessions.entries.map Prod.fst)))

theorem sessionOfName?_toString {n : Nat} (fits : n < indexLimit) :
    sessionOfName? (toString n) = some n := by
  have number : (toString n).toNat? = some n := Nat.toNat?_repr n
  rw [sessionOfName?, number, Option.filter_some]
  simp [fits]

theorem groupsOfJson?_toJson (groups : SessionGroups) :
    groupsOfJson? (groupsToJson groups) = some groups := by
  rw [groupsOfJson?, groupsToJson, table?_map groups.entries fun e _ => list?_ofTexts e.2]
  simp

theorem ofJson?_toJson {s : Schedule} (fits : s.Fits) : ofJson? s.toJson = some s := by
  obtain ⟨sessions⟩ := s
  let named := sessions.entries.map fun e => (toString e.1, e.2)
  have table : (object (sessions.entries.map fun e =>
      (toString e.1, groupsToJson e.2))).plainTable? groupsOfJson? = some named := by
    have written : (object (named.map fun e => (e.1, groupsToJson e.2))).table? groupsOfJson? =
        some named :=
      table?_map named fun e _ => groupsOfJson?_toJson e.2
    rw [List.map_map] at written
    exact written
  have back : named.mapM (fun e => (sessionOfName? e.1).map (·, e.2)) = some sessions.entries := by
    refine mapM_map _ fun e he => ?_
    rw [sessionOfName?_toString (fits _ (List.mem_map_of_mem he))]
    rfl
  rw [ofJson?, toJson, members?_object (by simp)]
  simp only [List.map_nil, List.append_nil, Option.bind_eq_bind, Option.bind_some, required?_cons,
    if_true, table, back, SortedMap.ofList_entries]
  rfl

end Schedule

theorem MemberPlacement.ofJson?_toJson (m : MemberPlacement) : ofJson? m.toJson = some m := by
  rw [ofJson?, toJson, members?_object (by simp)]
  simp [text?]

namespace Finding

def Fits : Finding → Prop
  | pairMeetingSummary _ target actual _ sessions =>
    target < countLimit ∧ actual < countLimit ∧ SessionsFit sessions
  | repeatEncounter _ count limit sessions =>
    count < countLimit ∧ limit < countLimit ∧ SessionsFit sessions
  | attributeBalance session _ _ _ desired actual =>
    session < indexLimit ∧ desired < countLimit ∧ actual < countLimit
  | pairMeetingSession session _ _ _ | immovablePerson session _ _ _ | immovablePeople session _ _
  | togetherSplit session _ | notTogether session _ _ => session < indexLimit

instance : DecidablePred Fits
  | pairMeetingSummary _ target actual _ sessions =>
    inferInstanceAs (Decidable (target < countLimit ∧ actual < countLimit ∧ SessionsFit sessions))
  | repeatEncounter _ count limit sessions =>
    inferInstanceAs (Decidable (count < countLimit ∧ limit < countLimit ∧ SessionsFit sessions))
  | attributeBalance session _ _ _ desired actual => inferInstanceAs
    (Decidable (session < indexLimit ∧ desired < countLimit ∧ actual < countLimit))
  | pairMeetingSession session _ _ _ | immovablePerson session _ _ _ | immovablePeople session _ _
  | togetherSplit session _ | notTogether session _ _ =>
    inferInstanceAs (Decidable (session < indexLimit))

theorem type_notMem_members (f : Finding) : "type" ∉ f.members.map Prod.fst := by
  cases f <;> simp [members]

theorem ofJson?_toJson {f : Finding} (fits : f.Fits) : ofJson? f.toJson = some f := by
  rw [ofJson?, toJson, tagged?_cons f.isReadable_toJson f.type_notMem_members]
  cases f with
  | pairMeetingSummary people target actual mode sessions =>
    obtain ⟨targetFits, actualFits, sessionsFit⟩ := fits
    simp [kind, members, members?_object, count?_ofNat targetFits, count?_ofNat actualFits,
      list?_ofNats sessionsFit]
  | pairMeetingSession session people together groups =>
    simp [kind, members, members?_object, sessionOf?, index?_ofNat fits, flag?]
  | repeatEncounter people count limit sessions =>
    obtain ⟨countFits, limitFits, sessionsFit⟩ := fits
    simp [kind, members, members?_object, count?_ofNat countFits, count?_ofNat limitFits,
      list?_ofNats sessionsFit]
  | attributeBalance session group key value desired actual =>
    obtain ⟨sessionFits, desiredFits, actualFits⟩ := fits
    simp [kind, members, members?_object, sessionOf?, index?_ofNat sessionFits, text?,
      count?_ofNat desiredFits, count?_ofNat actualFits]
  | togetherSplit session placements =>
    have back := list?_map placements fun m _ => MemberPlacement.ofJson?_toJson m
    simp [kind, members, members?_object, sessionOf?, index?_ofNat fits, back]
  | immovablePerson session person required actual =>
    simp [kind, members, members?_object, sessionOf?, index?_ofNat fits, text?]
  | immovablePeople session person required =>
    simp [kind, members, members?_object, sessionOf?, index?_ofNat fits, text?]
  | notTogether session group people =>
    simp [kind, members, members?_object, sessionOf?, index?_ofNat fits, text?]

end Finding

/-- Reading undoes writing, in whatever order the attributes of people are written. Equal wanted
headcounts are in the same order, and equal weights have the same bits. -/
theorem ofJson?_toJson_of_fits :
    (∀ p : Problem, p.Fits → Problem.ofJson? p.toJson = some p ∧
      ∀ v, p.WrittenAs v → Problem.ofJson? v = some p) ∧
      (∀ s : Schedule, s.Fits → Schedule.ofJson? s.toJson = some s) ∧
      ∀ f : Finding, f.Fits → Finding.ofJson? f.toJson = some f :=
  ⟨fun _ fits => ⟨Problem.ofJson?_toJson fits, fun _ => Problem.ofJson?_of_writtenAs fits⟩,
    fun _ => Schedule.ofJson?_toJson, fun _ => Finding.ofJson?_toJson⟩

def half : Binary64 := ⟨0x3fe0000000000000, by decide⟩

def everyKind : Problem where
  people := [⟨"a", .ofList [("role", "lead"), ("age", "7")], some (.ofList [2, 0])⟩,
    ⟨"b", .empty, none⟩]
  groups := [⟨"x", 2⟩]
  sessionCount := 3
  constraints := [.repeatEncounter 1 .squared half,
    .rule (.attributeBalance "x" "role" (.ofList [("member", 2), ("lead", 1)]) .atLeast half) none,
    .rule (.immovablePerson "a" "x") (some [2, 0, 2]), .rule (.immovablePeople ["a", "b"] "x") none,
    .rule (.mustStayTogether ["b", "a"]) (some []),
    .rule (.shouldStayTogether ["a", "b"] half) none, .rule (.shouldNotBeTogether ["a"]) (some [1]),
    .rule (.pairMeetingCount "a" "b" 2 .atMost half) none, .unknown]

def lastSession : Schedule :=
  ⟨.ofList [(0, .empty), (indexLimit - 1, .ofList [("x", ["b", "a"]), ("y", [])])]⟩

def everyKindWritten : Json :=
  everyKind.toJsonWith (everyKind.people.map fun q => q.toJsonWith q.attributes.entries.reverse)

theorem ofJson?_toJson_everyKind :
    (everyKind.Fits ∧ Problem.ofJson? everyKind.toJson = some everyKind ∧
      everyKind.WrittenAs everyKindWritten ∧ Problem.ofJson? everyKindWritten = some everyKind) ∧
      (lastSession.Fits ∧ Schedule.ofJson? lastSession.toJson = some lastSession) ∧
      Finding.ofJson? (Finding.immovablePerson 2 "a" "x" none).toJson =
        some (.immovablePerson 2 "a" "x" none) := by
  have problem : everyKind.Fits := by decide +kernel
  have schedule : lastSession.Fits := by decide +kernel
  have written : everyKind.WrittenAs everyKindWritten :=
    ⟨_, List.forall₂_map_right_iff.2 (List.forall₂_same.2 fun q _ =>
      ⟨_, List.reverse_perm q.attributes.entries, rfl⟩), rfl⟩
  obtain ⟨plain, ordered⟩ := ofJson?_toJson_of_fits.1 everyKind problem
  exact ⟨⟨problem, plain, written, ordered _ written⟩,
    ⟨schedule, ofJson?_toJson_of_fits.2.1 lastSession schedule⟩,
    ofJson?_toJson_of_fits.2.2 _ (by decide)⟩

end Roster
