import Mathlib.Algebra.BigOperators.Group.Finset.Piecewise
import Roster.Proofs.EncounterLimit

/-! One more placement under a limit on encounters. Whoever comes to a group meets everyone in it
once more and nobody else. So each of them with whom the limit was reached before adds a
violation, and the others add none. -/

namespace Roster

namespace SortedMap

variable {κ ν : Type} [LE κ] [LT κ] [Std.IsLinearOrder κ] [Std.LawfulOrderLT κ] [DecidableLT κ]
  [DecidableEq κ]

theorem total_alterEntries (weigh : ν → Nat) (k : κ) (f : Option ν → ν) {l : List (κ × ν)}
    (ascending : l.Pairwise fun a b => a.1 < b.1) :
    total ((alterEntries k f l).map fun e => weigh e.2) + ((l.lookup k).map weigh).getD 0 =
      total (l.map fun e => weigh e.2) + weigh (f (l.lookup k)) := by
  induction l with
  | nil => simp [alterEntries]
  | cons e rest ih =>
    obtain ⟨j, v⟩ := e
    obtain ⟨later, ascendingRest⟩ := List.pairwise_cons.1 ascending
    have tail := ih ascendingRest
    rw [alterEntries, List.lookup_cons]
    by_cases before : k < j
    · have other : (k == j) = false := beq_false_of_ne (Std.ne_of_lt before)
      have absent : rest.lookup k = none := by
        rw [List.lookup_eq_none_iff]
        intro d hd
        exact bne_iff_ne.2 (Std.ne_of_lt (Std.lt_trans before (later d hd)))
      rw [if_pos before, other, absent]
      simp only [List.map_cons, total_cons, Option.map_none, Option.getD_none]
      omega
    · by_cases after : j < k
      · have other : (k == j) = false := beq_false_of_ne (Std.ne_of_lt after).symm
        rw [if_neg before, if_pos after, other]
        simp only [List.map_cons, total_cons]
        omega
      · obtain rfl : k = j := Std.le_antisymm (Std.not_lt.1 after) (Std.not_lt.1 before)
        rw [if_neg before, if_neg after, beq_self_eq_true]
        simp only [List.map_cons, total_cons, Option.map_some, Option.getD_some]
        omega

variable {ι α : Type} [LE ι] [LT ι] [Std.IsLinearOrder ι] [Std.LawfulOrderLT ι] [DecidableLT ι]
  [DecidableEq ι]

theorem total_pushAt (weigh : List α → Nat) (nothing : weigh [] = 0)
    (m : SortedMap κ (SortedMap ι (List α))) (k : κ) (i : ι) (a : α) :
    total ((m.pushAt k i a).entries.map fun row => total (row.2.entries.map fun e => weigh e.2)) +
        weigh (m.listAt k i) =
      total (m.entries.map fun row => total (row.2.entries.map fun e => weigh e.2)) +
        weigh (m.listAt k i ++ [a]) := by
  have rows := total_alterEntries (fun row : SortedMap ι (List α) =>
    total (row.entries.map fun e => weigh e.2)) k
    (fun row => (row.getD empty).alter i fun l => l.getD [] ++ [a]) m.ascending
  have cells := total_alterEntries weigh i (fun l => l.getD [] ++ [a])
    ((m.get? k).getD empty).ascending
  have weighed : ∀ l : Option (List α), (l.map weigh).getD 0 = weigh (l.getD []) := by
    intro l
    cases l with
    | none => exact nothing.symm
    | some l => rfl
  have row : ∀ r : Option (SortedMap ι (List α)),
      (r.map fun row => total (row.entries.map fun e => weigh e.2)).getD 0 =
        total ((r.getD empty).entries.map fun e => weigh e.2) := by
    intro r
    cases r with
    | none => rfl
    | some r => rfl
  have found : ((m.get? k).getD empty).entries.lookup i = (m.get? k).bind (·.get? i) := by
    cases m.get? k with
    | none => rfl
    | some r => rfl
  rw [found, weighed] at cells
  rw [row] at rows
  rw [listAt]
  simp only [pushAt, alter, get?] at *
  omega

end SortedMap

def Joins (people : List String) (person a b : String) : Prop :=
  (a = person ∧ b ∈ people) ∨ (b = person ∧ a ∈ people)

instance (people : List String) (person a b : String) : Decidable (Joins people person a b) :=
  inferInstanceAs (Decidable ((_ ∧ _) ∨ (_ ∧ _)))

theorem count_mul_count_concat {people : List String} {person a b : String}
    (once : people.Nodup) (new : person ∉ people) (apart : a ≠ b) :
    (people ++ [person]).count a * (people ++ [person]).count b =
      people.count a * people.count b + if Joins people person a b then 1 else 0 := by
  simp only [List.count_append, List.count_singleton, once.count, beq_iff_eq]
  by_cases first : person = a
  · subst first
    simp [Joins, new, apart, apart.symm]
  · by_cases second : person = b
    · subst second
      simp [Joins, new, apart, apart.symm]
    · simp [Joins, first, second, Ne.symm first, Ne.symm second]

namespace Schedule

variable {s : Schedule} {t limit : Nat} {group person a b : String}

theorem timesMet_place (once : (s.peopleIn t group).Nodup) (new : person ∉ s.peopleIn t group)
    (apart : a ≠ b) : (s.place t group person).timesMet a b =
      s.timesMet a b + if Joins (s.peopleIn t group) person a b then 1 else 0 := by
  have changed : (s.place t group person).timesMet a b +
        (s.peopleIn t group).count a * (s.peopleIn t group).count b =
      s.timesMet a b +
        (s.peopleIn t group ++ [person]).count a * (s.peopleIn t group ++ [person]).count b :=
    SortedMap.total_pushAt (fun people => people.count a * people.count b) rfl s.sessions t group
      person
  rw [count_mul_count_concat once new apart] at changed
  omega

theorem ofAssignments_concat (placed : List Assignment) (a : Assignment) :
    ofAssignments (placed ++ [a]) =
      (ofAssignments placed).place a.session a.group a.person := by
  rw [ofAssignments, List.foldl_append]
  rfl

/-- Those in a group who had met a newcomer as often as is allowed. -/
def atLimit (s : Schedule) (t : Nat) (group person : String) (limit : Nat) : Finset String :=
  (s.peopleIn t group).toFinset.filter (limit ≤ s.timesMet person ·)

def couple (a b : String) : String × String := if a < b then (a, b) else (b, a)

theorem lt_of_couple (apart : a ≠ b) : (couple a b).1 < (couple a b).2 := by
  unfold couple
  split
  · assumption
  · exact Std.lt_of_le_of_ne (Std.not_lt.1 ‹_›) apart.symm

theorem timesMet_couple (s : Schedule) (a b : String) :
    s.timesMet (couple a b).1 (couple a b).2 = s.timesMet a b := by
  unfold couple
  split
  · rfl
  · exact s.timesMet_comm b a

theorem joins_couple {people : List String} (there : a ∈ people) :
    Joins people person (couple person a).1 (couple person a).2 := by
  unfold couple
  split
  · exact .inl ⟨rfl, there⟩
  · exact .inr ⟨rfl, there⟩

theorem eq_couple_of_joins {people : List String} {e : String × String} (ordered : e.1 < e.2)
    (joins : Joins people person e.1 e.2) : ∃ a ∈ people, couple person a = e := by
  obtain ⟨rfl, there⟩ | ⟨rfl, there⟩ := joins
  · exact ⟨e.2, there, if_pos ordered⟩
  · exact ⟨e.1, there, if_neg (Std.not_gt_of_lt ordered)⟩

theorem couple_injOn {people : List String} (new : person ∉ people) :
    Set.InjOn (couple person) {a | a ∈ people} := by
  intro a ha b hb same
  have first : a ≠ person := ne_of_mem_of_not_mem ha new
  have second : b ≠ person := ne_of_mem_of_not_mem hb new
  unfold couple at same
  grind

theorem card_filter_joins (new : person ∉ s.peopleIn t group) {among : Finset (String × String)}
    (ordered : ∀ e ∈ among, e.1 < e.2)
    (all : ∀ a ∈ s.peopleIn t group, couple person a ∈ among) :
    (among.filter fun e => Joins (s.peopleIn t group) person e.1 e.2 ∧
      limit ≤ s.timesMet e.1 e.2).card = (s.atLimit t group person limit).card := by
  have image : (among.filter fun e => Joins (s.peopleIn t group) person e.1 e.2 ∧
      limit ≤ s.timesMet e.1 e.2) = (s.atLimit t group person limit).image (couple person) := by
    ext e
    simp only [Finset.mem_filter, Finset.mem_image, atLimit, List.mem_toFinset]
    constructor
    · intro h
      obtain ⟨listed, joins, reached⟩ := h
      obtain ⟨a, there, rfl⟩ := eq_couple_of_joins (ordered e listed) joins
      exact ⟨a, ⟨there, timesMet_couple s person a ▸ reached⟩, rfl⟩
    · intro h
      obtain ⟨a, ⟨there, reached⟩, rfl⟩ := h
      exact ⟨all a there, joins_couple there, (timesMet_couple s person a).symm ▸ reached⟩
  rw [image, Finset.card_image_of_injOn]
  refine (couple_injOn new).mono fun a ha => ?_
  exact List.mem_toFinset.1 (Finset.mem_of_mem_filter a ha)

end Schedule

namespace View

theorem violations_repeatEncounter_place (p : Problem) {s : Schedule} {t : Nat}
    {group person : String} (once : (s.peopleIn t group).Nodup)
    (new : person ∉ s.peopleIn t group) (limit : Nat) :
    ((of p (s.place t group person)).repeatEncounter limit).violations =
      ((of p s).repeatEncounter limit).violations + (s.atLimit t group person limit).card := by
  have ordered : ∀ e ∈ (s.place t group person).couples, e.1 < e.2 :=
    fun e he => (Schedule.mem_couples.1 he).2
  have gained : ∀ a b, a < b → (s.place t group person).timesMet a b =
      s.timesMet a b + if Joins (s.peopleIn t group) person a b then 1 else 0 :=
    fun a b smaller => Schedule.timesMet_place once new (Std.ne_of_lt smaller)
  have metBefore : ∀ a b, a < b → s.timesMet a b ≠ 0 →
      (a, b) ∈ (s.place t group person).couples := by
    intro a b smaller met
    refine Schedule.mem_couples_of_timesMet smaller ?_
    rw [gained a b smaller]
    omega
  have newcomers : ∀ a ∈ s.peopleIn t group,
      Schedule.couple person a ∈ (s.place t group person).couples := by
    intro a there
    have smaller := Schedule.lt_of_couple (ne_of_mem_of_not_mem there new).symm
    have met : (s.place t group person).timesMet (Schedule.couple person a).1
        (Schedule.couple person a).2 ≠ 0 := by
      rw [gained _ _ smaller, if_pos (Schedule.joins_couple there)]
      omega
    exact Schedule.mem_couples_of_timesMet smaller met
  have excess : ∀ e ∈ (s.place t group person).couples,
      (s.place t group person).timesMet e.1 e.2 - limit = (s.timesMet e.1 e.2 - limit) +
        if Joins (s.peopleIn t group) person e.1 e.2 ∧ limit ≤ s.timesMet e.1 e.2 then 1
        else 0 := by
    intro e he
    rw [gained e.1 e.2 (ordered e he), ite_and]
    split
    · split <;> omega
    · rfl
  rw [violations_repeatEncounter_eq_sum (of p (s.place t group person)) limit ordered
      fun _ _ => Schedule.mem_couples_of_timesMet,
    violations_repeatEncounter_eq_sum (of p s) limit ordered metBefore, schedule_of, schedule_of,
    Finset.sum_congr rfl excess, Finset.sum_add_distrib, ← Finset.card_filter,
    Schedule.card_filter_joins new ordered newcomers]

end View

/-- One more placement raises the violations of a limit on encounters by the number of those in
the group who had met the newcomer as often as is allowed before. Each of those in the group meets
the newcomer once more, and no other two do. There is a verdict as long as the sessions can be
listed and the meetings counted. -/
theorem judge_repeatEncounter_concat (p : Problem) {placed : List Assignment} {a : Assignment}
    (once : ((Schedule.ofAssignments placed).peopleIn a.session a.group).Nodup)
    (new : a.person ∉ (Schedule.ofAssignments placed).peopleIn a.session a.group)
    (limit : Nat) (penalty : PenaltyFunction) (weight : Binary64) :
    (∀ x y, x ≠ y → (Schedule.ofAssignments (placed ++ [a])).timesMet x y =
      (Schedule.ofAssignments placed).timesMet x y +
        if Joins ((Schedule.ofAssignments placed).peopleIn a.session a.group) a.person x y
        then 1 else 0) ∧
    (p.sessionCount < listLimit → (Schedule.ofAssignments (placed ++ [a])).Countable limit →
      ∃ after, p.judge (.ofAssignments (placed ++ [a])) (.repeatEncounter limit penalty weight) =
        .ok after) ∧
    ∀ after, p.judge (.ofAssignments (placed ++ [a])) (.repeatEncounter limit penalty weight) =
        .ok after →
      ∃ before, p.judge (.ofAssignments placed) (.repeatEncounter limit penalty weight) =
          .ok before ∧
        after.violations = before.violations + ((Schedule.ofAssignments placed).atLimit a.session
          a.group a.person limit).card := by
  refine ⟨?_, fun few counts => ?_, fun after judged => ?_⟩
  · intro x y apart
    rw [Schedule.ofAssignments_concat]
    exact Schedule.timesMet_place once new apart
  · exact ⟨_, ((View.of p _).judge_of_listable fun _ => few).trans
      ((View.of p _).checked_repeatEncounter counts)⟩
  · have raised := View.violations_repeatEncounter_place p once new limit
    rw [Schedule.ofAssignments_concat] at judged
    obtain ⟨⟨listable, fits⟩, rfl⟩ := Problem.judge_eq_ok.1 judged
    rw [View.inspect, raised] at fits
    exact ⟨_, Problem.judge_eq_ok.2 ⟨⟨listable, by rw [View.inspect]; omega⟩, rfl⟩, raised⟩

def reunion : List Assignment :=
  [⟨"a", "x", 0⟩, ⟨"b", "x", 0⟩, ⟨"b", "x", 7⟩, ⟨"a", "x", 7⟩, ⟨"a", "y", 1⟩, ⟨"c", "y", 1⟩,
    ⟨"b", "y", 2⟩, ⟨"c", "y", 2⟩, ⟨"d", "y", 2⟩]

theorem judge_repeatEncounter_reunion :
    ((Schedule.ofAssignments reunion).peopleIn 2 "y").Nodup ∧
      "a" ∉ (Schedule.ofAssignments reunion).peopleIn 2 "y" ∧
      (Schedule.ofAssignments (reunion ++ [⟨"a", "y", 2⟩])).Countable 1 ∧
      ∃ before after,
        jamboree.judge (.ofAssignments reunion) (.repeatEncounter 1) = .ok before ∧
        jamboree.judge (.ofAssignments (reunion ++ [⟨"a", "y", 2⟩])) (.repeatEncounter 1) =
          .ok after ∧
        before.violations = 1 ∧ after.violations = before.violations + 2 := by
  have once : ((Schedule.ofAssignments reunion).peopleIn 2 "y").Nodup := by decide +kernel
  have new : "a" ∉ (Schedule.ofAssignments reunion).peopleIn 2 "y" := by decide +kernel
  have reached : ((Schedule.ofAssignments reunion).atLimit 2 "y" "a" 1).card = 2 := by
    decide +kernel
  have counts : (Schedule.ofAssignments (reunion ++ [⟨"a", "y", 2⟩])).Countable 1 :=
    ⟨by decide +kernel, by decide +kernel⟩
  obtain ⟨-, judged, raised⟩ := @judge_repeatEncounter_concat jamboree reunion ⟨"a", "y", 2⟩ once
    new 1 .linear .one
  obtain ⟨after, found⟩ := judged (by decide) counts
  obtain ⟨before, earlier, sum⟩ := raised after found
  have one : before.violations = 1 := by
    obtain ⟨-, rfl⟩ := Problem.judge_eq_ok.1 earlier
    decide +kernel
  exact ⟨once, new, counts, before, after, earlier, found, one, by rw [sum, reached]⟩

end Roster
