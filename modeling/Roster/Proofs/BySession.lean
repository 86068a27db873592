import Roster.Proofs.Apart
import Roster.Proofs.Recount

/-! Rules that look at each session for itself. What such a rule finds is what it finds in its
sessions one by one, strung together in their order. Within a session keeping people apart visits
each group once, declared ones in the order of their first declarations and the others after them
by id. -/

namespace Roster

theorem Verdict.sum_singleton (v : Verdict) : sum [v] = v := by
  simp [sum]

namespace Problem

variable {p : Problem}

/-- The order in which the groups of a session are visited. One that is declared repeatedly has
the place of its first declaration. -/
def VisitedBefore (p : Problem) (first second : String) : Prop :=
  match p.groupIndex? first, p.groupIndex? second with
  | some i, some j => i < j
  | some _, none => True
  | none, some _ => False
  | none, none => first < second

theorem exists_mem_zipIdx_of_groupIndex? {id : String} {i : Nat}
    (found : p.groupIndex? id = some i) : ∃ g, (g, i) ∈ p.groups.zipIdx ∧ g.id = id := by
  obtain ⟨inside, here, -⟩ := List.findIdx?_eq_some_iff_getElem.1 found
  exact ⟨p.groups[i], List.mk_mem_zipIdx_iff_getElem?.2 (List.getElem?_eq_getElem inside),
    of_decide_eq_true here⟩

theorem exists_groupIndex?_eq_some_iff {id : String} :
    (∃ i, p.groupIndex? id = some i) ↔ id ∈ p.groups.map (·.id) := by
  rw [← Option.isSome_iff_exists, groupIndex?, List.findIdx?_isSome]
  simp

theorem groupIndex?_le {g : Group} {i j : Nat} (declared : (g, i) ∈ p.groups.zipIdx)
    (found : p.groupIndex? g.id = some j) : j ≤ i := by
  have place := List.mk_mem_zipIdx_iff_getElem?.1 declared
  obtain ⟨inside, here⟩ := List.getElem?_eq_some_iff.1 place
  obtain ⟨_, _, first⟩ := List.findIdx?_eq_some_iff_getElem.1 found
  refine Nat.le_of_not_lt fun before => ?_
  have missed := first i before
  simp [here] at missed

theorem pairwise_declared (p : Problem) :
    (p.groups.map (·.id)).eraseDups.Pairwise p.VisitedBefore := by
  have ids : p.groups.map (·.id) = p.groups.zipIdx.map (·.1.id) := by
    conv => lhs; rw [← List.zipIdx_map_fst 0 p.groups, List.map_map]
    rfl
  have firstPlaces := pairwise_eraseDups_map (·.1.id) _ (pairwise_lt_zipIdx p.groups)
  rw [← ids] at firstPlaces
  refine firstPlaces.imp_of_mem ?_
  intro first second hf hs earlier
  obtain ⟨⟨g, k⟩, declared, rfl, before⟩ := earlier
  obtain ⟨i, found⟩ := exists_groupIndex?_eq_some_iff.2 (List.mem_eraseDups.1 hf)
  obtain ⟨j, found'⟩ := exists_groupIndex?_eq_some_iff.2 (List.mem_eraseDups.1 hs)
  obtain ⟨h, declared', named⟩ := exists_mem_zipIdx_of_groupIndex? found'
  simp only [VisitedBefore, found, found']
  exact Nat.lt_of_le_of_lt (groupIndex?_le declared found) (before (h, j) declared' named)

end Problem

namespace View

theorem pairwise_inDeclaredOrder (p : Problem) (s : Schedule) (groups : SessionGroups) :
    ((of p s).inDeclaredOrder groups).Pairwise fun g h => p.VisitedBefore g.1 h.1 := by
  have undeclared : ∀ e ∈ groups.entries.filter fun e => e.1 ∉ (p.groups.map (·.id)).eraseDups,
      p.groupIndex? e.1 = none := by
    intro e he
    rw [Option.eq_none_iff_forall_ne_some]
    intro i found
    have declared := Problem.exists_groupIndex?_eq_some_iff.1 ⟨i, found⟩
    simpa [declared] using List.of_mem_filter he
  refine List.pairwise_append.2 ⟨?_, ?_, ?_⟩
  · refine (Problem.pairwise_declared p).filterMap _ fun first second earlier g hg h hh => ?_
    obtain ⟨_, -, rfl⟩ := Option.map_eq_some_iff.1 hg
    obtain ⟨_, -, rfl⟩ := Option.map_eq_some_iff.1 hh
    exact earlier
  · refine (groups.ascending.filter _).imp_of_mem fun {g h} hg hh below => ?_
    simp only [Problem.VisitedBefore, undeclared g hg, undeclared h hh]
    exact below
  · intro g hg h hh
    obtain ⟨id, listed, here⟩ := List.mem_filterMap.1 hg
    obtain ⟨_, -, rfl⟩ := Option.map_eq_some_iff.1 here
    obtain ⟨i, found⟩ := Problem.exists_groupIndex?_eq_some_iff.2 (List.mem_eraseDups.1 listed)
    simp only [Problem.VisitedBefore, found, undeclared h hh]

theorem inspectRule_eq_sum (v : View) {r : Rule} {listed : Option (List Nat)}
    (plain : ¬ (Constraint.rule r listed).countsMeetings) (sessions : List Nat) :
    v.inspectRule sessions r = .sum (sessions.map fun t => v.inspectRule [t] r) := by
  cases r with
  | pairMeetingCount => simp [Constraint.countsMeetings] at plain
  | _ => simp only [inspectRule, List.map_cons, List.map_nil, Verdict.sum_singleton]

end View

/-- Where evaluation gives a verdict on a rule that looks at each session for itself, it gives one
on the rule for each covered session alone, and the verdict is theirs added up and strung together
by ascending session. The findings of people who are not apart follow the order in which the
groups of a session are visited, each of them once. -/
theorem judge_by_session {p : Problem} {s : Schedule} {r : Rule} {listed : Option (List Nat)}
    (plain : ¬ (Constraint.rule r listed).countsMeetings) {verdict : Verdict}
    (judged : p.judge s (.rule r listed) = .ok verdict) :
    ∃ parts : Nat → Verdict,
      (∀ t ∈ (Constraint.rule r listed).covered p.sessionCount,
        p.judge s ((Constraint.rule r listed).withSessions [t]) = .ok (parts t)) ∧
      verdict.violations = total (((Constraint.rule r listed).covered p.sessionCount).toList.map
        fun t => (parts t).violations) ∧
      verdict.findings = ((Constraint.rule r listed).covered p.sessionCount).toList.flatMap
        (fun t => (parts t).findings) ∧
      ∀ people weight, r = .shouldNotBeTogether people weight →
        ∀ t ∈ (Constraint.rule r listed).covered p.sessionCount,
          ∃ visits : List (String × List String),
            visits.Perm ((s.session? t).getD .empty).entries ∧
            visits.Pairwise (fun g h => p.VisitedBefore g.1 h.1) ∧
            (parts t).findings =
              (visits.filter fun e => 2 ≤ (people.filter (· ∈ e.2)).length).map fun e =>
                .notTogether t e.1 (people.filter (· ∈ e.2)) := by
  obtain ⟨⟨-, fits⟩, rfl⟩ := Problem.judge_eq_ok.1 judged
  have whole := (View.of p s).inspectRule_eq_sum plain
    ((Constraint.rule r listed).covered p.sessionCount).toList
  rw [View.inspect, whole] at fits ⊢
  refine ⟨fun t => (View.of p s).inspectRule [t] r, fun t covered => ?_, ?_, ?_, ?_⟩
  · have listable : ((Constraint.rule r listed).withSessions [t]).Listable p.sessionCount :=
      fun absent => absurd absent (Option.some_ne_none _)
    refine Problem.judge_eq_ok.2 ⟨⟨listable, ?_⟩, rfl⟩
    rw [Verdict.violations_sum_map] at fits
    have part : ((View.of p s).inspectRule [t] r).violations ∈
        ((Constraint.rule r listed).covered p.sessionCount).toList.map fun t =>
          ((View.of p s).inspectRule [t] r).violations := List.mem_map.2 ⟨t, covered, rfl⟩
    exact Nat.lt_of_le_of_lt (le_total part) fits
  · exact Verdict.violations_sum_map _ _
  · simp only [Verdict.sum, List.flatMap_map]
  · intro people weight apart t _
    subst apart
    refine ⟨_, View.inDeclaredOrder_perm _ _, View.pairwise_inDeclaredOrder p s _, ?_⟩
    change (Verdict.sum [(View.of p s).notTogether people t]).findings = _
    rw [Verdict.sum_singleton, View.notTogether_eq_visits, Verdict.sum_map_ofFinding]
    refine congrArg (List.map _) (List.filter_congr fun e _ => decide_eq_decide.2 ?_)
    omega

def carnival : Problem where
  people := [⟨"a", .empty, none⟩, ⟨"b", .empty, none⟩, ⟨"c", .empty, none⟩, ⟨"d", .empty, none⟩]
  groups := [⟨"zeta", 4⟩, ⟨"alpha", 4⟩, ⟨"zeta", 1⟩]
  sessionCount := 2

def carnivalSeats : Schedule :=
  .ofAssignments [⟨"c", "alpha", 0⟩, ⟨"d", "alpha", 0⟩, ⟨"a", "zeta", 0⟩, ⟨"b", "zeta", 0⟩,
    ⟨"c", "zeta", 0⟩, ⟨"a", "stray", 0⟩, ⟨"c", "stray", 0⟩, ⟨"d", "arch", 0⟩, ⟨"b", "arch", 0⟩,
    ⟨"a", "alpha", 1⟩, ⟨"b", "alpha", 1⟩, ⟨"d", "zeta", 3⟩, ⟨"a", "zeta", 3⟩]

def carnivalApart : Rule := .shouldNotBeTogether ["d", "c", "b", "a"]

def carnivalVerdict : Verdict :=
  ⟨6, [.notTogether 0 "zeta" ["c", "b", "a"], .notTogether 0 "alpha" ["d", "c"],
    .notTogether 0 "arch" ["d", "b"], .notTogether 0 "stray" ["c", "a"],
    .notTogether 3 "zeta" ["d", "a"]]⟩

theorem judge_by_session_carnival :
    ¬ (Constraint.rule carnivalApart (some [3, 0, 3])).countsMeetings ∧
    carnival.judge carnivalSeats (.rule carnivalApart (some [3, 0, 3])) = .ok carnivalVerdict ∧
    ∃ parts : Nat → Verdict,
      (∀ t ∈ [0, 3], carnival.judge carnivalSeats (.rule carnivalApart (some [t])) =
        .ok (parts t)) ∧
      carnivalVerdict.violations = (parts 0).violations + (parts 3).violations ∧
      carnivalVerdict.findings = (parts 0).findings ++ (parts 3).findings ∧
      ∃ visits : List (String × List String),
        visits.Perm ((carnivalSeats.session? 0).getD .empty).entries ∧
        visits.Pairwise (fun g h => carnival.VisitedBefore g.1 h.1) ∧
        (parts 0).findings =
          (visits.filter fun e => 2 ≤ (["d", "c", "b", "a"].filter (· ∈ e.2)).length).map fun e =>
            .notTogether 0 e.1 (["d", "c", "b", "a"].filter (· ∈ e.2)) := by
  have plain : ¬ (Constraint.rule carnivalApart (some [3, 0, 3])).countsMeetings := by decide
  have judged : carnival.judge carnivalSeats (.rule carnivalApart (some [3, 0, 3])) =
      .ok carnivalVerdict := by decide +kernel
  obtain ⟨parts, each, violations, findings, visits⟩ := judge_by_session plain judged
  refine ⟨plain, judged, parts, each, violations, ?_, visits _ _ rfl 0 (by decide)⟩
  rw [findings]
  exact congrArg _ (List.append_nil _)

end Roster
