import Roster.Proofs.SameSession

/-! A session list stands for the set of what it names, and no list for all sessions there are.
How the set is written down is seen neither by evaluation nor by reconciling; and reconciling
sees nothing of the sessions a problem does not have. -/

namespace Roster

/-- Two ways to write down one set of sessions, of which there are `count`. A list that names
all of them is as good as none, and is no longer than a list can be. -/
inductive SameListing (count : Nat) : Option (List Nat) → Option (List Nat) → Prop
  | reordered {l m : List Nat} (same : ∀ t, t ∈ l ↔ t ∈ m) : SameListing count (some l) (some m)
  | spelledOut {l : List Nat} (all : ∀ t, t ∈ l ↔ t < count) (short : l.length < listLimit) :
      SameListing count none (some l)
  | leftOut {l : List Nat} (all : ∀ t, t ∈ l ↔ t < count) (short : l.length < listLimit) :
      SameListing count (some l) none

def AlikeBelow (count : Nat) (l m : Option (List Nat)) : Prop :=
  ∀ t < count, (∀ listed ∈ l, t ∈ listed) ↔ ∀ listed ∈ m, t ∈ listed

theorem SameListing.alikeBelow {count : Nat} {l m : Option (List Nat)} (h : SameListing count l m) :
    AlikeBelow count l m := by
  intro t inside
  cases h with
  | reordered same => simpa using same t
  | spelledOut all => simpa using (all t).2 inside
  | leftOut all => simpa using (all t).2 inside

theorem lt_listLimit_of_all {count : Nat} {l : List Nat} (all : ∀ t, t ∈ l ↔ t < count)
    (short : l.length < listLimit) : count < listLimit := by
  have inside : List.range count ⊆ l := fun t ht => (all t).2 (List.mem_range.1 ht)
  have fewer := (List.nodup_range.subperm inside).length_le
  rw [List.length_range] at fewer
  exact Nat.lt_of_le_of_lt fewer short

theorem SessionSet.ext_mem {s s' : SessionSet} (same : ∀ t, t ∈ s ↔ t ∈ s') : s = s' :=
  SessionSet.ext (eq_of_mem_iff_of_ascending s.ascending s'.ascending same)

/-- The same constraint, but for a session list that is related to the old one. -/
inductive Constraint.Relisted (alike : Option (List Nat) → Option (List Nat) → Prop) :
    Constraint → Constraint → Prop
  | kept (c : Constraint) : Relisted alike c c
  | rule (asked : Rule) {l m : Option (List Nat)} (h : alike l m) :
      Relisted alike (.rule asked l) (.rule asked m)

namespace Constraint

variable {c d : Constraint} {count : Nat}

theorem Relisted.mono {alike weaker : Option (List Nat) → Option (List Nat) → Prop}
    (h : c.Relisted alike d) (implies : ∀ l m, alike l m → weaker l m) : c.Relisted weaker d := by
  cases h with
  | kept => exact .kept c
  | rule asked same => exact .rule asked (implies _ _ same)

theorem listed_rule_reordered (asked : Rule) {l m : List Nat} (same : ∀ t, t ∈ l ↔ t ∈ m) :
    (rule asked l).listed count = (rule asked m).listed count := by
  have covered : (rule asked l).covered count = (rule asked m).covered count :=
    SessionSet.ext_mem fun t => by
      simp only [Constraint.covered, sessions?, SessionSet.mem_ofList, same]
  simp only [listed, Listable, sessions?, reduceCtorEq, false_implies, if_true, covered]

theorem listed_rule_none (asked : Rule) {l : List Nat} (all : ∀ t, t ∈ l ↔ t < count)
    (short : l.length < listLimit) :
    (rule asked none).listed count = (rule asked l).listed count := by
  have covered : (rule asked none).covered count = (rule asked l).covered count :=
    SessionSet.ext_mem fun t => by
      simp only [Constraint.covered, sessions?, SessionSet.mem_below, SessionSet.mem_ofList, all]
  have few := lt_listLimit_of_all all short
  simp only [listed, Listable, sessions?, reduceCtorEq, implies_true, few, if_true, covered]

theorem Relisted.listed_eq (h : c.Relisted (SameListing count) d) :
    c.listed count = d.listed count := by
  cases h with
  | kept => rfl
  | rule asked same =>
    cases same with
    | reordered same => exact listed_rule_reordered asked same
    | spelledOut all short => exact listed_rule_none asked all short
    | leftOut all short => exact (listed_rule_none asked all short).symm

theorem Relisted.judge_eq (h : c.Relisted (SameListing count) d) (v : View) :
    v.judge count c = v.judge count d := by
  rw [View.judge, View.judge, h.listed_eq]
  cases h <;> rfl

variable {t : Nat}

theorem Relisted.pins_eq (h : c.Relisted (AlikeBelow count) d) (inside : t < count) :
    c.pins t = d.pins t := by
  cases h with
  | kept => rfl
  | rule asked same => exact if_congr (same t inside) rfl rfl

theorem Relisted.together?_eq (h : c.Relisted (AlikeBelow count) d) (inside : t < count) :
    c.together? t = d.together? t := by
  cases h with
  | kept => rfl
  | rule asked same => exact if_congr (same t inside) rfl rfl

end Constraint

namespace Problem

variable {p q : Problem} {alike weaker : Option (List Nat) → Option (List Nat) → Prop}

structure Relisted (alike : Option (List Nat) → Option (List Nat) → Prop) (p q : Problem) :
    Prop where
  people : p.people = q.people
  groups : p.groups = q.groups
  sessions : p.sessionCount = q.sessionCount
  constraints : List.Forall₂ (Constraint.Relisted alike) p.constraints q.constraints

theorem Relisted.mono (h : p.Relisted alike q) (implies : ∀ l m, alike l m → weaker l m) :
    p.Relisted weaker q :=
  { h with constraints := h.constraints.imp fun _ _ rule => rule.mono implies }

theorem Relisted.verdicts_eq (h : p.Relisted (SameListing p.sessionCount) q) (s : Schedule) :
    (p.evaluate s).map (List.map Card.verdict) = (q.evaluate s).map (List.map Card.verdict) := by
  have judged : ∀ (p : Problem) (c : Constraint) (index : Nat),
      (p.judge s c).map (fun verdict => (Card.mk c index verdict).verdict) = p.judge s c := by
    intro p c index
    cases p.judge s c <;> rfl
  rw [p.map_evaluate s (judged p), q.map_evaluate s (judged q)]
  refine mapM_eq_of_forall₂ h.constraints fun c d rule => ?_
  rw [judge, judge, View.of, View.of, h.people, h.groups, ← h.sessions, rule.judge_eq]

theorem Relisted.sameSession (h : p.Relisted (AlikeBelow p.sessionCount) q) {t : Nat}
    (inside : t < p.sessionCount) : SameSession p t q t where
  groups := h.groups
  active := by rw [activeIds, activeIds, h.people]
  present id := by rw [person?, person?, h.people]
  pins := by
    rw [pins, pins, List.flatMap_def, List.flatMap_def,
      map_eq_of_forall₂ h.constraints fun _ _ rule => rule.pins_eq inside]
  tied a b := by
    have lists : p.togetherLists t = q.togetherLists t := by
      have each := map_eq_of_forall₂ h.constraints fun _ _ rule => rule.together?_eq inside
      have joined := congrArg (List.filterMap id) each
      rwa [List.filterMap_map, List.filterMap_map, Function.id_comp, ← togetherLists_eq,
        ← togetherLists_eq] at joined
    rw [Tied, lists, Tied]

theorem Relisted.reconcile_eq (h : p.Relisted (AlikeBelow p.sessionCount) q)
    (previous : List Assignment) (seeding : Bool) :
    p.reconcile previous seeding = q.reconcile previous seeding :=
  reconcile_congr h.sessions (fun _ inside => h.sameSession inside) previous seeding

end Problem

/-- Session lists may be written down anew, or left out where they name every session, and put
in where there is none: the verdicts and the reconciled schedules are the same. For reconciling
it is enough that the lists agree on the sessions there are. -/
theorem evaluate_relisted (p q : Problem) :
    (p.Relisted (SameListing p.sessionCount) q →
      (∀ s, (p.evaluate s).map (List.map Card.verdict) =
        (q.evaluate s).map (List.map Card.verdict)) ∧
      ∀ previous seeding, p.reconcile previous seeding = q.reconcile previous seeding) ∧
    (p.Relisted (AlikeBelow p.sessionCount) q →
      ∀ previous seeding, p.reconcile previous seeding = q.reconcile previous seeding) := by
  refine ⟨fun h => ⟨h.verdicts_eq, fun previous seeding => ?_⟩,
    fun h previous seeding => h.reconcile_eq previous seeding⟩
  exact (h.mono fun _ _ => SameListing.alikeBelow).reconcile_eq previous seeding

def choir (constraints : List Constraint) : Problem where
  people := [⟨"a", .empty, none⟩, ⟨"b", .empty, none⟩, ⟨"c", .empty, none⟩]
  groups := [⟨"x", 2⟩, ⟨"y", 2⟩]
  sessionCount := 2
  constraints

def sung : Problem :=
  choir [.rule (.immovablePerson "a" "y") (some [1]), .rule (.mustStayTogether ["a", "b"]),
    .rule (.shouldNotBeTogether ["a", "b"]) (some [7, 1, 7]), .repeatEncounter 0]

def sungAgain : Problem :=
  choir [.rule (.immovablePerson "a" "y") (some [1, 1]),
    .rule (.mustStayTogether ["a", "b"]) (some [1, 0, 1]),
    .rule (.shouldNotBeTogether ["a", "b"]) (some [1, 7]), .repeatEncounter 0]

def sungOnce : Problem :=
  choir [.rule (.immovablePerson "a" "y") (some [9, 1]), .rule (.mustStayTogether ["a", "b"]),
    .rule (.shouldNotBeTogether ["a", "b"]) (some [1]), .repeatEncounter 0]

theorem relisted_sung : sung.Relisted (SameListing 2) sungAgain where
  people := rfl
  groups := rfl
  sessions := rfl
  constraints := by
    have all : ∀ t, t ∈ [1, 0, 1] ↔ t < 2 := by
      intro t
      simp only [List.mem_cons, List.not_mem_nil, or_false]
      omega
    refine .cons (.rule _ (.reordered ?_)) (.cons (.rule _ (.spelledOut all (by decide)))
      (.cons (.rule _ (.reordered ?_)) (.cons (.kept _) .nil)))
    · simp
    · intro t
      simp only [List.mem_cons, List.not_mem_nil, or_false]
      omega

theorem relisted_sungOnce : sung.Relisted (AlikeBelow 2) sungOnce where
  people := rfl
  groups := rfl
  sessions := rfl
  constraints := by
    refine .cons (.rule _ fun t inside => ?_) (.cons (.kept _) (.cons (.rule _ fun t inside => ?_)
      (.cons (.kept _) .nil)))
    · simp only [Option.mem_some_iff, forall_eq', List.mem_cons, List.not_mem_nil, or_false]
      omega
    · simp only [Option.mem_some_iff, forall_eq', List.mem_cons, List.not_mem_nil, or_false]
      omega

def sungSeats : Schedule :=
  .ofAssignments [⟨"a", "x", 0⟩, ⟨"b", "x", 0⟩, ⟨"a", "y", 1⟩, ⟨"b", "x", 1⟩, ⟨"a", "x", 7⟩,
    ⟨"b", "x", 7⟩]

theorem evaluate_relisted_sung :
    (sung.Relisted (SameListing 2) sungAgain ∧
      (sung.evaluate sungSeats).map (List.map Card.violations) = .ok [0, 1, 1, 2] ∧
      (sung.evaluate sungSeats).map (List.map Card.verdict) =
        (sungAgain.evaluate sungSeats).map (List.map Card.verdict)) ∧
    sung.Relisted (AlikeBelow 2) sungOnce ∧
      (sungOnce.evaluate sungSeats).map (List.map Card.violations) = .ok [1, 1, 0, 2] ∧
      sung.reconcile [⟨"a", "x", 0⟩] = sungOnce.reconcile [⟨"a", "x", 0⟩] ∧
      sungOnce.reconcile [⟨"a", "x", 0⟩] = .ok (.ofAssignments [⟨"a", "x", 0⟩, ⟨"b", "x", 0⟩,
        ⟨"c", "y", 0⟩, ⟨"c", "x", 1⟩, ⟨"a", "y", 1⟩, ⟨"b", "y", 1⟩]) := by
  have again := ((evaluate_relisted sung sungAgain).1 relisted_sung).1 sungSeats
  have once := (evaluate_relisted sung sungOnce).2 relisted_sungOnce [⟨"a", "x", 0⟩] true
  exact ⟨⟨relisted_sung, by decide +kernel, again⟩, relisted_sungOnce, by decide +kernel, once,
    by decide +kernel⟩

end Roster
