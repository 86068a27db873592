import Mathlib.Data.List.Pairwise
import Roster.Proofs.Clique
import Roster.Proofs.Count

/-! Cliques hang on who is tied to whom and on nothing else: not on the order of the rules or
of the names in a rule, nor on which roots the forest happens to have. Whatever agrees
along ties agrees within a clique, and no one is in two cliques. -/

namespace Roster

theorem classes_cons (e : Nat × String) (rest : List (Nat × String)) :
    classes (e :: rest) = (e.2 :: (rest.filter (·.1 = e.1)).map Prod.snd) ::
      classes (rest.filter (·.1 ≠ e.1)) := by
  have others : (rest.filter (·.1 ≠ e.1)).map Prod.fst =
      (rest.map Prod.fst).filter fun label => !label == e.1 := by
    rw [List.filter_map]
    congr 1
    apply List.filter_congr
    intro d _
    by_cases same : d.1 = e.1 <;> simp [same]
  rw [classes, classes, others, List.map_cons, List.eraseDups_cons, List.map_cons]
  congr 1
  · simp
  · apply List.map_congr_left
    intro label hl
    have apart : label ≠ e.1 := by
      have kept := List.of_mem_filter (List.mem_eraseDups.1 hl)
      simpa using kept
    rw [List.filter_cons_of_neg (by simpa using Ne.symm apart), List.filter_filter]
    congr 1
    apply List.filter_congr
    intro d _
    by_cases same : d.1 = label
    · simp [same, apart]
    · simp [same]

theorem classes_relabel {α : Type} (f g : α → Nat) (name : α → String) : (l : List α) →
    (∀ x ∈ l, ∀ y ∈ l, f x = f y ↔ g x = g y) →
    classes (l.map fun x => (f x, name x)) = classes (l.map fun x => (g x, name x))
  | [], _ => rfl
  | x :: rest, same => by
    have here : ∀ y ∈ rest, f y = f x ↔ g y = g x := fun y hy =>
      same y (List.mem_cons_of_mem x hy) x List.mem_cons_self
    have first : rest.filter (f · = f x) = rest.filter (g · = g x) :=
      List.filter_congr fun y hy => decide_eq_decide.2 (here y hy)
    have second : rest.filter (f · ≠ f x) = rest.filter (g · ≠ g x) :=
      List.filter_congr fun y hy => decide_eq_decide.2 (not_congr (here y hy))
    have smaller := classes_relabel f g name (rest.filter (g · ≠ g x)) fun y hy z hz =>
      same y (List.mem_cons_of_mem x (List.mem_of_mem_filter hy)) z
        (List.mem_cons_of_mem x (List.mem_of_mem_filter hz))
    simp only [List.map_cons, classes_cons, List.filter_map, List.map_map]
    change (_ :: (rest.filter (f · = f x)).map _) ::
      classes ((rest.filter (f · ≠ f x)).map _) = (_ :: (rest.filter (g · = g x)).map _) ::
      classes ((rest.filter (g · ≠ g x)).map _)
    rw [first, second, smaller]
    rfl
termination_by l => l.length
decreasing_by exact Nat.lt_succ_of_le (List.length_filter_le _ _)

def Rule.together? : Rule → Option (List String)
  | mustStayTogether people => some people
  | _ => none

def Constraint.together? (c : Constraint) (session : Nat) : Option (List String) :=
  match c with
  | rule r _ => if c.AppliesTo session then r.together? else none
  | _ => none

namespace Problem

variable {p q : Problem} {session other : Nat} {active : List String}

theorem togetherLists_eq (p : Problem) (session : Nat) :
    p.togetherLists session = p.constraints.filterMap (·.together? session) := by
  refine List.filterMap_congr fun c _ => ?_
  cases c with
  | rule r sessions => cases r <;> simp [Constraint.together?, Rule.together?]
  | _ => rfl

/-- One keep-together list in force names both. -/
def Tied (p : Problem) (session : Nat) (a b : String) : Prop :=
  ∃ people ∈ p.togetherLists session, a ∈ people ∧ b ∈ people

theorem root_joined_iff (p : Problem) (session : Nat) (active : List String) (x y : Nat) :
    (p.joined session active).root x = (p.joined session active).root y ↔
      Relation.EqvGen (fun i j => ∃ a b, p.Tied session a b ∧ lastIndex? active a = some i ∧
        lastIndex? active b = some j) x y := by
  constructor
  · intro same
    refine Relation.EqvGen.mono ?_ x y ((root_joined p session active x y).1 same)
    intro i j tie
    obtain ⟨people, listed, he⟩ := List.mem_flatMap.1 tie
    obtain ⟨first, second⟩ := mem_of_mem_star he
    obtain ⟨a, ha, hi⟩ := List.mem_filterMap.1 first
    obtain ⟨b, hb, hj⟩ := List.mem_filterMap.1 second
    exact ⟨a, b, ⟨people, listed, ha, hb⟩, hi, hj⟩
  · apply Forest.eq_of_eqvGen (p.joined session active).root
    intro i j tie
    obtain ⟨a, b, ⟨people, listed, ha, hb⟩, hi, hj⟩ := tie
    exact root_eq_of_together listed ha hb hi hj

/-- The same ties make the same cliques, in the same order. -/
theorem cliques_congr (same : ∀ a b, p.Tied session a b ↔ q.Tied other a b) :
    p.cliques session active = q.cliques other active := by
  have roots : ∀ x y, (p.joined session active).root x = (p.joined session active).root y ↔
      (q.joined other active).root x = (q.joined other active).root y := by
    intro x y
    simp only [root_joined_iff, same]
  have relabelled := classes_relabel (fun e : String × Nat => (p.joined session active).root e.2)
    (fun e => (q.joined other active).root e.2) Prod.fst active.zipIdx
    fun d _ e _ => roots d.2 e.2
  rw [cliques, cliques, labelled_eq, labelled_eq, relabelled]

theorem eq_of_mem_cliques {β : Type} {f : String → β}
    (agrees : ∀ a ∈ active, ∀ b ∈ active, p.Tied session a b → f a = f b) {clique : List String}
    (h : clique ∈ p.cliques session active) {a b : String} (ha : a ∈ clique) (hb : b ∈ clique) :
    f a = f b := by
  obtain ⟨_, i, _, rfl⟩ := mem_cliques.1 h
  obtain ⟨j, hj, first⟩ := mem_mates.1 ha
  obtain ⟨k, hk, second⟩ := mem_mates.1 hb
  have chain := (root_joined_iff p session active j k).1 (first.trans second.symm)
  have agree : (active[j]?).map f = (active[k]?).map f := by
    refine Forest.eq_of_eqvGen (fun x => (active[x]?).map f) (fun x y tie => ?_) chain
    obtain ⟨c, d, tied, hc, hd⟩ := tie
    have first := getElem?_of_lastIndex? hc
    have second := getElem?_of_lastIndex? hd
    simp only [first, second, Option.map_some]
    rw [agrees c (List.mem_of_getElem? first) d (List.mem_of_getElem? second) tied]
  simpa [hj, hk] using agree

theorem cliques_eq_nil (alone : ∀ a ∈ active, ∀ b ∈ active, p.Tied session a b → a = b) :
    p.cliques session active = [] := by
  rw [List.eq_nil_iff_forall_not_mem]
  intro clique h
  have large := (mem_cliques.1 h).1
  have distinct := nodup_of_mem_cliques h
  obtain ⟨a, b, rest, rfl⟩ : ∃ a b rest, clique = a :: b :: rest := by
    match clique, large with
    | a :: b :: rest, _ => exact ⟨a, b, rest, rfl⟩
  have same : a = b := eq_of_mem_cliques (f := id) alone h (by simp) (by simp)
  simp [same] at distinct

theorem pairwise_disjoint_cliques (p : Problem) (session : Nat) (active : List String) :
    (p.cliques session active).Pairwise List.Disjoint := by
  have arranged := List.mergeSort_perm
    ((classes (p.labelled session active)).filter (1 < ·.length)) fun a b => b.length ≤ a.length
  refine (arranged.pairwise_iff List.Disjoint.symm).2 ?_
  rw [List.pairwise_filter, classes, List.pairwise_map]
  refine (nodup_eraseDups _).imp_of_mem ?_
  intro x y hf hs apart largeFirst largeSecond id inFirst inSecond
  obtain ⟨_, he, rfl⟩ := List.mem_map.1 (List.mem_eraseDups.1 hf)
  obtain ⟨i, -, first⟩ := mem_labelled.1 he
  obtain ⟨_, hd, rfl⟩ := List.mem_map.1 (List.mem_eraseDups.1 hs)
  obtain ⟨j, -, second⟩ := mem_labelled.1 hd
  rw [first] at apart largeFirst inFirst
  rw [second] at apart largeSecond inSecond
  simp only [map_filter_labelled, decide_eq_true_eq] at largeFirst largeSecond inFirst inSecond
  obtain ⟨k, hk, sameFirst⟩ := mem_mates.1 inFirst
  obtain ⟨l, hl, sameSecond⟩ := mem_mates.1 inSecond
  have places := (lastIndex?_of_mates largeFirst hk sameFirst).symm.trans
    (lastIndex?_of_mates largeSecond hl sameSecond)
  rw [Option.some.inj places] at sameFirst
  exact apart (sameFirst.symm.trans sameSecond)

end Problem

end Roster
