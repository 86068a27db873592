import Roster.Proofs.Count
import Roster.Proofs.Ties

/-! The cliques of a session are the components of two or more people under the keep-together
rules in force. Nothing else decides what they are: theirs is the only list that has each of
these components once, members in the order in which they stand in the active list, larger
components first and those of one size in the order of their first members. An id that stands
in the active list repeatedly counts at its last place. -/

namespace Roster

def LastAt (ids : List String) (id : String) (i : Nat) : Prop :=
  ids[i]? = some id ∧ ∀ j, i < j → ids[j]? ≠ some id

def LastBefore (ids : List String) (a b : String) : Prop :=
  ∃ i j, LastAt ids a i ∧ LastAt ids b j ∧ i < j

def HeadBefore (ids c d : List String) : Prop :=
  ∃ a ∈ c.head?, ∃ b ∈ d.head?, LastBefore ids a b

theorem LastAt.unique {ids : List String} {id : String} {i j : Nat} (hi : LastAt ids id i)
    (hj : LastAt ids id j) : i = j := by
  by_contra apart
  cases Nat.lt_or_gt_of_ne apart with
  | inl less => exact hi.2 j less hj.1
  | inr more => exact hj.2 i more hi.1

theorem LastBefore.trans {ids : List String} {a b c : String} (first : LastBefore ids a b)
    (second : LastBefore ids b c) : LastBefore ids a c := by
  obtain ⟨i, j, ha, hb, less⟩ := first
  obtain ⟨j', k, hb', hc, more⟩ := second
  have := hb.unique hb'
  exact ⟨i, k, ha, hc, by omega⟩

theorem LastBefore.asymm {ids : List String} {a b : String} (h : LastBefore ids a b) :
    ¬ LastBefore ids b a := by
  intro back
  obtain ⟨i, j, ha, hb, less⟩ := h
  obtain ⟨j', i', hb', ha', more⟩ := back
  have := ha.unique ha'
  have := hb.unique hb'
  omega

theorem headBefore_of_mem {ids c d : List String} (hc : c.Pairwise (LastBefore ids))
    (occupied : d ≠ []) {a : String} (ha : a ∈ c) (first : ∀ b ∈ d, LastBefore ids a b) :
    HeadBefore ids c d := by
  obtain ⟨b, rest, rfl⟩ := List.exists_cons_of_ne_nil occupied
  cases c with
  | nil => simp at ha
  | cons head others =>
    refine ⟨head, rfl, b, rfl, ?_⟩
    have after := first b List.mem_cons_self
    cases List.mem_cons.1 ha with
    | inl same => rwa [← same]
    | inr later => exact ((List.pairwise_cons.1 hc).1 a later).trans after

theorem lastAt_of_lastIndex? {ids : List String} {id : String} {i : Nat}
    (found : lastIndex? ids id = some i) : LastAt ids id i := by
  refine ⟨getElem?_of_lastIndex? found, fun j later there => ?_⟩
  obtain ⟨k, hk, rfl⟩ := Option.map_eq_some_iff.1 found
  obtain ⟨_, _, first⟩ := List.findIdx?_eq_some_iff_getElem.1 hk
  obtain ⟨inside, here⟩ := List.getElem?_eq_some_iff.1 there
  have missed := first (ids.length - 1 - j) (by omega)
  rw [List.getElem_reverse] at missed
  simp only [show ids.length - 1 - (ids.length - 1 - j) = j by omega, here] at missed
  simp at missed

theorem pairwise_mergeSort_of_pairwise {α : Type} {le : α → α → Bool} {R : α → α → Prop}
    (trans : ∀ a b c, le a b → le b c → le a c) (total : ∀ a b, le a b || le b a) {l : List α}
    (h : l.Pairwise R) : (l.mergeSort le).Pairwise fun a b => le b a → R a b := by
  induction l with
  | nil => simp
  | cons a rest ih =>
    obtain ⟨here, others⟩ := List.pairwise_cons.1 h
    obtain ⟨before, after, sorted, sortedRest, above⟩ := List.mergeSort_cons trans total a rest
    have old := ih others
    have listed : ∀ b ∈ after, b ∈ rest := fun b hb => by
      have same : b ∈ rest.mergeSort le ↔ b ∈ rest := List.mem_mergeSort
      rw [← same, sortedRest]
      exact List.mem_append_right _ hb
    rw [sortedRest, List.pairwise_append] at old
    obtain ⟨first, second, across⟩ := old
    rw [sorted, List.pairwise_append, List.pairwise_cons]
    refine ⟨first, ⟨fun b hb _ => here b (listed b hb), second⟩, fun b hb c hc => ?_⟩
    cases List.mem_cons.1 hc with
    | inl same =>
      intro below
      have strictly := above b hb
      rw [same] at below
      simp [below] at strictly
    | inr later => exact across b hb c later

namespace Problem

variable {p : Problem} {session : Nat} {active : List String} {a b : String}

def Joins (p : Problem) (session : Nat) (active : List String) (a b : String) : Prop :=
  a ∈ active ∧ b ∈ active ∧ ∃ people sessions,
    .rule (.mustStayTogether people) sessions ∈ p.constraints ∧
      (Constraint.rule (.mustStayTogether people) sessions).AppliesTo session ∧
        a ∈ people ∧ b ∈ people

/-- A chain of active people, each joined with the next, leads from one to the other. -/
abbrev Connected (p : Problem) (session : Nat) (active : List String) : String → String → Prop :=
  Relation.EqvGen (p.Joins session active)

/-- The components of two or more ids, in the order of cliques. -/
structure Components (p : Problem) (session : Nat) (active : List String)
    (cliques : List (List String)) : Prop where
  several : ∀ clique ∈ cliques, 1 < clique.length
  whole : ∀ clique ∈ cliques, ∀ a ∈ clique, ∀ b, b ∈ clique ↔ p.Connected session active a b
  every : ∀ a b, a ≠ b → p.Connected session active a b → ∃ clique ∈ cliques, a ∈ clique
  disjoint : cliques.Pairwise List.Disjoint
  once : ∀ clique ∈ cliques, clique.Nodup
  members : ∀ clique ∈ cliques, clique.Pairwise (LastBefore active)
  order : cliques.Pairwise fun c d => d.length < c.length ∨
    d.length = c.length ∧ HeadBefore active c d

theorem mem_togetherLists {people : List String} : people ∈ p.togetherLists session ↔
    ∃ sessions, .rule (.mustStayTogether people) sessions ∈ p.constraints ∧
      (Constraint.rule (.mustStayTogether people) sessions).AppliesTo session := by
  rw [togetherLists_eq, List.mem_filterMap]
  constructor
  · intro h
    obtain ⟨c, hc, found⟩ := h
    cases c with
    | rule r sessions =>
      cases r <;> simp [Constraint.together?, Rule.together?] at found
      obtain ⟨applies, rfl⟩ := found
      exact ⟨sessions, hc, applies⟩
    | _ => simp [Constraint.together?] at found
  · intro h
    obtain ⟨sessions, hc, applies⟩ := h
    exact ⟨_, hc, by simp [Constraint.together?, Rule.together?, applies]⟩

theorem joins_iff :
    p.Joins session active a b ↔ a ∈ active ∧ b ∈ active ∧ p.Tied session a b := by
  simp only [Joins, Tied, mem_togetherLists]
  grind

theorem Connected.mem_active_iff (h : p.Connected session active a b) :
    a ∈ active ↔ b ∈ active := by
  refine iff_of_eq (Forest.eq_of_eqvGen (· ∈ active) (fun x y joined => ?_) h)
  simp [joined.1, joined.2.1]

theorem Connected.mem_active (h : p.Connected session active a b) (apart : a ≠ b) :
    a ∈ active := by
  by_contra away
  refine apart (of_eq_true ?_)
  rw [← eq_self a]
  refine (Forest.eq_of_eqvGen (a = ·) (fun x y joined => ?_) h).symm
  simp only [eq_iff_iff]
  exact ⟨fun same => absurd (same ▸ joined.1) away, fun same => absurd (same ▸ joined.2.1) away⟩

theorem root_eq_iff_connected {i j : Nat} (hi : lastIndex? active a = some i)
    (hj : lastIndex? active b = some j) :
    (p.joined session active).root i = (p.joined session active).root j ↔
      p.Connected session active a b := by
  constructor
  · intro same
    apply Quot.eqvGen_exact
    have chain := (root_joined_iff p session active i j).1 same
    have classes := Forest.eq_of_eqvGen
      (fun x => (active[x]?).map (Quot.mk (p.Joins session active))) (fun x y tie => ?_) chain
    · simpa [getElem?_of_lastIndex? hi, getElem?_of_lastIndex? hj] using classes
    · obtain ⟨c, d, tied, hc, hd⟩ := tie
      have first := getElem?_of_lastIndex? hc
      have second := getElem?_of_lastIndex? hd
      simp only [first, second, Option.map_some]
      rw [Quot.sound (joins_iff.2
        ⟨List.mem_of_getElem? first, List.mem_of_getElem? second, tied⟩)]
  · intro connected
    have roots := Forest.eq_of_eqvGen
      (fun id => (lastIndex? active id).map (p.joined session active).root)
      (fun x y joined => ?_) connected
    · simpa [hi, hj] using roots
    · obtain ⟨actX, actY, people, listed, hx, hy⟩ := joins_iff.1 joined
      obtain ⟨k, hk⟩ := exists_lastIndex? actX
      obtain ⟨l, hl⟩ := exists_lastIndex? actY
      simp only [hk, hl, Option.map_some]
      rw [root_eq_of_together listed hx hy hk hl]

theorem lastIndex?_of_mem_clique {i : Nat} (large : 1 < (p.mates session active i).length)
    (ha : a ∈ p.mates session active i) : ∃ k, lastIndex? active a = some k ∧
      (p.joined session active).root k = (p.joined session active).root i := by
  obtain ⟨k, place, same⟩ := mem_mates.1 ha
  exact ⟨k, lastIndex?_of_mates large place same, same⟩

theorem mem_clique_iff {clique : List String} (h : clique ∈ p.cliques session active)
    (ha : a ∈ clique) : b ∈ clique ↔ p.Connected session active a b := by
  obtain ⟨large, i, _, rfl⟩ := mem_cliques.1 h
  obtain ⟨k, hk, sameA⟩ := lastIndex?_of_mem_clique large ha
  constructor
  · intro hb
    obtain ⟨l, hl, sameB⟩ := lastIndex?_of_mem_clique large hb
    exact (root_eq_iff_connected hk hl).1 (sameA.trans sameB.symm)
  · intro connected
    have actA := List.mem_of_getElem? (getElem?_of_lastIndex? hk)
    obtain ⟨l, hl⟩ := exists_lastIndex? (connected.mem_active_iff.1 actA)
    have same := (root_eq_iff_connected hk hl).2 connected
    exact mem_mates.2 ⟨l, getElem?_of_lastIndex? hl, same.symm.trans sameA⟩

theorem exists_clique_of_connected (h : p.Connected session active a b) (apart : a ≠ b) :
    ∃ clique ∈ p.cliques session active, a ∈ clique := by
  have actA := h.mem_active apart
  obtain ⟨i, hi⟩ := exists_lastIndex? actA
  obtain ⟨j, hj⟩ := exists_lastIndex? (h.mem_active_iff.1 actA)
  obtain ⟨clique, listed, member, -⟩ :=
    exists_clique_of_root_eq hi hj apart ((root_eq_iff_connected hi hj).2 h)
  exact ⟨clique, listed, member⟩

theorem pairwise_mates {i : Nat} (large : 1 < (p.mates session active i).length) :
    (p.mates session active i).Pairwise (LastBefore active) := by
  refine List.pairwise_map.2 (((pairwise_lt_zipIdx active).filter _).imp_of_mem ?_)
  have last : ∀ e ∈ active.zipIdx.filter (fun e =>
      (p.joined session active).root e.2 = (p.joined session active).root i),
      LastAt active e.1 e.2 := by
    intro e he
    rw [List.mem_filter, decide_eq_true_eq] at he
    exact lastAt_of_lastIndex?
      (lastIndex?_of_mates large (List.mk_mem_zipIdx_iff_getElem?.1 he.1) he.2)
  intro d e hd he earlier
  exact ⟨d.2, e.2, last d hd, last e he, earlier⟩

theorem pairwise_headBefore (p : Problem) (session : Nat) (active : List String) :
    ((classes (p.labelled session active)).filter (1 < ·.length)).Pairwise
      (HeadBefore active) := by
  have labels := pairwise_eraseDups_map (fun e : String × Nat => (p.joined session active).root e.2)
    active.zipIdx (pairwise_lt_zipIdx active)
  have roots : (p.labelled session active).map Prod.fst =
      active.zipIdx.map fun e => (p.joined session active).root e.2 := by
    rw [labelled_eq, List.map_map]
    rfl
  rw [List.pairwise_filter, classes, List.pairwise_map, roots]
  refine labels.imp_of_mem ?_
  intro x y hx hy earlier largeFirst largeSecond
  obtain ⟨⟨_, i⟩, _, rfl⟩ := List.mem_map.1 (List.mem_eraseDups.1 hx)
  obtain ⟨⟨_, j⟩, _, rfl⟩ := List.mem_map.1 (List.mem_eraseDups.1 hy)
  simp only [map_filter_labelled, decide_eq_true_eq] at largeFirst largeSecond ⊢
  obtain ⟨⟨a, k⟩, ha, same, first⟩ := earlier
  have place := List.mk_mem_zipIdx_iff_getElem?.1 ha
  refine headBefore_of_mem (pairwise_mates largeFirst)
    (List.ne_nil_of_length_pos (by omega)) (mem_mates.2 ⟨k, place, same⟩) fun b hb => ?_
  obtain ⟨l, there, sameB⟩ := mem_mates.1 hb
  exact ⟨k, l, lastAt_of_lastIndex? (lastIndex?_of_mates largeFirst place same),
    lastAt_of_lastIndex? (lastIndex?_of_mates largeSecond there sameB),
    first (b, l) (List.mk_mem_zipIdx_iff_getElem?.2 there) sameB⟩

theorem pairwise_cliques (p : Problem) (session : Nat) (active : List String) :
    (p.cliques session active).Pairwise fun c d => d.length < c.length ∨
      d.length = c.length ∧ HeadBefore active c d := by
  have trans : ∀ a b c : List String, decide (b.length ≤ a.length) → decide (c.length ≤ b.length) →
      decide (c.length ≤ a.length) := by
    simp only [decide_eq_true_eq]
    omega
  have total : ∀ a b : List String,
      decide (b.length ≤ a.length) || decide (a.length ≤ b.length) := by
    simp only [Bool.or_eq_true, decide_eq_true_eq]
    omega
  have sorted := List.pairwise_mergeSort trans total
    ((classes (p.labelled session active)).filter (1 < ·.length))
  have kept := pairwise_mergeSort_of_pairwise trans total (pairwise_headBefore p session active)
  refine (sorted.and kept).imp fun both => ?_
  simp only [decide_eq_true_eq] at both
  cases Nat.eq_or_lt_of_le both.1 with
  | inl same => exact .inr ⟨same, both.2 (by omega)⟩
  | inr less => exact .inl less

theorem components_cliques (p : Problem) (session : Nat) (active : List String) :
    p.Components session active (p.cliques session active) where
  several _ h := (mem_cliques.1 h).1
  whole _ h _ ha _ := mem_clique_iff h ha
  every _ _ apart connected := exists_clique_of_connected connected apart
  disjoint := p.pairwise_disjoint_cliques session active
  once _ h := nodup_of_mem_cliques h
  members _ h := by
    obtain ⟨large, i, _, rfl⟩ := mem_cliques.1 h
    exact pairwise_mates large
  order := pairwise_cliques p session active

namespace Components

variable {l m : List (List String)}

theorem nodup (h : p.Components session active l) : l.Nodup := by
  refine h.disjoint.imp_of_mem fun {c d} hc _ apart same => ?_
  have large := h.several c hc
  obtain ⟨a, ha⟩ := List.exists_mem_of_length_pos (l := c) (by omega)
  exact apart ha (same ▸ ha)

theorem subset (hl : p.Components session active l) (hm : p.Components session active m) :
    l ⊆ m := by
  intro c hc
  obtain ⟨a, b, rest, rfl⟩ : ∃ a b rest, c = a :: b :: rest := by
    match c, hl.several c hc with
    | a :: b :: rest, _ => exact ⟨a, b, rest, rfl⟩
  have apart : a ≠ b := fun same => by
    have distinct := hl.once _ hc
    simp [same] at distinct
  have connected := (hl.whole _ hc a (by simp) b).1 (by simp)
  obtain ⟨d, hd, member⟩ := hm.every a b apart connected
  have same : ∀ id, id ∈ a :: b :: rest ↔ id ∈ d := by
    intro id
    rw [hl.whole _ hc a (by simp), hm.whole d hd a member]
  have order := (List.perm_ext_iff_of_nodup (hl.once _ hc) (hm.once d hd)).2 same
  have equal := order.eq_of_pairwise
    (fun _ _ _ _ first second => absurd second first.asymm) (hl.members _ hc) (hm.members d hd)
  rwa [equal]

theorem unique (hl : p.Components session active l) (hm : p.Components session active m) :
    l = m := by
  have order : l.Perm m := (List.perm_ext_iff_of_nodup hl.nodup hm.nodup).2 fun c =>
    ⟨fun hc => hl.subset hm hc, fun hc => hm.subset hl hc⟩
  refine order.eq_of_pairwise (fun c d _ _ first second => ?_) hl.order hm.order
  obtain less | ⟨same, a, ha, b, hb, before⟩ := first
  · omega
  · obtain more | ⟨_, b', hb', a', ha', back⟩ := second
    · omega
    · rw [Option.mem_unique ha' ha, Option.mem_unique hb' hb] at back
      exact absurd back before.asymm

end Components

/-- The cliques are exactly the components, in exactly this order: whatever list has all of these
once and so arranged is the list of cliques. -/
theorem cliques_eq_iff (p : Problem) (session : Nat) (active : List String)
    (l : List (List String)) :
    p.cliques session active = l ↔ p.Components session active l := by
  constructor
  · intro same
    rw [← same]
    exact components_cliques p session active
  · exact fun components => (components_cliques p session active).unique components

end Problem

example : (Problem.mk [] [] 1 [.rule (.mustStayTogether ["a", "ghost", "b"]),
    .rule (.mustStayTogether ["b", "c"]), .rule (.mustStayTogether ["ghost", "d"])]).cliques
      0 ["b", "c", "d", "a", "b"] = [["c", "a", "b"]] := by
  decide +kernel

end Roster
