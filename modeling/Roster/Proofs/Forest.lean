import Mathlib.Data.Finset.Card
import Mathlib.Data.Finset.Range
import Mathlib.Logic.Relation
import Roster.Forest

/-! Forests made by `union` and `find` stand for the sets they are meant to.
A function that names a leader above every node is followed through each operation;
in a sound forest it is `root`. Sizes grow on every way up and a root's size is exact,
so no way up is longer than the number of nodes. -/

namespace Roster.Forest

def following (n : Nat) (leader : Nat → Nat) (r : Nat) : Nat :=
  ((Finset.range n).filter (leader · = r)).card

structure LedBy (f : Forest) (n : Nat) (leader : Nat → Nat) : Prop where
  parents : f.parent.size = n
  sizes : f.size.size = n
  parent_lt : ∀ x < n, f.parentOf x < n
  leader_parent : ∀ x, leader (f.parentOf x) = leader x
  leader_root : ∀ x, f.parentOf x = x → leader x = x
  size_lt : ∀ x, f.parentOf x ≠ x → f.sizeOf x < f.sizeOf (f.parentOf x)
  size_le : ∀ x < n, f.sizeOf x ≤ following n leader (leader x)
  size_root : ∀ x < n, f.parentOf x = x → f.sizeOf x = following n leader x

/-- All ways up end, at the root that `root` gives. -/
abbrev Sound (f : Forest) (n : Nat) : Prop := f.LedBy n f.root

theorem following_le (n : Nat) (leader : Nat → Nat) (r : Nat) : following n leader r ≤ n := by
  have h := Finset.card_filter_le (Finset.range n) (leader · = r)
  simpa [following] using h

theorem following_pos {n x : Nat} {leader : Nat → Nat} (hx : x < n) :
    0 < following n leader (leader x) :=
  Finset.card_pos.2 ⟨x, by simpa using hx⟩

theorem parentOf_setParent (f : Forest) (x r y : Nat) (hx : x < f.parent.size) :
    ({ f with parent := f.parent.setIfInBounds x r } : Forest).parentOf y =
      if y = x then r else f.parentOf y := by
  by_cases h : y = x
  · simp [parentOf, h, hx]
  · simp [parentOf, h, Ne.symm h]

theorem lt_of_parentOf_ne {f : Forest} {x : Nat} (h : f.parentOf x ≠ x) : x < f.parent.size := by
  by_contra out
  exact h (by simp [parentOf, Nat.le_of_not_lt out])

namespace LedBy

variable {f : Forest} {n : Nat} {leader : Nat → Nat}

theorem size_le_nodes (h : f.LedBy n leader) {x : Nat} (hx : x < n) : f.sizeOf x ≤ n :=
  (h.size_le x hx).trans (following_le n leader _)

theorem leader_climb (h : f.LedBy n leader) (steps x : Nat) :
    leader (f.climb steps x) = leader x := by
  induction steps generalizing x with
  | zero => rfl
  | succ steps ih =>
    rw [climb]
    split
    · rfl
    · rw [ih, h.leader_parent]

theorem parentOf_of_full (h : f.LedBy n leader) {x : Nat} (full : n ≤ f.sizeOf x) :
    f.parentOf x = x := by
  by_contra moves
  have inside : x < n := h.parents ▸ lt_of_parentOf_ne moves
  have grows := h.size_lt x moves
  have bound := h.size_le_nodes (h.parent_lt x inside)
  omega

theorem parentOf_climb (h : f.LedBy n leader) {steps x : Nat} (enough : n ≤ steps + f.sizeOf x) :
    f.parentOf (f.climb steps x) = f.climb steps x := by
  induction steps generalizing x with
  | zero =>
    rw [climb]
    exact h.parentOf_of_full (by omega)
  | succ steps ih =>
    rw [climb]
    split
    · assumption
    · rename_i moves
      have grows := h.size_lt x moves
      exact ih (by omega)

theorem root_eq (h : f.LedBy n leader) : f.root = leader := by
  funext x
  have top : f.parentOf (f.root x) = f.root x := h.parentOf_climb (by rw [h.parents]; omega)
  rw [← h.leader_root _ top]
  exact h.leader_climb _ x

theorem sound (h : f.LedBy n leader) : f.Sound n := by
  rw [Sound, h.root_eq]
  exact h

theorem parentOf_leader (h : f.LedBy n leader) (x : Nat) : f.parentOf (leader x) = leader x := by
  rw [← h.root_eq]
  exact h.parentOf_climb (by rw [h.parents]; omega)

theorem leader_leader (h : f.LedBy n leader) (x : Nat) : leader (leader x) = leader x :=
  h.leader_root _ (h.parentOf_leader x)

theorem leader_lt (h : f.LedBy n leader) {x : Nat} (hx : x < n) : leader x < n := by
  have climbs : ∀ steps x, x < n → f.climb steps x < n := by
    intro steps
    induction steps with
    | zero => exact fun x hx => hx
    | succ steps ih =>
      intro x hx
      rw [climb]
      split
      · exact hx
      · exact ih _ (h.parent_lt x hx)
  rw [← h.root_eq]
  exact climbs _ x hx

theorem size_le_leader (h : f.LedBy n leader) {x : Nat} (hx : x < n) :
    f.sizeOf x ≤ f.sizeOf (leader x) := by
  rw [h.size_root _ (h.leader_lt hx) (h.parentOf_leader x)]
  exact h.size_le x hx

theorem setParent (h : f.LedBy n leader) {x : Nat} (moves : f.parentOf x ≠ leader x) :
    ({ f with parent := f.parent.setIfInBounds x (leader x) } : Forest).LedBy n leader := by
  have below : f.parentOf x ≠ x := by
    intro top
    exact moves (by rw [top, h.leader_root x top])
  have inside : x < f.parent.size := lt_of_parentOf_ne below
  have hx : x < n := h.parents ▸ inside
  have parentOf := fun y => parentOf_setParent f x (leader x) y inside
  have apart : leader x ≠ x := by
    intro same
    exact below (same ▸ h.parentOf_leader x)
  exact {
    parents := by simpa using h.parents
    sizes := h.sizes
    parent_lt := by
      intro y hy
      rw [parentOf]
      split
      · exact h.leader_lt hx
      · exact h.parent_lt y hy
    leader_parent := by
      intro y
      rw [parentOf]
      split
      · subst_vars; exact h.leader_leader _
      · exact h.leader_parent y
    leader_root := by
      intro y top
      rw [parentOf] at top
      split at top
      · subst_vars; exact top
      · exact h.leader_root y top
    size_lt := by
      intro y up
      rw [parentOf] at up ⊢
      split at up
      · subst_vars
        rw [if_pos rfl]
        have first := h.size_lt _ below
        have rest := h.size_le_leader (h.parent_lt _ hx)
        rw [h.leader_parent] at rest
        exact first.trans_le rest
      · rename_i other
        rw [if_neg other]
        exact h.size_lt y up
    size_le := h.size_le
    size_root := by
      intro y hy top
      rw [parentOf] at top
      split at top
      · subst_vars; exact absurd top apart
      · exact h.size_root y hy top }

theorem compress (h : f.LedBy n leader) (steps x : Nat) :
    (Forest.compress (leader x) steps f x).LedBy n leader := by
  induction steps generalizing f x with
  | zero => exact h
  | succ steps ih =>
    rw [Forest.compress]
    split
    · exact h
    · rename_i moves
      rw [← h.leader_parent x]
      exact ih (h.leader_parent x ▸ h.setParent moves) _

theorem find (h : f.LedBy n leader) (x : Nat) : (f.find x).1.LedBy n leader := by
  rw [Forest.find, h.root_eq]
  exact h.compress _ x

end LedBy

theorem parentOf_hang (f : Forest) {low : Nat} (hl : low < f.parent.size) (high y : Nat) :
    (f.hang low high).parentOf y = if y = low then high else f.parentOf y :=
  parentOf_setParent f low high y hl

theorem sizeOf_hang (f : Forest) {high : Nat} (hh : high < f.size.size) (low y : Nat) :
    (f.hang low high).sizeOf y =
      if y = high then f.sizeOf high + f.sizeOf low else f.sizeOf y := by
  by_cases same : y = high
  · simp [hang, sizeOf, same, hh]
  · simp [hang, sizeOf, same, Ne.symm same]

def joinLeader (leader : Nat → Nat) (low high x : Nat) : Nat :=
  if leader x = low then high else leader x

theorem following_joinLeader_high {n low high : Nat} {leader : Nat → Nat} (apart : low ≠ high) :
    following n (joinLeader leader low high) high =
      following n leader high + following n leader low := by
  rw [following, following, following, ← Finset.card_union_of_disjoint]
  · congr 1
    ext y
    rw [Finset.mem_union, Finset.mem_filter, Finset.mem_filter, Finset.mem_filter, joinLeader]
    split <;> simp_all
  · rw [Finset.disjoint_filter]
    intro y _ first second
    exact apart (second.symm.trans first)

theorem following_joinLeader_of_ne {n low high r : Nat} {leader : Nat → Nat}
    (hl : r ≠ low) (hh : r ≠ high) :
    following n (joinLeader leader low high) r = following n leader r := by
  rw [following, following]
  congr 1
  ext y
  rw [Finset.mem_filter, Finset.mem_filter, joinLeader]
  split
  · rename_i gone
    rw [gone]
    simp [Ne.symm hl, Ne.symm hh]
  · rfl

theorem following_le_joinLeader {n low high x : Nat} {leader : Nat → Nat} (apart : low ≠ high) :
    following n leader (leader x) ≤
      following n (joinLeader leader low high) (joinLeader leader low high x) := by
  by_cases hl : leader x = low
  · rw [joinLeader, if_pos hl, following_joinLeader_high apart, hl]
    omega
  · rw [joinLeader, if_neg hl]
    by_cases hh : leader x = high
    · rw [hh, following_joinLeader_high apart]
      omega
    · rw [following_joinLeader_of_ne hl hh]

theorem LedBy.hang {f : Forest} {n low high : Nat} {leader : Nat → Nat} (h : f.LedBy n leader)
    (hl : low < n) (hh : high < n) (lowTop : f.parentOf low = low)
    (highTop : f.parentOf high = high) (apart : low ≠ high) :
    (f.hang low high).LedBy n (joinLeader leader low high) := by
  have parentOf := parentOf_hang f (h.parents.symm ▸ hl) high
  have sizeOf := sizeOf_hang f (h.sizes.symm ▸ hh) low
  have lowLeads := h.leader_root low lowTop
  have highLeads := h.leader_root high highTop
  have highSize : 0 < f.sizeOf high := by
    rw [h.size_root high hh highTop, ← highLeads]
    exact following_pos hh
  have total : f.sizeOf high + f.sizeOf low = following n (joinLeader leader low high) high := by
    rw [following_joinLeader_high apart, h.size_root high hh highTop, h.size_root low hl lowTop]
  exact {
    parents := by simpa [Forest.hang] using h.parents
    sizes := by simpa [Forest.hang] using h.sizes
    parent_lt := by
      intro y hy
      rw [parentOf]
      split
      · exact hh
      · exact h.parent_lt y hy
    leader_parent := by
      intro y
      rw [parentOf]
      split
      · subst_vars; simp [joinLeader, lowLeads, highLeads]
      · rw [joinLeader, joinLeader, h.leader_parent]
    leader_root := by
      intro y top
      rw [parentOf] at top
      split at top
      · subst_vars; exact absurd rfl apart
      · rename_i other
        rw [joinLeader, h.leader_root y top, if_neg other]
    size_lt := by
      intro y up
      rw [parentOf] at up ⊢
      rw [sizeOf, sizeOf]
      split at up
      · subst_vars
        rw [if_neg apart, if_pos rfl, if_pos rfl]
        omega
      · rename_i other
        have notHigh : y ≠ high := fun same => up (same ▸ highTop)
        have grows := h.size_lt y up
        rw [if_neg notHigh, if_neg other]
        split
        · subst_vars; omega
        · exact grows
    size_le := by
      intro y hy
      rw [sizeOf]
      split
      · subst_vars
        rw [joinLeader, highLeads, if_neg apart.symm, total]
      · exact (h.size_le y hy).trans (following_le_joinLeader apart)
    size_root := by
      intro y hy top
      rw [parentOf] at top
      rw [sizeOf]
      split at top
      · subst_vars; exact absurd rfl apart
      · rename_i other
        split
        · subst_vars; exact total
        · rename_i notHigh
          rw [following_joinLeader_of_ne other notHigh, h.size_root y hy top] }

/-- Two nodes share a leader after a join when they did before, or when one followed `low`
and the other `high`. -/
theorem joinLeader_eq_iff {leader : Nat → Nat} {low high x y : Nat} :
    joinLeader leader low high x = joinLeader leader low high y ↔
      leader x = leader y ∨ (leader x = low ∧ leader y = high) ∨
        (leader x = high ∧ leader y = low) := by
  unfold joinLeader
  split <;> split <;> simp_all [eq_comm]

namespace Sound

variable {f : Forest} {n : Nat}

theorem find (h : f.Sound n) (x : Nat) : (f.find x).1.Sound n := (LedBy.find h x).sound

theorem root_find (h : f.Sound n) (x : Nat) : (f.find x).1.root = f.root := (LedBy.find h x).root_eq

theorem findEach_eq (h : f.Sound n) (nodes : List Nat) : f.findEach nodes = nodes.map f.root := by
  induction nodes generalizing f with
  | nil => rfl
  | cons x rest ih =>
    have others := ih (h.find x)
    rw [h.root_find] at others
    rw [List.map_cons, ← others]
    rfl

theorem exists_union (h : f.Sound n) {a b : Nat} (ha : a < n) (hb : b < n) :
    ∃ leader, (f.union a b).LedBy n leader ∧ ∀ x y, leader x = leader y ↔
      f.root x = f.root y ∨ (f.root x = f.root a ∧ f.root y = f.root b) ∨
        (f.root x = f.root b ∧ f.root y = f.root a) := by
  have first := LedBy.find h a
  have second := first.find b
  have secondRoot : ((f.find a).1.find b).2 = f.root b := by
    rw [Forest.find, first.root_eq]
  have topA := second.parentOf_leader a
  have topB := second.parentOf_leader b
  have ltA := h.leader_lt ha
  have ltB := h.leader_lt hb
  unfold union
  simp only [secondRoot]
  rw [show (f.find a).2 = f.root a from rfl]
  split
  · rename_i same
    refine ⟨f.root, second, fun x y => ?_⟩
    rw [same]
    constructor
    · exact Or.inl
    · intro linked
      obtain e | ⟨hx, hy⟩ | ⟨hx, hy⟩ := linked
      · exact e
      · rw [hx, hy]
      · rw [hx, hy]
  · rename_i apart
    split
    · refine ⟨_, second.hang ltB ltA topB topA (Ne.symm apart), fun x y => ?_⟩
      rw [joinLeader_eq_iff]
      tauto
    · refine ⟨_, second.hang ltA ltB topA topB apart, fun x y => ?_⟩
      rw [joinLeader_eq_iff]

theorem union (h : f.Sound n) {a b : Nat} (ha : a < n) (hb : b < n) : (f.union a b).Sound n := by
  obtain ⟨leader, led, _⟩ := h.exists_union ha hb
  exact led.sound

theorem root_union (h : f.Sound n) {a b : Nat} (ha : a < n) (hb : b < n) (x y : Nat) :
    (f.union a b).root x = (f.union a b).root y ↔
      f.root x = f.root y ∨ (f.root x = f.root a ∧ f.root y = f.root b) ∨
        (f.root x = f.root b ∧ f.root y = f.root a) := by
  obtain ⟨leader, led, same⟩ := h.exists_union ha hb
  rw [led.root_eq]
  exact same x y

end Sound

theorem sound_new (n : Nat) : (new n).Sound n := by
  have root : (new n).root = id := funext (root_new n)
  have alone : ∀ x < n, (new n).sizeOf x = following n id x := by
    intro x hx
    have one : (Finset.range n).filter (id · = x) = {x} := by
      ext y
      simp only [Finset.mem_filter, Finset.mem_range, Finset.mem_singleton, id]
      exact ⟨And.right, fun same => ⟨same ▸ hx, same⟩⟩
    rw [following, one]
    simp [new, sizeOf, hx]
  rw [Sound, root]
  exact {
    parents := by simp [new]
    sizes := by simp [new]
    parent_lt := fun x hx => by rwa [parentOf_new]
    leader_parent := fun x => by rw [parentOf_new]
    leader_root := fun x _ => rfl
    size_lt := fun x up => absurd (parentOf_new n x) up
    size_le := fun x hx => (alone x hx).le
    size_root := fun x hx _ => alone x hx }

def unite (f : Forest) (edges : List (Nat × Nat)) : Forest :=
  edges.foldl (fun f e => f.union e.1 e.2) f

theorem Sound.unite {f : Forest} {n : Nat} (h : f.Sound n) {edges : List (Nat × Nat)}
    (inside : ∀ e ∈ edges, e.1 < n ∧ e.2 < n) : (f.unite edges).Sound n := by
  induction edges generalizing f with
  | nil => exact h
  | cons e rest ih =>
    obtain ⟨here, later⟩ := List.forall_mem_cons.1 inside
    exact ih (h.union here.1 here.2) later

theorem eq_of_eqvGen {α β : Type} {r : α → α → Prop} (value : α → β)
    (agrees : ∀ x y, r x y → value x = value y) {x y : α} (h : Relation.EqvGen r x y) :
    value x = value y := by
  induction h with
  | rel x y step => exact agrees x y step
  | refl x => rfl
  | symm x y _ ih => exact ih.symm
  | trans x y z _ _ first second => exact first.trans second

/-- After uniting along edges two nodes share a root exactly when a chain of edges and of
nodes that shared one before leads from one to the other. -/
theorem Sound.root_unite {f : Forest} {n : Nat} (h : f.Sound n) {edges : List (Nat × Nat)}
    (inside : ∀ e ∈ edges, e.1 < n ∧ e.2 < n) (x y : Nat) :
    (f.unite edges).root x = (f.unite edges).root y ↔
      Relation.EqvGen (fun a b => f.root a = f.root b ∨ (a, b) ∈ edges) x y := by
  induction edges generalizing f with
  | nil =>
    refine ⟨fun same => .rel _ _ (.inl same), eq_of_eqvGen f.root ?_⟩
    intro a b either
    cases either with
    | inl same => exact same
    | inr edge => simp at edge
  | cons e rest ih =>
    obtain ⟨a, b⟩ := e
    obtain ⟨he, hrest⟩ := List.forall_mem_cons.1 inside
    have joined := h.root_union he.1 he.2
    refine (ih (h.union he.1 he.2) hrest).trans ⟨?_, ?_⟩
    · refine Relation.EqvGen.eqvGen_le ?_ x y
      intro u v either
      cases either with
      | inl same =>
        have across : Relation.EqvGen
            (fun a' b' => f.root a' = f.root b' ∨ (a', b') ∈ (a, b) :: rest) a b :=
          .rel _ _ (.inr (by simp))
        obtain old | ⟨hu, hv⟩ | ⟨hu, hv⟩ := (joined u v).1 same
        · exact .rel _ _ (.inl old)
        · exact .trans _ _ _ (.rel _ _ (.inl hu)) (.trans _ _ _ across (.rel _ _ (.inl hv.symm)))
        · exact .trans _ _ _ (.rel _ _ (.inl hu))
            (.trans _ _ _ (.symm _ _ across) (.rel _ _ (.inl hv.symm)))
      | inr edge => exact .rel _ _ (.inr (List.mem_cons_of_mem _ edge))
    · refine Relation.EqvGen.mono ?_ x y
      intro u v either
      cases either with
      | inl same => exact .inl ((joined u v).2 (.inl same))
      | inr edge =>
        cases List.mem_cons.1 edge with
        | inl first =>
          obtain ⟨rfl, rfl⟩ := Prod.mk.inj first
          exact .inl ((joined u v).2 (.inr (.inl ⟨rfl, rfl⟩)))
        | inr later => exact .inr later

theorem root_unite_new {n : Nat} {edges : List (Nat × Nat)}
    (inside : ∀ e ∈ edges, e.1 < n ∧ e.2 < n) (x y : Nat) :
    ((new n).unite edges).root x = ((new n).unite edges).root y ↔
      Relation.EqvGen (fun a b => (a, b) ∈ edges) x y := by
  rw [(sound_new n).root_unite inside]
  constructor
  · refine Relation.EqvGen.eqvGen_le ?_ x y
    intro u v either
    cases either with
    | inl same =>
      rw [root_new, root_new] at same
      exact same ▸ .refl u
    | inr edge => exact .rel _ _ edge
  · exact Relation.EqvGen.mono (fun u v edge => .inr edge) x y

end Roster.Forest
