import Mathlib.Data.Set.Card
import Roster.Proofs.Forest

/-! A forest under any use. Whatever calls of `union` and `find` it has seen, the next one ends,
two nodes have one answer exactly when united pairs link them, and a root knows how many nodes
are linked to it. `climb` and `compress` take no more steps than they are given; `Climbs` and
`Repoints` are the same two walks with no such bound, over tables whose entries have to be there,
and say that a walk ends and where. -/

namespace Roster.Forest

/-- The way up from `x` ends, at `top`. -/
inductive Climbs (f : Forest) : (x top : Nat) → Prop
  | here {x : Nat} (entry : f.parent[x]? = some x) : Climbs f x x
  | up {x y top : Nat} (entry : f.parent[x]? = some y) (moves : y ≠ x) (rest : Climbs f y top) :
      Climbs f x top

inductive Repoints (top : Nat) : (f : Forest) → (x : Nat) → (g : Forest) → Prop
  | done {f : Forest} {x : Nat} (entry : f.parent[x]? = some top) : Repoints top f x f
  | step {f g : Forest} {x y : Nat} (entry : f.parent[x]? = some y) (moves : y ≠ top)
      (rest : Repoints top { f with parent := f.parent.setIfInBounds x top } y g) :
      Repoints top f x g

structure Finds (f : Forest) (x : Nat) (g : Forest) (top : Nat) : Prop where
  climbs : f.Climbs x top
  repoints : Repoints top f x g

inductive Hangs (f : Forest) (a b : Nat) : (g : Forest) → Prop
  | same (equal : a = b) : Hangs f a b f
  | second {sa sb : Nat} (apart : a ≠ b) (sizeA : f.size[a]? = some sa)
      (sizeB : f.size[b]? = some sb) (smaller : sb ≤ sa) : Hangs f a b (f.hang b a)
  | first {sa sb : Nat} (apart : a ≠ b) (sizeA : f.size[a]? = some sa)
      (sizeB : f.size[b]? = some sb) (smaller : sa < sb) : Hangs f a b (f.hang a b)

inductive Unites (f : Forest) (a b : Nat) : (k : Forest) → Prop
  | mk {g h k : Forest} {ra rb : Nat} (first : f.Finds a g ra) (second : g.Finds b h rb)
      (hangs : h.Hangs ra rb k) : Unites f a b k

theorem getElem?_parent {f : Forest} {x : Nat} (hx : x < f.parent.size) :
    f.parent[x]? = some (f.parentOf x) := by
  simp [parentOf, hx]

theorem getElem?_size {f : Forest} {x : Nat} (hx : x < f.size.size) :
    f.size[x]? = some (f.sizeOf x) := by
  simp [sizeOf, hx]

theorem Climbs.unique {f : Forest} {x r s : Nat} (h : f.Climbs x r) (h' : f.Climbs x s) :
    r = s := by
  induction h with
  | here entry =>
    cases h' with
    | here => rfl
    | up entry' moves _ => exact absurd (Option.some.inj (entry'.symm.trans entry)) moves
  | up entry moves _ ih =>
    cases h' with
    | here entry' => exact absurd (Option.some.inj (entry.symm.trans entry')) moves
    | up entry' _ rest =>
      obtain rfl := Option.some.inj (entry.symm.trans entry')
      exact ih rest

theorem Repoints.unique {f g h : Forest} {top x : Nat} (left : Repoints top f x g)
    (right : Repoints top f x h) : g = h := by
  induction left with
  | done entry =>
    cases right with
    | done => rfl
    | step entry' moves _ => exact absurd (Option.some.inj (entry'.symm.trans entry)) moves
  | step entry moves _ ih =>
    cases right with
    | done entry' => exact absurd (Option.some.inj (entry.symm.trans entry')) moves
    | step entry' _ rest =>
      obtain rfl := Option.some.inj (entry.symm.trans entry')
      exact ih rest

namespace LedBy

variable {f : Forest} {n : Nat} {leader : Nat → Nat}

theorem climbs (h : f.LedBy n leader) {steps x : Nat} (hx : x < n)
    (enough : n ≤ steps + f.sizeOf x) : f.Climbs x (f.climb steps x) := by
  have entry := getElem?_parent (h.parents ▸ hx)
  induction steps generalizing x with
  | zero =>
    rw [h.parentOf_of_full (by omega)] at entry
    exact .here entry
  | succ steps ih =>
    rw [climb]
    split
    · rename_i top
      rw [top] at entry
      exact .here entry
    · rename_i moves
      have inside := h.parent_lt x hx
      have grows := h.size_lt x moves
      exact .up entry moves (ih inside (by omega) (getElem?_parent (h.parents ▸ inside)))

theorem repoints (h : f.LedBy n leader) {steps x : Nat} (hx : x < n)
    (enough : n ≤ steps + f.sizeOf x) :
    Repoints (leader x) f x (Forest.compress (leader x) steps f x) := by
  have entry := getElem?_parent (h.parents ▸ hx)
  induction steps generalizing f x with
  | zero =>
    have top : f.parentOf x = x := h.parentOf_of_full (by omega)
    exact .done (by rw [entry, top, h.leader_root x top])
  | succ steps ih =>
    rw [Forest.compress]
    split
    · rename_i there
      rw [there] at entry
      exact .done entry
    · rename_i moves
      have below : f.parentOf x ≠ x := fun top => moves (by rw [top, h.leader_root x top])
      have inside := h.parent_lt x hx
      have grows := h.size_lt x below
      have later := h.leader_parent x ▸ h.setParent moves
      have near : n ≤ steps + f.sizeOf (f.parentOf x) := by omega
      have rest := ih later inside near (getElem?_parent (later.parents ▸ inside))
      rw [h.leader_parent] at rest
      exact .step entry moves rest

end LedBy

namespace Sound

variable {f : Forest} {n : Nat}

theorem finds_iff (h : f.Sound n) {x : Nat} (hx : x < n) {g : Forest} {top : Nat} :
    f.Finds x g top ↔ (g, top) = f.find x := by
  have enough : n ≤ f.parent.size + f.sizeOf x := by
    rw [h.parents]
    omega
  have climbs : f.Climbs x (f.root x) := h.climbs hx enough
  have repoints : Repoints (f.root x) f x (f.find x).1 := h.repoints hx enough
  constructor
  · intro found
    obtain rfl := found.climbs.unique climbs
    obtain rfl := found.repoints.unique repoints
    rfl
  · intro same
    obtain ⟨rfl, rfl⟩ := Prod.mk.inj same
    exact ⟨climbs, repoints⟩

theorem hangs_iff (h : f.Sound n) {a b : Nat} (ha : a < n) (hb : b < n) {g : Forest} :
    f.Hangs a b g ↔ g = if a = b then f
      else if f.sizeOf b ≤ f.sizeOf a then f.hang b a else f.hang a b := by
  have sizeA := getElem?_size (h.sizes.symm ▸ ha)
  have sizeB := getElem?_size (h.sizes.symm ▸ hb)
  constructor
  · intro hangs
    cases hangs with
    | same equal => rw [if_pos equal]
    | second apart there here smaller =>
      obtain rfl := Option.some.inj (there.symm.trans sizeA)
      obtain rfl := Option.some.inj (here.symm.trans sizeB)
      rw [if_neg apart, if_pos smaller]
    | first apart there here smaller =>
      obtain rfl := Option.some.inj (there.symm.trans sizeA)
      obtain rfl := Option.some.inj (here.symm.trans sizeB)
      rw [if_neg apart, if_neg (by omega)]
  · intro result
    rw [result]
    split
    · exact .same ‹_›
    · rename_i apart
      split
      · exact .second apart sizeA sizeB ‹_›
      · exact .first apart sizeA sizeB (by omega)

theorem unites_iff (h : f.Sound n) {a b : Nat} (ha : a < n) (hb : b < n) {g : Forest} :
    f.Unites a b g ↔ g = f.union a b := by
  have between := h.find a
  have after := between.find b
  have rootA := h.leader_lt ha
  have rootB := between.leader_lt hb
  constructor
  · intro united
    obtain ⟨first, second, hangs⟩ := united
    obtain ⟨rfl, rfl⟩ := Prod.mk.inj ((h.finds_iff ha).1 first)
    obtain ⟨rfl, rfl⟩ := Prod.mk.inj ((between.finds_iff hb).1 second)
    exact (after.hangs_iff rootA rootB).1 hangs
  · intro result
    exact .mk ((h.finds_iff ha).2 rfl) ((between.finds_iff hb).2 rfl)
      ((after.hangs_iff rootA rootB).2 result)

end Sound

inductive Call (n : Nat)
  | union (a b : Fin n)
  | find (x : Fin n)

variable {n : Nat}

def call (f : Forest) : Call n → Forest
  | .union a b => f.union a b
  | .find x => (f.find x).1

def after (f : Forest) (calls : List (Call n)) : Forest := calls.foldl call f

def united (calls : List (Call n)) : List (Nat × Nat) :=
  calls.filterMap fun call =>
    match call with
    | .union a b => some (a.1, b.1)
    | .find _ => none

/-- Linked through united pairs, in any number of steps and either way. -/
def Linked (calls : List (Call n)) : Nat → Nat → Prop :=
  Relation.EqvGen fun a b => (a, b) ∈ united calls

theorem Sound.call {f : Forest} (h : f.Sound n) (c : Call n) : (f.call c).Sound n := by
  cases c with
  | union a b => exact h.union a.2 b.2
  | find x => exact h.find x

theorem Sound.after {f : Forest} (h : f.Sound n) (calls : List (Call n)) :
    (f.after calls).Sound n := by
  induction calls generalizing f with
  | nil => exact h
  | cons c rest ih => exact ih (h.call c)

theorem Sound.root_after_eq_iff {f g : Forest} (hf : f.Sound n) (hg : g.Sound n)
    (alike : ∀ x y, f.root x = f.root y ↔ g.root x = g.root y) (calls : List (Call n)) (x y : Nat) :
    (f.after calls).root x = (f.after calls).root y ↔
      (g.unite (united calls)).root x = (g.unite (united calls)).root y := by
  induction calls generalizing f g with
  | nil => exact alike x y
  | cons c rest ih =>
    cases c with
    | union a b =>
      refine ih (hf.union a.2 b.2) (hg.union a.2 b.2) fun x y => ?_
      rw [Forest.call, hf.root_union a.2 b.2, hg.root_union a.2 b.2]
      simp only [alike]
    | find z =>
      refine ih (hf.find z) hg fun x y => ?_
      rw [Forest.call, hf.root_find]
      exact alike x y

theorem lt_of_mem_united {calls : List (Call n)} {e : Nat × Nat} (h : e ∈ united calls) :
    e.1 < n ∧ e.2 < n := by
  obtain ⟨c, -, pair⟩ := List.mem_filterMap.1 h
  cases c with
  | union a b =>
    obtain rfl := Option.some.inj pair
    exact ⟨a.2, b.2⟩
  | find x => simp at pair

theorem root_after_new_eq_iff (calls : List (Call n)) (x y : Nat) :
    ((new n).after calls).root x = ((new n).after calls).root y ↔ Linked calls x y := by
  rw [(sound_new n).root_after_eq_iff (sound_new n) fun _ _ => Iff.rfl]
  exact root_unite_new (fun _ => lt_of_mem_united) x y

theorem following_eq_ncard (leader : Nat → Nat) (r : Nat) :
    following n leader r = {y : Fin n | leader y = r}.ncard := by
  have values : Fin.val '' {y : Fin n | leader y = r} =
      ((Finset.range n).filter (leader · = r) : Finset Nat) := by
    ext y
    simp [Fin.exists_iff, and_comm]
  rw [← Set.ncard_image_of_injective _ Fin.val_injective, values, Set.ncard_coe_finset, following]

/-- After any calls every entry of the forest is a node, and the next call ends, in what `find` or
`union` gives and in nothing else. The answers for two nodes agree exactly when united pairs link
the two, asking changes no later answer, and the size of a root is the number of nodes linked to
it. -/
theorem stands_for_classes (n : Nat) (calls : List (Call n)) :
    let f := (new n).after calls
    (f.parent.size = n ∧ ∀ y ∈ f.parent, y < n) ∧
    (∀ (x : Fin n) g top, f.Finds x g top ↔ (g, top) = f.find x) ∧
    (∀ (a b : Fin n) g, f.Unites a b g ↔ g = f.union a b) ∧
    (∀ x y : Fin n, (f.find x).2 = ((f.find x).1.find y).2 ↔ Linked calls x y) ∧
    (∀ x y : Fin n, ((f.find x).1.find y).2 = (f.find y).2) ∧
    ∀ r : Fin n, f.parent[r.1]? = some r.1 →
      f.size[r.1]? = some {y : Fin n | Linked calls r y}.ncard := by
  have sound := (sound_new n).after calls
  have same := root_after_new_eq_iff calls
  generalize (new n).after calls = f at sound same
  have answer : ∀ x y : Nat, ((f.find x).1.find y).2 = (f.find y).2 :=
    fun x y => congrFun (sound.root_find x) y
  refine ⟨⟨sound.parents, ?_⟩, fun x _ _ => sound.finds_iff x.2,
    fun a b _ => sound.unites_iff a.2 b.2, fun x y => ?_, fun x y => answer x y, ?_⟩
  · intro y entry
    obtain ⟨x, hx, rfl⟩ := Array.mem_iff_getElem.1 entry
    have inside := sound.parent_lt x (sound.parents ▸ hx)
    simpa [parentOf, hx] using inside
  · rw [answer]
    exact same x y
  · intro r entry
    have top : f.parentOf r = r := by simp [parentOf, entry]
    rw [getElem?_size (sound.sizes.symm ▸ r.2), sound.size_root r r.2 top, following_eq_ncard]
    congr 2
    ext y
    rw [Set.mem_ofPred_eq, Set.mem_ofPred_eq, ← same, sound.leader_root r top, eq_comm]

example : let calls : List (Call 5) := [.union 0 1, .union 3 4, .find 4, .union 1 4]
    let f := (new 5).after calls
    f.root 0 = f.root 3 ∧ f.root 0 ≠ f.root 2 ∧ f.sizeOf (f.root 4) = 4 := by
  decide +kernel

end Roster.Forest
