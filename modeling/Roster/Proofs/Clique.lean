import Roster.Clique
import Roster.Proofs.Forest

/-! Cliques of a session: each is a list of different active people, and any two active
people named by one keep-together list in force are in a clique together. -/

namespace Roster

theorem getElem?_of_lastIndex? {ids : List String} {id : String} {i : Nat}
    (h : lastIndex? ids id = some i) : ids[i]? = some id := by
  obtain ⟨k, hk, rfl⟩ := Option.map_eq_some_iff.1 h
  obtain ⟨hlt, found, _⟩ := List.findIdx?_eq_some_iff_getElem.1 hk
  rw [List.length_reverse] at hlt
  rw [List.getElem_reverse] at found
  rw [List.getElem?_eq_getElem (by omega)]
  simpa using found

theorem exists_lastIndex? {ids : List String} {id : String} (h : id ∈ ids) :
    ∃ i, lastIndex? ids id = some i := by
  unfold lastIndex?
  cases found : ids.reverse.findIdx? (· = id) with
  | some k => exact ⟨_, rfl⟩
  | none =>
    rw [List.findIdx?_eq_none_iff] at found
    have absent := found id (List.mem_reverse.2 h)
    simp at absent

theorem mem_classes {l : List (Nat × String)} {members : List String} :
    members ∈ classes l ↔ ∃ e ∈ l, members = (l.filter (·.1 = e.1)).map Prod.snd := by
  simp only [classes, List.mem_map, List.mem_eraseDups]
  constructor
  · intro h
    obtain ⟨_, ⟨e, he, rfl⟩, rfl⟩ := h
    exact ⟨e, he, rfl⟩
  · intro h
    obtain ⟨e, he, rfl⟩ := h
    exact ⟨e.1, ⟨e, he, rfl⟩, rfl⟩

def star : List Nat → List (Nat × Nat)
  | [] => []
  | first :: rest => rest.map (first, ·)

theorem Forest.unionAll_eq_unite (f : Forest) (nodes : List Nat) :
    f.unionAll nodes = f.unite (star nodes) := by
  cases nodes with
  | nil => rfl
  | cons first rest => rw [Forest.unionAll, star, Forest.unite, List.foldl_map]

theorem mem_of_mem_star {nodes : List Nat} {e : Nat × Nat} (h : e ∈ star nodes) :
    e.1 ∈ nodes ∧ e.2 ∈ nodes := by
  cases nodes with
  | nil => simp [star] at h
  | cons first rest =>
    obtain ⟨other, ho, rfl⟩ := List.mem_map.1 h
    exact ⟨List.mem_cons_self, List.mem_cons_of_mem _ ho⟩

theorem eqvGen_star {nodes : List Nat} {x y : Nat} (hx : x ∈ nodes) (hy : y ∈ nodes) :
    Relation.EqvGen (fun a b => (a, b) ∈ star nodes) x y := by
  cases nodes with
  | nil => simp at hx
  | cons first rest =>
    have reach : ∀ z ∈ first :: rest,
        Relation.EqvGen (fun a b => (a, b) ∈ star (first :: rest)) first z := by
      intro z hz
      cases List.mem_cons.1 hz with
      | inl same => rw [same]; exact .refl first
      | inr other => exact .rel _ _ (List.mem_map.2 ⟨z, other, rfl⟩)
    exact .trans _ _ _ (.symm _ _ (reach x hx)) (reach y hy)

namespace Problem

variable {p : Problem} {session : Nat} {active : List String}

/-- Pairs of places in the active list that the keep-together lists tie. -/
def ties (p : Problem) (session : Nat) (active : List String) : List (Nat × Nat) :=
  (p.togetherLists session).flatMap fun people => star (people.filterMap (lastIndex? active))

theorem joined_eq_unite (p : Problem) (session : Nat) (active : List String) :
    p.joined session active = (Forest.new active.length).unite (p.ties session active) := by
  rw [joined, ties]
  generalize Forest.new active.length = f
  induction p.togetherLists session generalizing f with
  | nil => rfl
  | cons people rest ih =>
    rw [List.foldl_cons, ih, Forest.unionAll_eq_unite, List.flatMap_cons, Forest.unite,
      Forest.unite, Forest.unite, List.foldl_append]

/-- Only the last place of an id is ever tied. -/
theorem lastIndex?_of_mem_ties {e : Nat × Nat} (h : e ∈ p.ties session active) :
    (∃ id, lastIndex? active id = some e.1) ∧ ∃ id, lastIndex? active id = some e.2 := by
  obtain ⟨people, _, he⟩ := List.mem_flatMap.1 h
  obtain ⟨first, second⟩ := mem_of_mem_star he
  obtain ⟨a, _, ha⟩ := List.mem_filterMap.1 first
  obtain ⟨b, _, hb⟩ := List.mem_filterMap.1 second
  exact ⟨⟨a, ha⟩, ⟨b, hb⟩⟩

theorem lt_of_lastIndex? {id : String} {i : Nat} (h : lastIndex? active id = some i) :
    i < active.length := by
  by_contra out
  have found := getElem?_of_lastIndex? h
  rw [List.getElem?_eq_none (Nat.le_of_not_lt out)] at found
  simp at found

theorem lt_of_mem_ties {e : Nat × Nat} (h : e ∈ p.ties session active) :
    e.1 < active.length ∧ e.2 < active.length := by
  obtain ⟨⟨a, ha⟩, ⟨b, hb⟩⟩ := lastIndex?_of_mem_ties h
  exact ⟨lt_of_lastIndex? ha, lt_of_lastIndex? hb⟩

theorem sound_joined (p : Problem) (session : Nat) (active : List String) :
    (p.joined session active).Sound active.length := by
  rw [joined_eq_unite]
  exact (Forest.sound_new active.length).unite fun _ => lt_of_mem_ties

theorem root_joined (p : Problem) (session : Nat) (active : List String) (x y : Nat) :
    (p.joined session active).root x = (p.joined session active).root y ↔
      Relation.EqvGen (fun a b => (a, b) ∈ p.ties session active) x y := by
  rw [joined_eq_unite]
  exact Forest.root_unite_new (fun _ => lt_of_mem_ties) x y

/-- Asking for the root of one place changes no root that is found later. -/
theorem labelled_eq (p : Problem) (session : Nat) (active : List String) :
    p.labelled session active =
      active.zipIdx.map fun e => ((p.joined session active).root e.2, e.1) := by
  rw [labelled, (sound_joined p session active).findEach_eq]
  exact List.ext_getElem (by simp) fun i _ _ => by simp

theorem lastIndex?_of_root_eq {x y : Nat} {id : String} (apart : x ≠ y)
    (same : (p.joined session active).root x = (p.joined session active).root y)
    (hx : active[x]? = some id) : lastIndex? active id = some x := by
  have linked : x = y ∨ ((∃ id, lastIndex? active id = some x) ∧
      ∃ id, lastIndex? active id = some y) := by
    have chain := (root_joined p session active x y).1 same
    clear same hx apart
    induction chain with
    | rel a b tie => exact .inr (lastIndex?_of_mem_ties tie)
    | refl a => exact .inl rfl
    | symm a b _ ih =>
      cases ih with
      | inl same => exact .inl same.symm
      | inr both => exact .inr ⟨both.2, both.1⟩
    | trans a b c _ _ first second =>
      cases first with
      | inl same => rw [same]; exact second
      | inr firstBoth =>
        cases second with
        | inl same => rw [← same]; exact .inr firstBoth
        | inr secondBoth => exact .inr ⟨firstBoth.1, secondBoth.2⟩
  cases linked with
  | inl same => exact absurd same apart
  | inr both =>
    obtain ⟨other, found⟩ := both.1
    have ids := (getElem?_of_lastIndex? found).symm.trans hx
    rwa [Option.some.inj ids] at found

theorem root_eq_of_together {people : List String} (h : people ∈ p.togetherLists session)
    {a b : String} (ha : a ∈ people) (hb : b ∈ people) {i j : Nat}
    (hi : lastIndex? active a = some i) (hj : lastIndex? active b = some j) :
    (p.joined session active).root i = (p.joined session active).root j := by
  rw [root_joined]
  have inside : ∀ u v, (u, v) ∈ star (people.filterMap (lastIndex? active)) →
      (u, v) ∈ p.ties session active := fun u v tie => List.mem_flatMap.2 ⟨people, h, tie⟩
  refine Relation.EqvGen.mono inside i j (eqvGen_star ?_ ?_)
  · exact List.mem_filterMap.2 ⟨a, ha, hi⟩
  · exact List.mem_filterMap.2 ⟨b, hb, hj⟩

def mates (p : Problem) (session : Nat) (active : List String) (i : Nat) : List String :=
  (active.zipIdx.filter fun e =>
    (p.joined session active).root e.2 = (p.joined session active).root i).map Prod.fst

theorem mem_mates {i : Nat} {id : String} :
    id ∈ p.mates session active i ↔ ∃ k, active[k]? = some id ∧
      (p.joined session active).root k = (p.joined session active).root i := by
  simp only [mates, List.mem_map, List.mem_filter, decide_eq_true_eq, Prod.exists,
    List.mk_mem_zipIdx_iff_getElem?]
  constructor
  · intro h
    obtain ⟨_, k, ⟨hk, same⟩, rfl⟩ := h
    exact ⟨k, hk, same⟩
  · intro h
    obtain ⟨k, hk, same⟩ := h
    exact ⟨id, k, ⟨hk, same⟩, rfl⟩

theorem mem_labelled {e : Nat × String} : e ∈ p.labelled session active ↔
    ∃ i, active[i]? = some e.2 ∧ e.1 = (p.joined session active).root i := by
  rw [labelled_eq, List.mem_map]
  constructor
  · intro h
    obtain ⟨⟨id, i⟩, hi, rfl⟩ := h
    exact ⟨i, List.mk_mem_zipIdx_iff_getElem?.1 hi, rfl⟩
  · intro h
    obtain ⟨i, place, same⟩ := h
    exact ⟨(e.2, i), List.mk_mem_zipIdx_iff_getElem?.2 place, Prod.ext same.symm rfl⟩

theorem map_filter_labelled (p : Problem) (session : Nat) (active : List String) (i : Nat) :
    ((p.labelled session active).filter (·.1 = (p.joined session active).root i)).map Prod.snd =
      p.mates session active i := by
  rw [labelled_eq, List.filter_map, List.map_map, mates]
  rfl

theorem mem_cliques {clique : List String} :
    clique ∈ p.cliques session active ↔
      1 < clique.length ∧ ∃ i < active.length, clique = p.mates session active i := by
  simp only [cliques, List.mem_mergeSort, List.mem_filter, mem_classes, decide_eq_true_eq]
  rw [and_comm]
  refine and_congr_right fun _ => ⟨?_, ?_⟩
  · intro h
    obtain ⟨e, he, rfl⟩ := h
    obtain ⟨i, place, same⟩ := mem_labelled.1 he
    refine ⟨i, (List.getElem?_eq_some_iff.1 place).1, ?_⟩
    rw [same, map_filter_labelled]
  · intro h
    obtain ⟨i, hi, rfl⟩ := h
    have place : ((p.joined session active).root i, active[i]) ∈ p.labelled session active :=
      mem_labelled.2 ⟨i, List.getElem?_eq_getElem hi, rfl⟩
    exact ⟨_, place, (map_filter_labelled p session active i).symm⟩

theorem mem_of_mem_cliques {clique : List String} (h : clique ∈ p.cliques session active)
    {id : String} (hid : id ∈ clique) : id ∈ active := by
  obtain ⟨_, i, _, rfl⟩ := mem_cliques.1 h
  obtain ⟨k, hk, _⟩ := mem_mates.1 hid
  exact List.mem_of_getElem? hk

theorem nodup_filter_zipIdx (active : List String) (keep : String × Nat → Bool) :
    ((active.zipIdx.filter keep).map Prod.snd).Nodup := by
  have places : (active.zipIdx.map Prod.snd).Nodup := by
    rw [List.zipIdx_map_snd]
    exact List.nodup_range'
  exact (List.filter_sublist.map Prod.snd).nodup places

theorem lastIndex?_of_mates {i k : Nat} {id : String}
    (large : 1 < (p.mates session active i).length) (place : active[k]? = some id)
    (same : (p.joined session active).root k = (p.joined session active).root i) :
    lastIndex? active id = some k := by
  obtain ⟨d, hd, other⟩ : ∃ d ∈ active.zipIdx.filter (fun e =>
      (p.joined session active).root e.2 = (p.joined session active).root i), d ≠ (id, k) := by
    by_contra alone
    push Not at alone
    have distinct := (nodup_filter_zipIdx active fun e =>
      (p.joined session active).root e.2 = (p.joined session active).root i).of_map
    have short := (distinct.subperm fun d hd => List.mem_singleton.2 (alone d hd)).length_le
    rw [mates, List.length_map] at large
    rw [List.length_singleton] at short
    omega
  rw [List.mem_filter, decide_eq_true_eq] at hd
  have place' := List.mk_mem_zipIdx_iff_getElem?.1 hd.1
  refine lastIndex?_of_root_eq (y := d.2) ?_ (same.trans hd.2.symm) place
  intro here
  rw [here, place'] at place
  exact other (Prod.ext (Option.some.inj place) here.symm)

theorem nodup_of_mem_cliques {clique : List String} (h : clique ∈ p.cliques session active) :
    clique.Nodup := by
  obtain ⟨large, i, _, rfl⟩ := mem_cliques.1 h
  have last : ∀ e ∈ active.zipIdx.filter (fun e =>
      (p.joined session active).root e.2 = (p.joined session active).root i),
      lastIndex? active e.1 = some e.2 := by
    intro e he
    rw [List.mem_filter, decide_eq_true_eq] at he
    exact lastIndex?_of_mates large (List.mk_mem_zipIdx_iff_getElem?.1 he.1) he.2
  refine List.Nodup.map_on ?_ (nodup_filter_zipIdx active _).of_map
  intro e he d hd same
  have places := (last e he).symm.trans (same ▸ last d hd)
  exact Prod.ext same (Option.some.inj places)

theorem exists_clique_of_root_eq {a b : String} {i j : Nat} (hi : lastIndex? active a = some i)
    (hj : lastIndex? active b = some j) (apart : a ≠ b)
    (same : (p.joined session active).root i = (p.joined session active).root j) :
    ∃ clique ∈ p.cliques session active, a ∈ clique ∧ b ∈ clique := by
  have memA : a ∈ p.mates session active i := mem_mates.2 ⟨i, getElem?_of_lastIndex? hi, rfl⟩
  have memB : b ∈ p.mates session active i :=
    mem_mates.2 ⟨j, getElem?_of_lastIndex? hj, same.symm⟩
  have both : [a, b].Subperm (p.mates session active i) := by
    refine List.Nodup.subperm (by simpa using apart) fun id hid => ?_
    cases List.mem_pair.1 hid with
    | inl same => rw [same]; exact memA
    | inr same => rw [same]; exact memB
  exact ⟨_, mem_cliques.2 ⟨both.length_le, i, lt_of_lastIndex? hi, rfl⟩, memA, memB⟩

theorem exists_clique_of_together {people : List String} (h : people ∈ p.togetherLists session)
    {a b : String} (ha : a ∈ people) (hb : b ∈ people) (actA : a ∈ active) (actB : b ∈ active)
    (apart : a ≠ b) : ∃ clique ∈ p.cliques session active, a ∈ clique ∧ b ∈ clique := by
  obtain ⟨i, hi⟩ := exists_lastIndex? actA
  obtain ⟨j, hj⟩ := exists_lastIndex? actB
  exact exists_clique_of_root_eq hi hj apart (root_eq_of_together h ha hb hi hj)

theorem cliques_eq_of_sorted {found : List (List String)}
    (classes : (classes (p.labelled session active)).filter (1 < ·.length) = found)
    (sorted : found.Pairwise fun a b => b.length ≤ a.length) :
    p.cliques session active = found := by
  simp only [cliques]
  rw [classes]
  exact List.mergeSort_of_pairwise (sorted.imp fun h => by simpa using h)

end Problem

end Roster
