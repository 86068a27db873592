import Roster.Proofs.Feasibility
import Roster.Proofs.Lookup
import Roster.Proofs.Written

/-! Reconciling a result with itself. Under distinct group ids everyone is wished back
exactly where they sit, and every such wish finds room: whoever already has a seat has it
where the result has it, so the wished seat is still one of those that the result counts.
The second schedule thus differs from the first in the order of people within groups at
most, and from then on nothing changes. -/

namespace Roster

theorem Attempt.each_eq_done_self {α : Type} {step : Seating → α → Attempt} {s : Seating}
    {l : List α} (still : ∀ a ∈ l, step s a = .done s) : each step s l = .done s := by
  induction l with
  | nil => rfl
  | cons a rest ih =>
    obtain ⟨first, others⟩ := List.forall_mem_cons.1 still
    rw [each_cons_eq_done]
    exact ⟨s, first, ih others⟩

namespace Seating

variable {p : Problem} {session : Nat} {s t target : Seating} {person : String}

def copySeat (target s : Seating) (person : String) : Seating :=
  match s.placed.get? person, target.placed.get? person with
  | none, some index => s.put person index
  | _, _ => s

/-- Pins and cliques as ever, then everyone else as in `target`, in declared order. -/
def copy (p : Problem) (session : Nat) (target : Seating) : Seating :=
  (p.activeIds session).foldl (copySeat target)
    ((placePinned p session (empty p)).andThen (placeCliques p session)).seating

structure PartOf (p : Problem) (session : Nat) (target s : Seating) : Prop where
  records : s.Coherent p session
  within : s.order ⊆ target.order

theorem PartOf.of_grows (records : s.Coherent p session) (growth : Grows p session s target) :
    PartOf p session target s :=
  ⟨records, growth.order_prefix.subset⟩

section Full

variable (full : target.Coherent p session)

include full

theorem PartOf.spare_pos (h : PartOf p session target s) (fresh : s.placed.get? person = none)
    {index : Nat} (seated : target.placed.get? person = some index) : 0 < s.spare p index := by
  have absent := h.records.fresh_iff.1 fresh
  have distinct : (s.order ++ [(person, index)]).Nodup := by
    rw [List.nodup_append]
    refine ⟨h.records.once.of_map, by simp, ?_⟩
    intro e he b hb same
    rw [List.mem_singleton.1 hb] at same
    exact absent (List.mem_map.2 ⟨e, he, congrArg Prod.fst same⟩)
  have within : s.order ++ [(person, index)] ⊆ target.order := by
    apply List.append_subset.2
    exact ⟨h.within, by simpa using (full.placed person index).1 seated⟩
  obtain ⟨taken, arranged, among⟩ := distinct.subperm within
  have more : (s.put person index).headcount index ≤ target.headcount index := by
    rw [headcount, put, ← (arranged.map Prod.snd).count_eq]
    exact (among.map Prod.snd).count_le index
  have bound := full.seats index
  rw [headcount_put, if_pos rfl] at more
  rw [h.records.spare_eq]
  omega

theorem PartOf.grows_copySeat (h : PartOf p session target s) (person : String) :
    Grows p session s (copySeat target s person) := by
  unfold copySeat
  split
  · rename_i index fresh seated
    have active := full.active _ ((full.placed person index).1 seated)
    exact Grows.refl.put active fresh (h.spare_pos full fresh seated)
  · exact .refl

theorem PartOf.copySeat (h : PartOf p session target s) (person : String) :
    PartOf p session target (copySeat target s person) where
  records := (h.grows_copySeat full person).coherent h.records
  within := by
    unfold Seating.copySeat
    split
    · rename_i index fresh seated
      apply List.append_subset.2
      exact ⟨h.within, by simpa using (full.placed person index).1 seated⟩
    · exact h.within

theorem PartOf.get?_copySeat (h : PartOf p session target s) (person : String) :
    (Seating.copySeat target s person).placed.get? person = target.placed.get? person := by
  unfold Seating.copySeat
  split
  · rename_i index fresh seated
    rw [get?_put, if_pos rfl, seated]
  · rename_i other
    cases here : s.placed.get? person with
    | some index =>
      have listed := h.within ((h.records.placed person index).1 here)
      rw [(full.placed person index).2 listed]
    | none =>
      cases there : target.placed.get? person with
      | none => rfl
      | some index => exact absurd there (other index here)

theorem PartOf.keep_eq_copySeat (h : PartOf p session target s) {wish : String → Option String}
    (wished : (wish person).bind p.groupIndex? = target.placed.get? person) :
    s.keep p wish person = Seating.copySeat target s person := by
  unfold keep Seating.copySeat
  rw [wished]
  cases fresh : s.placed.get? person with
  | some _ => rfl
  | none =>
    cases seated : target.placed.get? person with
    | none => rfl
    | some index =>
      have room := h.spare_pos full fresh seated
      exact if_neg (Nat.ne_of_gt room)

theorem PartOf.foldl_keep {wish : String → Option String}
    (wished : ∀ person, (wish person).bind p.groupIndex? = target.placed.get? person)
    (people : List String) (h : PartOf p session target s) :
    people.foldl (keep p wish) s = people.foldl (Seating.copySeat target) s := by
  induction people generalizing s with
  | nil => rfl
  | cons person rest ih =>
    rw [List.foldl_cons, List.foldl_cons, h.keep_eq_copySeat full (wished person)]
    exact ih (h.copySeat full person)

theorem PartOf.foldl_copySeat (people : List String) (h : PartOf p session target s) :
    PartOf p session target (people.foldl (Seating.copySeat target) s) := by
  induction people generalizing s with
  | nil => exact h
  | cons person rest ih => exact ih (h.copySeat full person)

theorem PartOf.grows_foldl (people : List String) (h : PartOf p session target s) :
    Grows p session s (people.foldl (Seating.copySeat target) s) := by
  induction people generalizing s with
  | nil => exact .refl
  | cons person rest ih => exact (h.grows_copySeat full person).trans (ih (h.copySeat full person))

theorem PartOf.get?_foldl {people : List String} (h : PartOf p session target s)
    (listed : person ∈ people) {index : Nat} (seated : target.placed.get? person = some index) :
    (people.foldl (Seating.copySeat target) s).placed.get? person = some index := by
  induction people generalizing s with
  | nil => simp at listed
  | cons a rest ih =>
    rw [List.foldl_cons]
    by_cases here : person = a
    · have settled := h.get?_copySeat full person
      rw [seated] at settled
      rw [← here]
      exact ((h.copySeat full person).grows_foldl full rest).placed settled
    · exact ih (h.copySeat full a) ((List.mem_cons.1 listed).resolve_left here)

end Full

section Filled

variable {wish wish' : String → Option String}

theorem partOf_of_fill (h : fill p session wish = .done s) :
    PartOf p session s
      ((placePinned p session (empty p)).andThen (placeCliques p session)).seating := by
  obtain ⟨a, b, pinned, grouped, rest⟩ := fill_eq_done.1 h
  have growth := (grows_of_placePinned pinned).trans (grows_of_placeCliques grouped)
  rw [pinned, Attempt.andThen, grouped, Attempt.seating_done]
  exact .of_grows (growth.coherent (coherent_empty p session))
    ((grows_placeSeeded wish b).trans (grows_of_placeRemaining rest))

theorem get?_copy (h : fill p session wish = .done s) (person : String) :
    (copy p session s).placed.get? person = s.placed.get? person := by
  have full := coherent_of_fill h
  have start := partOf_of_fill h
  cases seated : s.placed.get? person with
  | some index =>
    have active := full.active _ ((full.placed person index).1 seated)
    exact start.get?_foldl full active seated
  | none =>
    rw [Option.eq_none_iff_forall_ne_some]
    intro index copied
    have part := start.foldl_copySeat full (p.activeIds session)
    have listed := part.within ((part.records.placed person index).1 copied)
    rw [(full.placed person index).2 listed] at seated
    simp at seated

theorem copySeat_congr (same : ∀ person, s.placed.get? person = t.placed.get? person) :
    copySeat s = copySeat t := by
  funext start person
  rw [copySeat, copySeat, same person]

theorem copy_copy (h : fill p session wish = .done s) :
    copy p session (copy p session s) = copy p session s := by
  rw [copy, copySeat_congr (get?_copy h), ← copy]

/-- Wishing everyone back where they sit fills the session with a copy. -/
theorem fill_eq_copy (h : fill p session wish = .done s)
    (wished : ∀ person, (wish' person).bind p.groupIndex? = s.placed.get? person) :
    fill p session wish' = .done (copy p session s) := by
  obtain ⟨a, b, pinned, grouped, -⟩ := fill_eq_done.1 h
  have start := partOf_of_fill h
  have copied : copy p session s = placeSeeded p session wish' b := by
    rw [pinned, Attempt.andThen, grouped, Attempt.seating_done] at start
    rw [copy, pinned, Attempt.andThen, grouped, Attempt.seating_done, placeSeeded,
      start.foldl_keep (coherent_of_fill h) wished]
  refine fill_eq_done.2 ⟨a, b, pinned, grouped, ?_⟩
  rw [← copied, placeRemaining]
  apply Attempt.each_eq_done_self
  intro person active
  obtain ⟨index, seated⟩ := exists_placed h active
  rw [← get?_copy h] at seated
  simp [seatAnywhere, seated]

theorem foldl_copySeat_of_each {people : List String}
    (active : ∀ a ∈ people, a ∈ p.activeIds session)
    (h : Attempt.each (seatAnywhere p) t people = .done s) :
    people.foldl (copySeat s) t = s := by
  induction people generalizing t with
  | nil => exact Attempt.done.inj h
  | cons a rest ih =>
    obtain ⟨u, first, others⟩ := Attempt.each_cons_eq_done.1 h
    obtain ⟨_, activeRest⟩ := List.forall_mem_cons.1 active
    have growth : Grows p session u (Attempt.each (seatAnywhere p) u rest).seating :=
      grows_each (fun s b hb => grows_seatAnywhere s (activeRest b hb)) u
    rw [others] at growth
    have moved : copySeat s t a = u := by
      have ends := seatAnywhere_ends p t a
      rw [first] at ends
      cases ends with
      | asBefore here => rw [copySeat, here]
      | @put index fresh =>
        have seated : s.placed.get? a = some index := by
          apply growth.placed
          rw [get?_put, if_pos rfl]
        rw [copySeat, fresh, seated]
    rw [List.foldl_cons, moved]
    exact ih activeRest others

theorem copy_eq_self (h : fill p session (fun _ => none) = .done s) : copy p session s = s := by
  obtain ⟨a, b, pinned, grouped, rest⟩ := fill_eq_done.1 h
  have unseeded : ∀ people : List String, people.foldl (keep p fun _ => none) b = b := by
    intro people
    have idle : keep p (fun _ => none) = fun s _ => s := by
      funext s person
      rw [keep]
      split
      · rename_i found
        simp at found
      · rfl
    rw [idle]
    induction people with
    | nil => rfl
    | cons _ _ ih => exact ih
  rw [placeSeeded, unseeded] at rest
  rw [copy, pinned, Attempt.andThen, grouped]
  exact foldl_copySeat_of_each (fun _ active => active) rest

end Filled

end Seating

namespace Problem

variable {p : Problem}

theorem groupIndex?_groupId (distinct : (p.groups.map (·.id)).Nodup) {index : Nat}
    (inside : index < p.groups.length) : p.groupIndex? (p.groupId index) = some index := by
  rw [groupIndex?, List.findIdx?_eq_some_iff_getElem, groupId_of_lt inside]
  refine ⟨inside, by simp, fun j earlier => ?_⟩
  have apart := List.pairwise_iff_getElem.1 distinct j index (by simp; omega) (by simpa) earlier
  simpa using apart

variable {previous earlier : List Assignment} {seeding again : Bool} {first second : Schedule}

theorem eq_of_seating_eq (h : p.reconcile previous seeding = .ok first)
    (h' : p.reconcile earlier again = .ok second)
    (same : ∀ t < p.sessionCount,
      p.seating (wishes previous seeding) t = p.seating (wishes earlier again) t) :
    first = second := by
  obtain ⟨⟨entries, ascending⟩⟩ := first
  obtain ⟨⟨entries', ascending'⟩⟩ := second
  congr 1
  apply SortedMap.ext
  rw [(reconcile_eq_ok h).2, (reconcile_eq_ok h').2]
  apply List.map_congr_left
  intro t inside
  rw [same t (List.mem_range.1 inside)]

theorem exists_reconcile_eq_ok (h : p.reconcile previous seeding = .ok first)
    (earlier : List Assignment) : ∃ second, p.reconcile earlier = .ok second := by
  have alike := p.fillFrom_alike (wishes previous seeding) (wishes earlier true) p.sessionCount 0
    .empty .empty
  change EndAlike (p.reconcile previous seeding) (p.reconcile earlier) at alike
  rw [h] at alike
  cases ended : p.reconcile earlier with
  | ok second => exact ⟨second, rfl⟩
  | error why =>
    rw [ended] at alike
    cases alike

theorem seating_toAssignments (distinct : (p.groups.map (·.id)).Nodup)
    (h : p.reconcile previous seeding = .ok first) {t : Nat} (inside : t < p.sessionCount) :
    p.seating (wishes first.toAssignments true) t =
      Seating.copy p t (p.seating (wishes previous seeding) t) := by
  have filling := (reconcile_eq_ok h).1 t inside
  have records := Seating.coherent_of_fill filling
  have wished : ∀ person, (wishes first.toAssignments true t person).bind p.groupIndex? =
      (p.seating (wishes previous seeding) t).placed.get? person := by
    intro person
    rw [wishes, if_pos rfl, earlierGroup?_toAssignments, groupOf?_of_reconcile h, if_pos inside]
    cases seated : (p.seating (wishes previous seeding) t).placed.get? person with
    | none => rfl
    | some index =>
      rw [Option.map_some, Option.bind_some]
      exact groupIndex?_groupId distinct (records.index_lt ((records.placed person index).1 seated))
  rw [seating, Seating.fill_eq_copy filling wished, Attempt.seating_done]

theorem seating_rerun (distinct : (p.groups.map (·.id)).Nodup)
    (h : p.reconcile previous seeding = .ok first)
    (h' : p.reconcile first.toAssignments = .ok second) {t : Nat} (inside : t < p.sessionCount) :
    p.seating (wishes second.toAssignments true) t =
      p.seating (wishes first.toAssignments true) t := by
  have filling := (reconcile_eq_ok h).1 t inside
  rw [seating_toAssignments distinct h' inside, seating_toAssignments distinct h inside]
  exact Seating.copy_copy filling

theorem seating_of_no_wishes (distinct : (p.groups.map (·.id)).Nodup)
    (h : p.reconcile previous seeding = .ok first) (fresh : previous = [] ∨ seeding = false)
    {t : Nat} (inside : t < p.sessionCount) : p.seating (wishes first.toAssignments true) t =
      p.seating (wishes previous seeding) t := by
  have nothing : wishes previous seeding t = fun _ => none := by
    funext person
    cases fresh with
    | inl empty =>
      rw [empty, wishes]
      split <;> rfl
    | inr off =>
      rw [off]
      rfl
  have filling := (reconcile_eq_ok h).1 t inside
  rw [nothing] at filling
  rw [seating_toAssignments distinct h inside]
  exact Seating.copy_eq_self filling

end Problem

variable {p : Problem} {previous : List Assignment} {seeding : Bool} {first second : Schedule}

theorem groupOf?_rerun (distinct : (p.groups.map (·.id)).Nodup)
    (h : p.reconcile previous seeding = .ok first)
    (h' : p.reconcile first.toAssignments = .ok second) (session : Nat) (person : String) :
    second.groupOf? session person = first.groupOf? session person := by
  rw [Problem.groupOf?_of_reconcile h, Problem.groupOf?_of_reconcile h']
  split
  · rename_i inside
    rw [Problem.seating_toAssignments distinct h inside,
      Seating.get?_copy ((Problem.reconcile_eq_ok h).1 session inside)]
  · rfl

theorem peopleIn_rerun_perm (distinct : (p.groups.map (·.id)).Nodup)
    (h : p.reconcile previous seeding = .ok first)
    (h' : p.reconcile first.toAssignments = .ok second) (session : Nat) (group : String) :
    (second.peopleIn session group).Perm (first.peopleIn session group) := by
  rw [Problem.peopleIn_of_reconcile h, Problem.peopleIn_of_reconcile h']
  split
  · rename_i inside
    have filling := (Problem.reconcile_eq_ok h).1 session inside
    have refilling := (Problem.reconcile_eq_ok h').1 session inside
    have records := Seating.coherent_of_fill filling
    have copied := Seating.coherent_of_fill refilling
    have orders : (p.seating (wishes first.toAssignments true) session).order.Perm
        (p.seating (wishes previous seeding) session).order := by
      rw [List.perm_ext_iff_of_nodup copied.once.of_map records.once.of_map]
      intro e
      rw [← copied.placed e.1 e.2, ← records.placed e.1 e.2,
        Problem.seating_toAssignments distinct h inside, Seating.get?_copy filling]
    exact (orders.filter _).map _
  · exact .refl _

/-- A result given as the earlier one is kept seat by seat, and once more exactly. -/
theorem reconcile_toAssignments (distinct : (p.groups.map (·.id)).Nodup)
    (h : p.reconcile previous seeding = .ok first) :
    ∃ second, p.reconcile first.toAssignments = .ok second ∧
      (∀ session person, second.groupOf? session person = first.groupOf? session person) ∧
      (∀ session group,
        (second.peopleIn session group).Perm (first.peopleIn session group)) ∧
      p.reconcile second.toAssignments = .ok second ∧
      (previous = [] ∨ seeding = false → second = first) := by
  obtain ⟨second, h'⟩ := Problem.exists_reconcile_eq_ok h first.toAssignments
  obtain ⟨third, h''⟩ := Problem.exists_reconcile_eq_ok h' second.toAssignments
  have settled : third = second :=
    Problem.eq_of_seating_eq h'' h' fun _ inside => Problem.seating_rerun distinct h h' inside
  refine ⟨second, h', groupOf?_rerun distinct h h', peopleIn_rerun_perm distinct h h', ?_, ?_⟩
  · rw [h'', settled]
  · intro fresh
    exact Problem.eq_of_seating_eq h' h fun _ inside =>
      Problem.seating_of_no_wishes distinct h fresh inside

def bench : Problem where
  people := [⟨"a", .empty, none⟩, ⟨"b", .empty, none⟩]
  groups := [⟨"x", 2⟩, ⟨"y", 1⟩]
  sessionCount := 1

theorem reconcile_bench :
    (∃ first second, bench.reconcile [⟨"b", "x", 0⟩] = .ok first ∧
      first = .ofAssignments [⟨"b", "x", 0⟩, ⟨"a", "x", 0⟩] ∧
      bench.reconcile first.toAssignments = .ok second ∧
      second = .ofAssignments [⟨"a", "x", 0⟩, ⟨"b", "x", 0⟩] ∧
      bench.reconcile second.toAssignments = .ok second) ∧
    ∃ only, bench.reconcile [] = .ok only ∧ bench.reconcile only.toAssignments = .ok only := by
  have distinct : (bench.groups.map (·.id)).Nodup := by decide
  have seated : bench.reconcile [⟨"b", "x", 0⟩] =
      .ok (.ofAssignments [⟨"b", "x", 0⟩, ⟨"a", "x", 0⟩]) := by decide +kernel
  have reseated : bench.reconcile
      (Schedule.ofAssignments [⟨"b", "x", 0⟩, ⟨"a", "x", 0⟩]).toAssignments =
        .ok (.ofAssignments [⟨"a", "x", 0⟩, ⟨"b", "x", 0⟩]) := by decide +kernel
  have unwished : bench.reconcile [] =
      .ok (.ofAssignments [⟨"a", "x", 0⟩, ⟨"b", "x", 0⟩]) := by decide +kernel
  obtain ⟨second, again, -, -, settled, -⟩ := reconcile_toAssignments distinct seated
  have same := Except.ok.inj (again.symm.trans reseated)
  obtain ⟨only, kept, -, -, -, still⟩ := reconcile_toAssignments distinct unwished
  have equal := still (.inl rfl)
  exact ⟨⟨_, second, seated, rfl, again, same, settled⟩, _, unwished, equal ▸ kept⟩

end Roster
