import Mathlib.Tactic.Common
import Roster.Inspection
import Roster.Proofs.SortedMap
import Roster.WarmStart

/-! Where a person sits, looked up in three ways: in the schedule itself, in the table of
placements that inspections use, and in the list of assignments an earlier schedule is
turned into. All give the first group by id that holds the person. -/

namespace Roster

theorem get?_foldl_insertNew (group : String) (people : List String)
    (seats : SortedMap String String) (person : String) :
    (people.foldl (fun seats person => seats.insertNew person group) seats).get? person =
      (seats.get? person).or (if person ∈ people then some group else none) := by
  induction people generalizing seats with
  | nil => simp
  | cons a rest ih =>
    rw [List.foldl_cons, ih, SortedMap.get?_insertNew]
    by_cases here : person = a
    · subst here
      cases seats.get? person <;> simp
    · simp [here]

theorem get?_foldl_groups (entries : List (String × List String))
    (seats : SortedMap String String) (person : String) :
    (entries.foldl (fun seats e => e.2.foldl (fun seats person => seats.insertNew person e.1) seats)
      seats).get? person =
      (seats.get? person).or ((entries.find? fun e => person ∈ e.2).map Prod.fst) := by
  induction entries generalizing seats with
  | nil => simp
  | cons e rest ih =>
    rw [List.foldl_cons, ih, get?_foldl_insertNew]
    by_cases here : person ∈ e.2
    · cases seats.get? person <;> simp [here]
    · simp [here]

theorem View.groupOf?_of (p : Problem) (s : Schedule) (session : Nat) (person : String) :
    (View.of p s).groupOf? session person = s.groupOf? session person := by
  simp only [groupOf?, View.of, Schedule.placements, SortedMap.get?_mapValues, Schedule.groupOf?,
    Schedule.session?]
  cases s.sessions.get? session with
  | none => rfl
  | some groups =>
    simp only [Option.map_some, Option.bind_some]
    rw [get?_foldl_groups, SortedMap.get?_empty, Option.none_or]

theorem find?_reverse_eq_some {α : Type} {passes : α → Bool} {l : List α} {a : α} :
    l.reverse.find? passes = some a ↔
      passes a ∧ ∃ earlier later, l = earlier ++ a :: later ∧ ∀ b ∈ later, !passes b := by
  rw [List.find?_eq_some_iff_append]
  refine and_congr_right fun _ => ⟨?_, ?_⟩
  · intro h
    obtain ⟨later, earlier, parts, others⟩ := h
    refine ⟨earlier.reverse, later.reverse, ?_, fun b hb => others b (List.mem_reverse.1 hb)⟩
    rw [← l.reverse_reverse, parts]
    simp
  · intro h
    obtain ⟨earlier, later, rfl, others⟩ := h
    exact ⟨later.reverse, earlier.reverse, by simp, fun b hb => others b (List.mem_reverse.1 hb)⟩

theorem find?_eq_ite (people : List String) (person : String) :
    people.find? (· = person) = if person ∈ people then some person else none := by
  induction people with
  | nil => rfl
  | cons a rest ih =>
    by_cases here : a = person
    · simp [here]
    · simp [here, Ne.symm here, ih]

theorem find?_assignments (entries : List (String × List String)) (session : Nat)
    (person : String) :
    ((entries.flatMap fun (group, people) =>
        people.map fun member => (⟨member, group, session⟩ : Assignment)).find?
      fun a => a.session = session ∧ a.person = person).map (·.group) =
      (entries.find? fun e => person ∈ e.2).map Prod.fst := by
  induction entries with
  | nil => rfl
  | cons e rest ih =>
    obtain ⟨group, people⟩ := e
    have listed : (people.map fun member => (⟨member, group, session⟩ : Assignment)).find?
        (fun a => a.session = session ∧ a.person = person) =
          if person ∈ people then some ⟨person, group, session⟩ else none := by
      have same : (fun a : Assignment => decide (a.session = session ∧ a.person = person)) ∘
          (fun member => ⟨member, group, session⟩) = fun member => decide (member = person) := by
        funext member
        simp
      rw [List.find?_map, same, find?_eq_ite]
      split <;> rfl
    rw [List.flatMap_cons, List.find?_append, listed, List.find?_cons]
    by_cases here : person ∈ people
    · simp [here]
    · simp only [here, if_false, Option.none_or, decide_false]
      exact ih

theorem find?_assignments_of_ne {entries : List (String × List String)} {t session : Nat}
    (other : t ≠ session) (person : String) :
    (entries.flatMap fun (group, people) =>
        people.map fun member => (⟨member, group, t⟩ : Assignment)).find?
      (fun a => a.session = session ∧ a.person = person) = none := by
  rw [List.find?_eq_none]
  intro a ha
  obtain ⟨g, _, listed⟩ := List.mem_flatMap.1 ha
  obtain ⟨member, _, rfl⟩ := List.mem_map.1 listed
  simp [other]

/-- A schedule given as an earlier result wishes everyone back where they sit. -/
theorem earlierGroup?_toAssignments (s : Schedule) (session : Nat) (person : String) :
    earlierGroup? s.toAssignments session person = s.groupOf? session person := by
  obtain ⟨⟨entries, ascending⟩⟩ := s
  rw [earlierGroup?, Schedule.toAssignments, List.find?_flatMap]
  simp only [Schedule.groupOf?, Schedule.session?, SortedMap.get?]
  induction entries with
  | nil => rfl
  | cons e rest ih =>
    obtain ⟨t, groups⟩ := e
    obtain ⟨later, ascendingRest⟩ := List.pairwise_cons.1 ascending
    rw [List.findSome?_cons, List.lookup_cons]
    by_cases here : t = session
    · subst here
      have nowhere : rest.findSome? (fun e => (e.2.entries.flatMap fun (group, people) =>
          people.map fun member => (⟨member, group, e.1⟩ : Assignment)).find?
            fun a => a.session = t ∧ a.person = person) = none := by
        rw [List.findSome?_eq_none_iff]
        exact fun e he => find?_assignments_of_ne (Nat.ne_of_gt (later e he)) person
      have first := find?_assignments groups.entries t person
      rw [nowhere, beq_self_eq_true]
      simp only [Option.bind_some]
      rw [← first]
      split <;> rename_i found <;> rw [found]
    · have apart : (session == t) = false := by simpa using Ne.symm here
      rw [find?_assignments_of_ne here, apart]
      exact ih ascendingRest

end Roster
