import Mathlib.Tactic.Common
import Roster.Proofs.Count

/-! Reports of what is found, place by place. A report is exact when it has one entry for each
place where something is found and its entries stand in the order of the places. Reports that
are put together from exact parts, one part after the other or one for each entry of a list, are
exact again. -/

namespace Roster

/-- The list reports what is found at each place, once each, in the order of the places. -/
def ReportsInOrder {κ δ : Type} (before : κ → κ → Prop) (found : κ → δ → Prop) (l : List δ) :
    Prop :=
  ∃ placed : List (κ × δ), placed.map Prod.snd = l ∧
    placed.Pairwise (fun a b => before a.1 b.1) ∧ ∀ k d, (k, d) ∈ placed ↔ found k d

namespace ReportsInOrder

variable {α κ δ ε : Type} {before : κ → κ → Prop} {found found' : κ → δ → Prop} {l m : List δ}

theorem congr (h : ReportsInOrder before found l) (same : ∀ k d, found k d ↔ found' k d) :
    ReportsInOrder before found' l := by
  obtain ⟨placed, reported, ordered, members⟩ := h
  exact ⟨placed, reported, ordered, fun k d => (members k d).trans (same k d)⟩

theorem mem_iff (h : ReportsInOrder before found l) {d : δ} : d ∈ l ↔ ∃ k, found k d := by
  obtain ⟨placed, rfl, -, members⟩ := h
  simp [← members]

theorem eq_nil_iff (h : ReportsInOrder before found l) : l = [] ↔ ∀ k d, ¬ found k d := by
  simp only [List.eq_nil_iff_forall_not_mem, h.mem_iff, not_exists]
  exact forall_comm

theorem nil : ReportsInOrder before (fun _ (_ : δ) => False) [] :=
  ⟨[], rfl, .nil, by simp⟩

theorem ite (holds : Prop) [Decidable holds] (place : κ) (entry : δ) :
    ReportsInOrder before (fun k d => k = place ∧ holds ∧ d = entry)
      (if holds then [entry] else []) := by
  by_cases h : holds
  · exact ⟨[(place, entry)], by simp [h], by simp, by simp [h]⟩
  · exact ⟨[], by simp [h], .nil, by simp [h]⟩

theorem toList (place : κ) (entry : Option δ) :
    ReportsInOrder before (fun k d => k = place ∧ entry = some d) entry.toList := by
  cases entry with
  | none => exact nil.congr (by simp)
  | some d => exact ⟨[(place, d)], rfl, by simp, by simp [eq_comm]⟩

theorem append (h : ReportsInOrder before found l) (h' : ReportsInOrder before found' m)
    (apart : ∀ k d k' d', found k d → found' k' d' → before k k') :
    ReportsInOrder before (fun k d => found k d ∨ found' k d) (l ++ m) := by
  obtain ⟨placed, rfl, ordered, members⟩ := h
  obtain ⟨placed', rfl, ordered', members'⟩ := h'
  refine ⟨placed ++ placed', List.map_append, ?_, fun k d => ?_⟩
  · refine List.pairwise_append.2 ⟨ordered, ordered', fun a ha b hb => ?_⟩
    exact apart a.1 a.2 b.1 b.2 ((members _ _).1 ha) ((members' _ _).1 hb)
  · rw [List.mem_append, members, members']

theorem append_at {place : κ} {last : δ → Prop} (h : ReportsInOrder before found l)
    (h' : ReportsInOrder before (fun k d => k = place ∧ last d) m)
    (apart : ∀ k d, found k d → before k place) :
    ReportsInOrder before (fun k d => found k d ∨ k = place ∧ last d) (l ++ m) := by
  refine h.append h' fun k d k' d' first second => ?_
  rw [second.1]
  exact apart k d first

theorem map (h : ReportsInOrder before found l) (f : δ → ε) :
    ReportsInOrder before (fun k e => ∃ d, found k d ∧ f d = e) (l.map f) := by
  obtain ⟨placed, rfl, ordered, members⟩ := h
  refine ⟨placed.map fun a => (a.1, f a.2), by simp, List.pairwise_map.2 ordered, fun k e => ?_⟩
  simp [← members]

theorem flatMap {entries : List α} {found : α → κ → δ → Prop} {report : α → List δ}
    (each : ∀ a ∈ entries, ReportsInOrder before (found a) (report a))
    (apart : entries.Pairwise fun a b => ∀ k d k' d', found a k d → found b k' d' → before k k') :
    ReportsInOrder before (fun k d => ∃ a ∈ entries, found a k d) (entries.flatMap report) := by
  induction entries with
  | nil => exact nil.congr (by simp)
  | cons a rest ih =>
    obtain ⟨first, others⟩ := List.forall_mem_cons.1 each
    obtain ⟨here, later⟩ := List.pairwise_cons.1 apart
    refine (first.append (ih others later) ?_).congr fun k d => ?_
    · intro k d k' d' inFirst inLater
      obtain ⟨b, hb, inLater⟩ := inLater
      exact here b hb k d k' d' inFirst inLater
    · simp

theorem flatMap_zipIdx {entries : List α} {found : Nat → α → κ → δ → Prop}
    {report : α × Nat → List δ}
    (each : ∀ i a, entries[i]? = some a → ReportsInOrder before (found i a) (report (a, i)))
    (apart : ∀ i j a b k d k' d', i < j → found i a k d → found j b k' d' → before k k') :
    ReportsInOrder before (fun k d => ∃ i a, entries[i]? = some a ∧ found i a k d)
      (entries.zipIdx.flatMap report) := by
  have reported : ReportsInOrder before (fun k d => ∃ e ∈ entries.zipIdx, found e.2 e.1 k d)
      (entries.zipIdx.flatMap report) := by
    refine flatMap (fun e he => each e.2 e.1 (List.mk_mem_zipIdx_iff_getElem?.1 he)) ?_
    exact (pairwise_lt_zipIdx entries).imp fun earlier k d k' d' => apart _ _ _ _ k d k' d' earlier
  refine reported.congr fun k d => ?_
  simp only [Prod.exists, List.mk_mem_zipIdx_iff_getElem?]
  exact exists_comm

theorem filter_map (entries : List α) (keep : α → Bool) (entry : α → δ) {place : Nat → κ}
    (ordered : ∀ i j, i < j → before (place i) (place j)) :
    ReportsInOrder before
      (fun k d => ∃ i a, entries[i]? = some a ∧ k = place i ∧ keep a ∧ d = entry a)
      ((entries.filter keep).map entry) := by
  have positions : (entries.filter keep).map entry =
      entries.zipIdx.flatMap fun e => if keep e.1 then [entry e.1] else [] := by
    conv_lhs => rw [← List.zipIdx_map_fst 0 entries]
    induction entries.zipIdx with
    | nil => rfl
    | cons e rest ih => by_cases kept : keep e.1 <;> simp [kept, ← ih]
  rw [positions]
  refine flatMap_zipIdx (fun i a _ => ite (keep a) (place i) (entry a)) ?_
  intro i j a b k d k' d' earlier first second
  rw [first.1, second.1]
  exact ordered i j earlier

end ReportsInOrder

/-- A walk that looks at each entry and at what was noted of those before it, the last of them
first, looks at each position for itself. -/
theorem walk_eq_flatMap_zipIdx {α β δ : Type} (walk : List β → List α → List δ)
    (look : List β → α → List δ) (note : α → β) (stop : ∀ seen, walk seen [] = [])
    (step : ∀ seen a rest, walk seen (a :: rest) = look seen a ++ walk (note a :: seen) rest)
    (seen : List β) (l : List α) : walk seen l =
      l.zipIdx.flatMap fun e => look (((l.take e.2).map note).reverse ++ seen) e.1 := by
  induction l generalizing seen with
  | nil => rw [stop, List.zipIdx_nil, List.flatMap_nil]
  | cons a rest ih =>
    rw [step, ih, List.zipIdx_cons', List.flatMap_cons, List.flatMap_map]
    simp [Prod.map]

end Roster
