import Mathlib.Data.List.Forall2
import Roster.Report

/-! Walks along a list that end at the first failure: walks whose steps correspond, to walks
over other lists, and a walk with one more step. Evaluation is such a walk along the constraints. -/

namespace Roster

variable {ε ε' α β γ : Type}

/-- Walks whose steps give the same up to `h`, and fail alike up to `rename`, do so as a whole. -/
theorem mapM_eq_mapError_map {f : α → Except ε' γ} {g : α → Except ε β} {rename : ε → ε'}
    {h : β → γ} {l : List α} (same : ∀ a ∈ l, f a = ((g a).mapError rename).map h) :
    l.mapM f = ((l.mapM g).mapError rename).map (List.map h) := by
  induction l with
  | nil => rfl
  | cons a rest ih =>
    obtain ⟨first, others⟩ := List.forall_mem_cons.1 same
    rw [List.mapM_cons, List.mapM_cons, first, ih others]
    cases g a with
    | error e => rfl
    | ok b => cases rest.mapM g <;> rfl

theorem mapM_eq_map {f : α → Except ε γ} {g : α → Except ε β} {h : β → γ} {l : List α}
    (same : ∀ a ∈ l, f a = (g a).map h) : l.mapM f = (l.mapM g).map (List.map h) := by
  have unchanged : ∀ {δ : Type} (x : Except ε δ), x.mapError id = x := by
    intro δ x
    cases x <;> rfl
  have walk : l.mapM f = ((l.mapM g).mapError id).map (List.map h) :=
    mapM_eq_mapError_map fun a ha => by rw [unchanged, same a ha]
  rwa [unchanged] at walk

theorem mapM_eq_of_forall₂ {f : α → Except ε γ} {g : β → Except ε γ} {R : α → β → Prop}
    {l : List α} {m : List β} (alike : List.Forall₂ R l m) (same : ∀ a b, R a b → f a = g b) :
    l.mapM f = m.mapM g := by
  induction alike with
  | nil => rfl
  | cons first _ ih => rw [List.mapM_cons, List.mapM_cons, same _ _ first, ih]

theorem map_eq_of_forall₂ {f : α → γ} {g : β → γ} {R : α → β → Prop} {l : List α} {m : List β}
    (alike : List.Forall₂ R l m) (same : ∀ a b, R a b → f a = g b) : l.map f = m.map g := by
  induction alike with
  | nil => rfl
  | cons first _ ih => rw [List.map_cons, List.map_cons, same _ _ first, ih]

theorem mapM_insertIdx {m : Type → Type} [Monad m] [LawfulMonad m] {f : α → m β} {a : α} {b : β}
    (through : f a = pure b) (place : Nat) (l : List α) :
    (l.insertIdx place a).mapM f = (·.insertIdx place b) <$> l.mapM f := by
  induction place generalizing l with
  | zero => simp [through]
  | succ place ih =>
    cases l with
    | nil => simp
    | cons first rest => simp [ih]

theorem Problem.map_evaluate (p : Problem) (s : Schedule) {tell : Card → γ}
    {judged : Constraint → Except Overflow γ}
    (told : ∀ c index, (p.judge s c).map (fun verdict => tell ⟨c, index, verdict⟩) = judged c) :
    (p.evaluate s).map (List.map tell) = p.constraints.mapM judged := by
  have numbered : p.constraints.mapM judged = p.constraints.zipIdx.mapM (judged ∘ Prod.fst) := by
    rw [← List.mapM_map, List.zipIdx_map_fst]
  rw [numbered, evaluate_eq_mapM]
  refine (mapM_eq_map fun e _ => ?_).symm
  obtain ⟨c, index⟩ := e
  rw [Function.comp_apply, ← told c index]
  dsimp only
  cases p.judge s c <;> rfl

end Roster
