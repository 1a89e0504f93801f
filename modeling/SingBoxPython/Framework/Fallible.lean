import Mathlib.Data.List.Forall2
import Mathlib.Tactic.Common

/-!
# Code that may raise

Rules for computations in `Except` and `Option`: a computation that returns has passed all of its
checks.
-/

namespace SingBoxPython.Framework

variable {ε α β : Type}

def Returns (x : Except ε α) : Prop :=
  ∃ a, x = .ok a

@[simp] theorem returns_ok (a : α) : Returns (.ok a : Except ε α) :=
  ⟨a, rfl⟩

@[simp] theorem returns_pure (a : α) : Returns (pure a : Except ε α) :=
  ⟨a, rfl⟩

theorem error_ne_ok (e : ε) (a : α) : (.error e : Except ε α) ≠ .ok a := by
  intro h
  cases h

@[simp] theorem not_returns_error (e : ε) : ¬ Returns (.error e : Except ε α) :=
  fun ⟨a, h⟩ => error_ne_ok e a h

@[simp] theorem not_returns_throw (e : ε) : ¬ Returns (throw e : Except ε α) :=
  not_returns_error e

theorem returns_bind {x : Except ε α} {f : α → Except ε β} :
    Returns (x >>= f) ↔ ∃ a, x = .ok a ∧ Returns (f a) := by
  cases x with
  | error e =>
      refine iff_of_false (not_returns_error e) ?_
      rintro ⟨a, h, -⟩
      cases h
  | ok a =>
      constructor
      · intro h
        exact ⟨a, rfl, h⟩
      · rintro ⟨b, hb, h⟩
        cases hb
        exact h

def raiseIf (p : Prop) [Decidable p] (e : ε) : Except ε PUnit :=
  if p then throw e else pure ⟨⟩

theorem returns_raiseIf {p : Prop} [Decidable p] {e : ε} {f : PUnit → Except ε β} :
    Returns (raiseIf p e >>= f) ↔ ¬ p ∧ Returns (f ⟨⟩) := by
  by_cases h : p
  · simp only [raiseIf, h, if_true, not_true_eq_false, false_and, iff_false]
    exact not_returns_error e
  · simp only [raiseIf, h, if_false, not_false_eq_true, true_and]
    rfl

theorem bind_eq_ok_iff {x : Except ε α} {f : α → Except ε β} {b : β} :
    (x >>= f) = .ok b ↔ ∃ a, x = .ok a ∧ f a = .ok b := by
  cases x with
  | error e =>
      constructor
      · intro h
        cases h
      · intro h
        obtain ⟨a, ha, -⟩ := h
        cases ha
  | ok a =>
      constructor
      · intro h
        exact ⟨a, rfl, h⟩
      · intro h
        obtain ⟨a', ha, h⟩ := h
        cases ha
        exact h

theorem raiseIf_bind_eq_ok_iff {p : Prop} [Decidable p] {e : ε} {f : PUnit → Except ε β} {b : β} :
    (raiseIf p e >>= f) = .ok b ↔ ¬ p ∧ f ⟨⟩ = .ok b := by
  by_cases h : p
  · simp only [raiseIf, h, if_true, not_true_eq_false, false_and, iff_false]
    exact fun h => nomatch h
  · simp only [raiseIf, h, if_false, not_false_eq_true, true_and]
    rfl

theorem mapM_eq_ok_iff {f : α → Except ε β} {l : List α} {r : List β} :
    l.mapM f = .ok r ↔ List.Forall₂ (fun a b => f a = .ok b) l r := by
  induction l generalizing r with
  | nil =>
      constructor
      · intro h
        cases h
        exact .nil
      · intro h
        cases h
        rfl
  | cons a l ih =>
      rw [List.mapM_cons, bind_eq_ok_iff]
      constructor
      · intro h
        obtain ⟨b, ha, h⟩ := h
        obtain ⟨bs, hl, h⟩ := bind_eq_ok_iff.1 h
        cases h
        exact .cons ha (ih.1 hl)
      · intro h
        cases h with
        | cons ha hl => exact ⟨_, ha, bind_eq_ok_iff.2 ⟨_, ih.2 hl, rfl⟩⟩

theorem exists_mapM_eq_iff {f : α → Except ε β} {l : List α} {b : β} :
    (∃ r, l.mapM f = .ok r ∧ ∀ c ∈ r, c = b) ↔ ∀ a ∈ l, f a = .ok b := by
  simp only [mapM_eq_ok_iff]
  constructor
  · intro h
    obtain ⟨r, hall, hr⟩ := h
    induction hall with
    | nil => simp
    | cons ha _ ih =>
        rw [List.forall_mem_cons] at hr ⊢
        exact ⟨hr.1 ▸ ha, ih hr.2⟩
  · intro h
    refine ⟨l.map fun _ => b, ?_, by simp⟩
    rw [List.forall₂_map_right_iff, List.forall₂_same]
    exact h

theorem exists_of_mem_mapM {f : α → Option β} {l : List α} {r : List β}
    (h : l.mapM f = some r) {b : β} (hb : b ∈ r) : ∃ a ∈ l, f a = some b := by
  induction l generalizing r with
  | nil =>
      cases h
      cases hb
  | cons a l ih =>
      rw [List.mapM_cons] at h
      obtain ⟨b', hb', h⟩ := Option.bind_eq_some_iff.1 h
      obtain ⟨r', hr', h⟩ := Option.bind_eq_some_iff.1 h
      cases h
      rcases List.mem_cons.1 hb with rfl | hb
      · exact ⟨a, List.mem_cons_self, hb'⟩
      · obtain ⟨a', ha', hf⟩ := ih hr' hb
        exact ⟨a', List.mem_cons_of_mem a ha', hf⟩

end SingBoxPython.Framework
