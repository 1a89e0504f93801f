import Mathlib.Logic.Relation

/-!
# Runs of a step function

A system is a partial step function: `step s a` is the state after the action `a`, and `none`
where `a` is not enabled in `s`.  Nondeterminism is part of the action, so every run is the
execution of one list of actions and can be evaluated.
-/

namespace SingBoxPython.Framework

variable {σ α : Type*} {step : σ → α → Option σ}

/-- Perform the actions from left to right; `none` as soon as one is not enabled. -/
def exec (step : σ → α → Option σ) : σ → List α → Option σ
  | s, [] => some s
  | s, a :: as => (step s a).bind fun t => exec step t as

@[simp] theorem exec_nil (s : σ) : exec step s [] = some s := rfl

theorem exec_cons {s u : σ} {a : α} {as : List α} :
    exec step s (a :: as) = some u ↔ ∃ t, step s a = some t ∧ exec step t as = some u := by
  simp only [exec, Option.bind_eq_some_iff]

theorem exec_append {s u : σ} {as bs : List α} :
    exec step s (as ++ bs) = some u ↔ ∃ t, exec step s as = some t ∧ exec step t bs = some u := by
  induction as generalizing s with
  | nil => simp
  | cons a as ih =>
      simp only [List.cons_append, exec_cons, ih]
      constructor
      · rintro ⟨r, hr, t, ht, hu⟩
        exact ⟨t, ⟨r, hr, ht⟩, hu⟩
      · rintro ⟨t, ⟨r, hr, ht⟩, hu⟩
        exact ⟨r, hr, t, ht, hu⟩

/-- Where each step of one system is the image of a step of another, so is each run. -/
theorem exec_map {τ β : Type*} {step' : τ → β → Option τ} {onState : σ → τ} {onAction : α → β}
    (h : ∀ s a, step' (onState s) (onAction a) = (step s a).map onState) (s : σ) (as : List α) :
    exec step' (onState s) (as.map onAction) = (exec step s as).map onState := by
  induction as generalizing s with
  | nil => rfl
  | cons a as ih =>
      rw [List.map_cons, exec, exec, h]
      cases step s a with
      | none => rfl
      | some t => exact ih t

def Reachable (step : σ → α → Option σ) (init s : σ) : Prop :=
  ∃ as, exec step init as = some s

theorem Reachable.refl (init : σ) : Reachable step init init :=
  ⟨[], rfl⟩

theorem Reachable.exec {init s t : σ} {as : List α} (hs : Reachable step init s)
    (h : exec step s as = some t) : Reachable step init t := by
  obtain ⟨bs, hbs⟩ := hs
  exact ⟨bs ++ as, exec_append.mpr ⟨s, hbs, h⟩⟩

theorem Reachable.snoc {init s t : σ} {a : α} (hs : Reachable step init s)
    (h : step s a = some t) : Reachable step init t := by
  have hrun : Framework.exec step s [a] = some t := exec_cons.mpr ⟨t, h, rfl⟩
  exact hs.exec hrun

/-- A predicate that every step keeps is kept by every run. -/
theorem exec_invariant {I : σ → Prop} (hstep : ∀ s a t, I s → step s a = some t → I t)
    {s t : σ} {as : List α} (hs : I s) (h : exec step s as = some t) : I t := by
  induction as generalizing s with
  | nil =>
      obtain rfl : s = t := by simpa using h
      exact hs
  | cons a as ih =>
      obtain ⟨r, hr, ht⟩ := exec_cons.mp h
      exact ih (hstep s a r hs hr) ht

theorem Reachable.invariant {I : σ → Prop} {init s : σ} (hs : Reachable step init s)
    (h0 : I init) (hstep : ∀ s a t, I s → step s a = some t → I t) : I s := by
  obtain ⟨as, has⟩ := hs
  exact exec_invariant hstep h0 has

/-- The invariant rule that may use that the state before the step is reachable. -/
theorem Reachable.induction {I : σ → Prop} {init s : σ} (hs : Reachable step init s)
    (h0 : I init)
    (hstep : ∀ s a t, Reachable step init s → I s → step s a = some t → I t) : I s := by
  have h := hs.invariant (I := fun s => Reachable step init s ∧ I s) ⟨.refl init, h0⟩
    (fun s a t hI h => ⟨hI.1.snoc h, hstep s a t hI.1 hI.2 h⟩)
  exact h.2

/-- Every step of the run meets the condition `ok` on the state before it. -/
def Along (ok : σ → α → Prop) (step : σ → α → Option σ) : σ → List α → Prop
  | _, [] => True
  | s, a :: as => ok s a ∧ ∀ t, step s a = some t → Along ok step t as

theorem Along.of_append {ok : σ → α → Prop} {s : σ} {as bs : List α}
    (h : Along ok step s (as ++ bs)) : Along ok step s as := by
  induction as generalizing s with
  | nil => trivial
  | cons a as ih => exact ⟨h.1, fun t ht => ih (h.2 t ht)⟩

theorem Along.after {ok : σ → α → Prop} {s t : σ} {as bs : List α}
    (h : Along ok step s (as ++ bs)) (hs : exec step s as = some t) : Along ok step t bs := by
  induction as generalizing s with
  | nil =>
      cases hs
      exact h
  | cons a as ih =>
      obtain ⟨r, hr, hrest⟩ := exec_cons.1 hs
      exact ih (h.2 r hr) hrest

theorem Along.imp {ok ok' : σ → α → Prop} {s : σ} {as : List α}
    (h : ∀ s, ∀ a ∈ as, ok s a → ok' s a) (hok : Along ok step s as) : Along ok' step s as := by
  induction as generalizing s with
  | nil => trivial
  | cons a as ih =>
      refine ⟨h s a List.mem_cons_self hok.1, ?_⟩
      intro t ht
      exact ih (fun s b hb => h s b (List.mem_cons_of_mem a hb)) (hok.2 t ht)

theorem Along.of_forall {p : α → Prop} {s : σ} {as : List α} (h : ∀ a ∈ as, p a) :
    Along (fun _ => p) step s as := by
  induction as generalizing s with
  | nil => trivial
  | cons a as ih =>
      refine ⟨h a List.mem_cons_self, ?_⟩
      intro t _
      exact ih fun b hb => h b (List.mem_cons_of_mem a hb)

/-- A predicate that every step meeting `ok` keeps is kept by every run of such steps. -/
theorem exec_invariant_along {I : σ → Prop} {ok : σ → α → Prop}
    (hstep : ∀ s a t, I s → ok s a → step s a = some t → I t)
    {s t : σ} {as : List α} (hs : I s) (hok : Along ok step s as)
    (h : exec step s as = some t) : I t := by
  induction as generalizing s with
  | nil =>
      obtain rfl : s = t := by simpa using h
      exact hs
  | cons a as ih =>
      obtain ⟨r, hr, ht⟩ := exec_cons.mp h
      exact ih (hstep s a r hs hok.1 hr) (hok.2 r hr) ht

end SingBoxPython.Framework
