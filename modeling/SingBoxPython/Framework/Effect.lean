import Mathlib.Tactic.Common

/-!
# State and exceptions

Imperative code that changes a state and can be left by an exception (a Go panic, a Python
exception).  What was done before the exception stays done, so a handler runs in the state that
the raising statement left behind.
-/

namespace SingBoxPython.Framework

/-- A computation over the state `σ` that may raise an `ε`. -/
abbrev Eff (σ ε : Type) := ExceptT ε (StateM σ)

namespace Eff

variable {σ ε α β : Type}

def exec (x : Eff σ ε α) (s : σ) : Except ε α × σ :=
  x.run.run s

@[simp] theorem exec_pure (a : α) (s : σ) : exec (pure a : Eff σ ε α) s = (.ok a, s) := rfl

@[simp] theorem exec_throw (e : ε) (s : σ) : exec (throw e : Eff σ ε α) s = (.error e, s) := rfl

@[simp] theorem exec_modify (f : σ → σ) (s : σ) :
    exec (modify f : Eff σ ε PUnit) s = (.ok ⟨⟩, f s) := rfl

@[simp] theorem exec_get (s : σ) : exec (get : Eff σ ε σ) s = (.ok s, s) := rfl

theorem exec_bind (x : Eff σ ε α) (f : α → Eff σ ε β) (s : σ) :
    exec (x >>= f) s =
      match exec x s with
      | (.ok a, t) => exec (f a) t
      | (.error e, t) => (.error e, t) := by
  have hrun : exec (x >>= f) s =
      match exec x s with
      | (a, t) => (ExceptT.bindCont f a : StateM σ (Except ε β)).run t := rfl
  rw [hrun]
  rcases exec x s with ⟨_ | _, t⟩ <;> rfl

theorem exec_map (f : α → β) (x : Eff σ ε α) (s : σ) :
    exec (f <$> x) s =
      match exec x s with
      | (.ok a, t) => (.ok (f a), t)
      | (.error e, t) => (.error e, t) := by
  rw [← bind_pure_comp, exec_bind]
  rcases exec x s with ⟨_ | _, t⟩ <;> rfl

theorem exec_tryCatch (x : Eff σ ε α) (handler : ε → Eff σ ε α) (s : σ) :
    exec (tryCatch x handler) s =
      match exec x s with
      | (.ok a, t) => (.ok a, t)
      | (.error e, t) => exec (handler e) t := by
  have hrun : exec (tryCatch x handler) s =
      match exec x s with
      | (a, t) =>
          (match a with
            | .ok a => pure (.ok a)
            | .error e => (handler e).run : StateM σ (Except ε α)).run t := rfl
  rw [hrun]
  rcases exec x s with ⟨_ | _, t⟩ <;> rfl

/-! ## Pre- and postconditions -/

/-- From a state with `P` the computation returns into one with `Q`, or raises in one with `E`. -/
def Triple (P : σ → Prop) (x : Eff σ ε α) (Q : α → σ → Prop) (E : ε → σ → Prop) : Prop :=
  ∀ s, P s →
    match exec x s with
    | (.ok a, t) => Q a t
    | (.error e, t) => E e t

section Triple

variable {P : σ → Prop} {E : ε → σ → Prop}

theorem triple_pure {Q : α → σ → Prop} {a : α} (h : ∀ s, P s → Q a s) :
    Triple P (pure a : Eff σ ε α) Q E :=
  h

theorem triple_throw {Q : α → σ → Prop} {e : ε} (h : ∀ s, P s → E e s) :
    Triple P (throw e : Eff σ ε α) Q E :=
  h

theorem triple_get : Triple P (get : Eff σ ε σ) (fun a s => a = s ∧ P s) E :=
  fun _ h => ⟨rfl, h⟩

theorem triple_modify {Q : PUnit → σ → Prop} {f : σ → σ} (h : ∀ s, P s → Q ⟨⟩ (f s)) :
    Triple P (modify f : Eff σ ε PUnit) Q E :=
  h

theorem triple_bind {R : α → σ → Prop} {Q : β → σ → Prop} {x : Eff σ ε α} {f : α → Eff σ ε β}
    (hx : Triple P x R E) (hf : ∀ a, Triple (R a) (f a) Q E) : Triple P (x >>= f) Q E := by
  intro s hs
  have hmid := hx s hs
  rw [exec_bind]
  rcases hres : exec x s with ⟨_ | a, t⟩
  · rw [hres] at hmid
    exact hmid
  · rw [hres] at hmid
    exact hf a t hmid

private theorem triple_tryCatch {E' : ε → σ → Prop} {Q : α → σ → Prop} {x : Eff σ ε α}
    {handler : ε → Eff σ ε α} (hx : Triple P x Q E')
    (hhandler : ∀ e, Triple (E' e) (handler e) Q E) : Triple P (tryCatch x handler) Q E := by
  intro s hs
  have hmid := hx s hs
  rw [exec_tryCatch]
  rcases hres : exec x s with ⟨e | a, t⟩
  · rw [hres] at hmid
    exact hhandler e t hmid
  · rw [hres] at hmid
    exact hmid

/-- What a precondition says of no state is a hypothesis. -/
theorem triple_of_fact {p : Prop} {Q : α → σ → Prop} {x : Eff σ ε α} (h : p → Triple P x Q E) :
    Triple (fun s => p ∧ P s) x Q E :=
  fun s hs => h hs.1 s hs.2

theorem triple_mono {P' : σ → Prop} {Q Q' : α → σ → Prop} {E' : ε → σ → Prop} {x : Eff σ ε α}
    (h : Triple P x Q E) (hpre : ∀ s, P' s → P s) (hpost : ∀ a s, Q a s → Q' a s)
    (herror : ∀ e s, E e s → E' e s) : Triple P' x Q' E' := by
  intro s hs
  have hmid := h s (hpre s hs)
  rcases hres : exec x s with ⟨e | a, t⟩
  · rw [hres] at hmid
    exact herror e t hmid
  · rw [hres] at hmid
    exact hpost a t hmid

end Triple

/-- The computation keeps an invariant of the state, whether it returns or raises. -/
def Keeps (inv : σ → Prop) (x : Eff σ ε α) : Prop :=
  Triple inv x (fun _ => inv) (fun _ => inv)

section Keeps

variable {inv : σ → Prop}

theorem Keeps.exec {x : Eff σ ε α} (h : Keeps inv x) {s : σ} (hs : inv s) : inv (exec x s).2 := by
  have hmid := h s hs
  rcases hres : Eff.exec x s with ⟨e | a, t⟩
  · rw [hres] at hmid
    exact hmid
  · rw [hres] at hmid
    exact hmid

theorem keeps_pure (a : α) : Keeps inv (pure a : Eff σ ε α) :=
  triple_pure fun _ h => h

theorem keeps_throw (e : ε) : Keeps inv (throw e : Eff σ ε α) :=
  triple_throw fun _ h => h

theorem keeps_get : Keeps inv (get : Eff σ ε σ) :=
  fun _ h => h

theorem keeps_modify {f : σ → σ} (h : ∀ s, inv s → inv (f s)) :
    Keeps inv (modify f : Eff σ ε PUnit) :=
  triple_modify h

theorem keeps_bind {x : Eff σ ε α} {f : α → Eff σ ε β} (hx : Keeps inv x)
    (hf : ∀ a, Keeps inv (f a)) : Keeps inv (x >>= f) :=
  triple_bind hx hf

/-- What follows a `get` may use that the invariant holds of the state it is given. -/
theorem keeps_get_bind {f : σ → Eff σ ε α} (h : ∀ s, inv s → Keeps inv (f s)) :
    Keeps inv (get >>= f) := by
  intro s hs
  rw [exec_bind, exec_get]
  exact h s hs s hs

theorem keeps_tryCatch {x : Eff σ ε α} {handler : ε → Eff σ ε α} (hx : Keeps inv x)
    (hhandler : ∀ e, Keeps inv (handler e)) : Keeps inv (tryCatch x handler) :=
  triple_tryCatch hx hhandler

end Keeps

end Eff

end SingBoxPython.Framework
