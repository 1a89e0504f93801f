import Mathlib.Logic.Relation

/-!
# Locks

A lock that names its holder, and how that name follows the holders when one call moves.  Then one
state of a system of calls and locks, seen only through which call waits for which lock and which
call holds which lock.  If every lock has a rank and whatever a call holds ranks below what it
waits for, the wait-for graph has no cycle, and following it upwards ends at a call that waits for
nobody.
-/

namespace SingBoxPython.Framework

/-- When only the call `c` moves, from holding the lock or not (`b`) to holding it or not (`a`),
and takes it only if it is free, the lock goes on naming exactly its holder. -/
theorem holder_step {κ : Type*} {lock lock' : Option κ} {H H' : κ → Prop} {c : κ} {b a : Prop}
    [Decidable b] [Decidable a] (hlock : ∀ d, lock = some d ↔ H d) (hc : H c ↔ b)
    (hc' : H' c ↔ a) (hothers : ∀ d, d ≠ c → (H' d ↔ H d))
    (hnext : lock' = if a then some c else if b then none else lock)
    (hfree : a → b ∨ lock = none) (d : κ) : lock' = some d ↔ H' d := by
  have hname : b → lock = some c := fun hb => (hlock c).mpr (hc.mpr hb)
  by_cases hd : d = c
  · subst hd
    rw [hnext, hc']
    grind
  · rw [hnext, hothers d hd, ← hlock d]
    grind

variable {κ ℓ : Type*} {waits holds : κ → ℓ → Prop} {rank : ℓ → Nat}

/-- Call `c` waits for a lock that call `d` holds. -/
def WaitsFor (waits holds : κ → ℓ → Prop) (c d : κ) : Prop :=
  ∃ l, waits c l ∧ holds d l

/-- The hierarchy: what a call holds ranks below what it waits for. -/
def LockOrdered (waits holds : κ → ℓ → Prop) (rank : ℓ → Nat) : Prop :=
  ∀ c l l', waits c l → holds c l' → rank l' < rank l

private theorem waitsFor_chain (hord : LockOrdered waits holds rank) {c d : κ}
    (h : Relation.TransGen (WaitsFor waits holds) c d) :
    ∃ l l', waits c l ∧ holds d l' ∧ rank l ≤ rank l' := by
  induction h with
  | single h =>
      obtain ⟨l, hw, hh⟩ := h
      exact ⟨l, l, hw, hh, Nat.le_refl _⟩
  | tail _ h ih =>
      obtain ⟨l, l', hw, hh, hle⟩ := ih
      obtain ⟨m, hwm, hhm⟩ := h
      have hlt := hord _ m l' hwm hh
      exact ⟨l, m, hw, hhm, by omega⟩

/-- No call waits, directly or through other calls, for itself. -/
theorem waitsFor_acyclic (hord : LockOrdered waits holds rank) (c : κ) :
    ¬ Relation.TransGen (WaitsFor waits holds) c c := by
  intro h
  obtain ⟨l, l', hw, hh, hle⟩ := waitsFor_chain hord h
  have hlt := hord c l l' hw hh
  omega

/-- Under bounded ranks some call at or above `c` in the wait-for graph waits for nobody. -/
theorem exists_not_waiting (hord : LockOrdered waits holds rank) {bound : Nat}
    (hbound : ∀ l, rank l ≤ bound) (c : κ) :
    ∃ d, Relation.ReflTransGen (WaitsFor waits holds) c d ∧
      ∀ e, ¬ WaitsFor waits holds d e := by
  -- What a call waits for ranks above what it is waited for, so at each step up the chain the
  -- room between the waited lock and the bound shrinks.
  have climb : ∀ n c, (∀ l, waits c l → bound + 1 ≤ rank l + n) →
      ∃ d, Relation.ReflTransGen (WaitsFor waits holds) c d ∧
        ∀ e, ¬ WaitsFor waits holds d e := by
    intro n
    induction n with
    | zero =>
        intro c hroom
        refine ⟨c, .refl, ?_⟩
        rintro e ⟨l, hw, _⟩
        have hlow := hroom l hw
        have hhigh := hbound l
        omega
    | succ n ih =>
        intro c hroom
        by_cases hfree : ∀ e, ¬ WaitsFor waits holds c e
        · exact ⟨c, .refl, hfree⟩
        · obtain ⟨d, hcd⟩ := Classical.not_forall_not.mp hfree
          obtain ⟨l, hw, hh⟩ := hcd
          have hnext : ∀ m, waits d m → bound + 1 ≤ rank m + n := by
            intro m hm
            have hlt := hord d m l hm hh
            have hlow := hroom l hw
            omega
          obtain ⟨e, hde, he⟩ := ih d hnext
          exact ⟨e, .head ⟨l, hw, hh⟩ hde, he⟩
  exact climb (bound + 1) c (fun l _ => by omega)

end SingBoxPython.Framework
