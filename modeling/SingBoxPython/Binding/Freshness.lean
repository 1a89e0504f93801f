import Mathlib.Data.Nat.ModEq
import SingBoxPython.Binding.RegistrySafety

/-!
# Handles over runs of any length

The critical sections of `start` and `stop` in any sequence.  The counter `instances.next` runs
through all 64-bit values but zero and then begins again, so a handle comes back every 2^64 - 1
starts, whether or not its last instance has been stopped.
-/

namespace SingBoxPython.Binding

inductive HandleOp
  | start (i : InstanceId)
  | stop (h : Handle)

/-- The registry with the history of its entries: `born h` is the number of the start that made the
entry `h`, counted from one. -/
structure Births where
  registry : Registry := {}
  born : Handle → Option Nat := fun _ => none

def Births.apply (s : Births) : HandleOp → Births
  | .start i =>
      { registry := insertInstance s.registry i
        born := Function.update s.born (nextHandle s.registry.next) (some (s.registry.issued + 1)) }
  | .stop h =>
      { registry := deleteEntry s.registry h
        born := Function.update s.born h none }

def births (ops : List HandleOp) : Births :=
  ops.foldl Births.apply {}

/-- The number of starts after which the counter is back where it was. -/
def period : Nat := 2 ^ 64 - 1

def handleOfStart : Nat → Handle
  | 0 => 0
  | k + 1 => .ofNat (k % period + 1)

private theorem toNat_handleOfStart (k : Nat) : (handleOfStart (k + 1)).toNat = k % period + 1 := by
  have hlt : k % period < period := Nat.mod_lt _ (by decide)
  refine (BitVec.toNat_ofNat _ _).trans (Nat.mod_eq_of_lt ?_)
  unfold period at *
  omega

private theorem nextHandle_handleOfStart (k : Nat) :
    nextHandle (handleOfStart k) = handleOfStart (k + 1) := by
  cases k with
  | zero => rfl
  | succ k =>
      have hmod : k % period < period := Nat.mod_lt _ (by decide)
      have hval := toNat_handleOfStart k
      have hsucc := toNat_handleOfStart (k + 1)
      by_cases hlast : k % period + 1 = period
      · -- The counter wraps, and the zero is skipped.
        have hend : handleOfStart (k + 1) = .ofNat period := by
          rw [handleOfStart, hlast]
        have hnext : (k + 1) % period = 0 := by
          rw [Nat.add_mod, Nat.mod_eq_of_lt (show 1 < period by decide), hlast, Nat.mod_self]
        rw [hend, handleOfStart, hnext]
        decide
      · have hnext : (k + 1) % period = k % period + 1 := by
          rw [Nat.add_mod, Nat.mod_eq_of_lt (show 1 < period by decide), Nat.mod_eq_of_lt]
          omega
        apply BitVec.eq_of_toNat_eq
        show (nextHandle _).toNat = (handleOfStart (k + 1 + 1)).toNat
        rw [nextHandle_toNat, hval, hsucc, hnext]
        rw [hval]
        unfold period at *
        omega

private theorem handleOfStart_eq_iff {a b : Nat} (hab : a ≤ b) :
    handleOfStart (a + 1) = handleOfStart (b + 1) ↔ period ∣ b - a := by
  constructor
  · intro h
    have hval := congrArg Handle.toNat h
    rw [toNat_handleOfStart, toNat_handleOfStart] at hval
    exact (Nat.modEq_iff_dvd' hab).1 (Nat.add_right_cancel hval)
  · intro h
    have hmod : a % period = b % period := (Nat.modEq_iff_dvd' hab).2 h
    rw [handleOfStart, handleOfStart, hmod]

/-- The counter stands at the handle of the last start, and every entry has the handle of the start
that made it. -/
structure Births.Inv (s : Births) : Prop where
  next : s.registry.next = handleOfStart s.registry.issued
  entries : ∀ h, s.registry.byID h = none ↔ s.born h = none
  started : ∀ h b, s.born h = some b → 0 < b ∧ b ≤ s.registry.issued ∧ h = handleOfStart b

theorem Births.Inv.apply {s : Births} (hs : s.Inv) (op : HandleOp) : (s.apply op).Inv := by
  cases op with
  | start i =>
      refine ⟨?_, fun h => ?_, fun h b hb => ?_⟩
      · show nextHandle s.registry.next = handleOfStart (s.registry.issued + 1)
        rw [hs.next, nextHandle_handleOfStart]
      · by_cases hh : h = nextHandle s.registry.next
        · simp [Births.apply, insertInstance, hh]
        · simpa [Births.apply, insertInstance, hh] using hs.entries h
      · by_cases hh : h = nextHandle s.registry.next
        · obtain rfl : s.registry.issued + 1 = b := by simpa [Births.apply, hh] using hb
          refine ⟨Nat.succ_pos _, Nat.le_refl _, ?_⟩
          rw [hh, hs.next, nextHandle_handleOfStart]
        · obtain ⟨hpos, hle, heq⟩ := hs.started h b (by simpa [Births.apply, hh] using hb)
          exact ⟨hpos, Nat.le_succ_of_le hle, heq⟩
  | stop k =>
      refine ⟨hs.next, fun h => ?_, fun h b hb => ?_⟩
      · by_cases hh : h = k
        · simp [Births.apply, deleteEntry, hh]
        · simpa [Births.apply, deleteEntry, hh] using hs.entries h
      · by_cases hh : h = k
        · simp [Births.apply, hh] at hb
        · exact hs.started h b (by simpa [Births.apply, hh] using hb)

private theorem births_inv (ops : List HandleOp) : (births ops).Inv := by
  have hrun : ∀ (l : List HandleOp) (s : Births), s.Inv → (l.foldl Births.apply s).Inv := by
    intro l
    induction l with
    | nil => exact fun s hs => hs
    | cons op l ih => exact fun s hs => ih _ (hs.apply op)
  exact hrun ops {} ⟨rfl, by simp, by simp⟩

/-- The next start overwrites an entry exactly when a whole number of periods has passed since the
start of that entry. -/
private theorem Births.Inv.fresh_iff {s : Births} (hs : s.Inv) :
    s.registry.byID (nextHandle s.registry.next) = none ↔
      ∀ h b, s.born h = some b → ¬ period ∣ s.registry.issued + 1 - b := by
  rw [hs.entries, hs.next, nextHandle_handleOfStart]
  constructor
  · intro hnone h b hb hdvd
    obtain ⟨hpos, hle, rfl⟩ := hs.started h b hb
    obtain ⟨a, rfl⟩ : ∃ a, b = a + 1 := Nat.exists_eq_add_one.2 hpos
    have hsame : handleOfStart (a + 1) = handleOfStart (s.registry.issued + 1) :=
      (handleOfStart_eq_iff (by omega)).2 (by rwa [Nat.add_sub_add_right] at hdvd)
    rw [hsame, hnone] at hb
    cases hb
  · intro hall
    cases hb : s.born (handleOfStart (s.registry.issued + 1)) with
    | none => rfl
    | some b =>
        exfalso
        obtain ⟨hpos, hle, heq⟩ := hs.started _ b hb
        obtain ⟨a, rfl⟩ : ∃ a, b = a + 1 := Nat.exists_eq_add_one.2 hpos
        refine hall _ _ hb ?_
        rw [Nat.add_sub_add_right]
        exact (handleOfStart_eq_iff (by omega)).1 heq.symm

def StartFresh (r : Registry) : Prop :=
  nextHandle r.next ≠ 0 ∧ ∀ h, r.byID h ≠ none → nextHandle r.next ≠ h

/-- After any sequence of starts and stops the next handle is fresh exactly when no instance is
still registered that was started a multiple of 2^64 - 1 starts before. -/
theorem startFresh_iff (ops : List HandleOp) :
    StartFresh (births ops).registry ↔
      ∀ h b, (births ops).born h = some b → ¬ period ∣ (births ops).registry.issued + 1 - b := by
  rw [← (births_inv ops).fresh_iff]
  constructor
  · rintro ⟨-, hfresh⟩
    by_contra hlive
    exact hfresh _ hlive rfl
  · intro hnone
    refine ⟨nextHandle_ne_zero _, ?_⟩
    rintro h hlive rfl
    exact hlive hnone

/-- The first instance stays registered while others are started, until the counter has run
through. -/
private theorem births_starts {n : Nat} (hn : n < period) :
    (births (.start 0 :: List.replicate n (.start 1))).registry.issued = n + 1 ∧
      (births (.start 0 :: List.replicate n (.start 1))).born 1 = some 1 := by
  induction n with
  | zero => exact ⟨rfl, rfl⟩
  | succ n ih =>
      obtain ⟨hissued, hborn⟩ := ih (by omega)
      have hinv := births_inv (.start 0 :: List.replicate n (.start 1))
      have hlast : births (.start 0 :: List.replicate (n + 1) (.start 1)) =
          (births (.start 0 :: List.replicate n (.start 1))).apply (.start 1) := by
        rw [List.replicate_succ', ← List.cons_append, births, List.foldl_append]
        rfl
      have hne : (1 : Handle) ≠
          nextHandle (births (.start 0 :: List.replicate n (.start 1))).registry.next := by
        rw [hinv.next, hissued, nextHandle_handleOfStart]
        intro heq
        have hval := congrArg Handle.toNat heq
        rw [toNat_handleOfStart, Nat.mod_eq_of_lt hn] at hval
        have hone : (1 : Handle).toNat = 1 := rfl
        omega
      rw [hlast]
      refine ⟨?_, ?_⟩
      · show (births _).registry.issued + 1 = n + 1 + 1
        rw [hissued]
      · show Function.update (births _).born _ _ 1 = some 1
        rw [Function.update_of_ne hne, hborn]

/-- After 2^64 - 1 starts without a stop of the first instance the next start returns its handle. -/
theorem live_handle_reissued :
    ∃ ops, (births ops).registry.byID 1 ≠ none ∧ nextHandle (births ops).registry.next = 1 := by
  obtain ⟨hissued, hborn⟩ := births_starts (show 2 ^ 64 - 2 < period by decide)
  have hinv := births_inv (.start 0 :: List.replicate (2 ^ 64 - 2) (.start 1))
  refine ⟨.start 0 :: List.replicate (2 ^ 64 - 2) (.start 1), ?_, ?_⟩
  · rw [ne_eq, hinv.entries 1, hborn]
    exact Option.some_ne_none 1
  · rw [hinv.next, hissued, nextHandle_handleOfStart]
    exact ((handleOfStart_eq_iff (Nat.zero_le period)).2 (by simp)).symm

end SingBoxPython.Binding
