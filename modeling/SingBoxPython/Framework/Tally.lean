import Mathlib.Algebra.GroupWithZero.Nat
import Mathlib.Data.List.Count
import Mathlib.Data.List.Nodup

/-!
# Adding up counters that others increase

A tally is the sum of the counters of some keys.  A reader that adds up counters one by one, while
others add to them, ends between the tally at its beginning and the tally at its end.
-/

namespace SingBoxPython.Framework

variable {κ α β : Type} [DecidableEq κ]

def tally [Add α] [Zero α] (v : κ → α) : List κ → α
  | [] => 0
  | a :: keys => v a + tally v keys

def bump [Add α] (v : κ → α) (a : κ) (n : α) : κ → α :=
  Function.update v a (v a + n)

section Map

variable [Add α] [Add β] {f : α → β}

omit [DecidableEq κ] in
theorem tally_comp [Zero α] [Zero β] (hzero : f 0 = 0) (hadd : ∀ x y, f (x + y) = f x + f y)
    (v : κ → α) (keys : List κ) : tally (f ∘ v) keys = f (tally v keys) := by
  induction keys with
  | nil => exact hzero.symm
  | cons a keys ih => rw [tally, tally, hadd, ih, Function.comp_apply]

theorem bump_comp (hadd : ∀ x y, f (x + y) = f x + f y) (v : κ → α) (a : κ) (n : α) :
    bump (f ∘ v) a (f n) = f ∘ bump v a n := by
  rw [bump, bump, Function.comp_update, hadd]
  rfl

end Map

section Tally

variable (v : κ → Nat)

omit [DecidableEq κ] in
@[simp] theorem tally_nil : tally v [] = 0 := rfl

omit [DecidableEq κ] in
@[simp] theorem tally_cons (a : κ) (keys : List κ) : tally v (a :: keys) = v a + tally v keys :=
  rfl

omit [DecidableEq κ] in
@[simp] theorem tally_append (keys keys' : List κ) :
    tally v (keys ++ keys') = tally v keys + tally v keys' := by
  induction keys with
  | nil => simp
  | cons a keys ih => simp [ih, Nat.add_assoc]

omit [DecidableEq κ] in
theorem tally_perm {keys keys' : List κ} (h : keys.Perm keys') : tally v keys = tally v keys' := by
  induction h with
  | nil => rfl
  | cons a _ ih => rw [tally_cons, tally_cons, ih]
  | swap a b keys => simp [Nat.add_left_comm]
  | trans _ _ ih₁ ih₂ => exact ih₁.trans ih₂

omit [DecidableEq κ] in
theorem tally_le_of_subperm {keys keys' : List κ} (h : keys.Subperm keys') :
    tally v keys ≤ tally v keys' := by
  obtain ⟨l, hperm, hsublist⟩ := h
  obtain ⟨rest, hrest⟩ := hsublist.exists_perm_append
  rw [← tally_perm v hperm, tally_perm v hrest, tally_append]
  exact Nat.le_add_right _ _

theorem tally_bump (a : κ) (n : Nat) (keys : List κ) :
    tally (bump v a n) keys = tally v keys + keys.count a * n := by
  induction keys with
  | nil => simp
  | cons b keys ih =>
      rw [tally_cons, tally_cons, ih, List.count_cons]
      by_cases h : b = a
      · subst h
        rw [bump, Function.update_self, beq_self_eq_true, if_pos rfl, Nat.add_mul, Nat.one_mul]
        omega
      · rw [bump, Function.update_of_ne h, beq_false_of_ne h, if_neg Bool.false_ne_true,
          Nat.add_zero]
        omega

end Tally

/-- The books over counters that come and go.  `joined` are the keys there ever were; the counters
of `held` still count, those of `frozen` were read into `settled` for the last time, and what was
added to them since is `lost`. -/
structure Books (v : κ → Nat) (held frozen joined : List κ) (settled lost : Nat) : Prop where
  partition : (held ++ frozen).Perm joined
  balance : settled + tally v held + lost = tally v joined

namespace Books

variable {v : κ → Nat} {held frozen joined : List κ} {settled lost : Nat}

omit [DecidableEq κ] in
theorem congr {held' : List κ} (h : Books v held frozen joined settled lost)
    (hheld : held.Perm held') : Books v held' frozen joined settled lost where
  partition := (hheld.symm.append_right frozen).trans h.partition
  balance := by
    rw [← tally_perm v hheld]
    exact h.balance

omit [DecidableEq κ] in
theorem settle {a : κ} (h : Books v (a :: held) frozen joined settled lost) :
    Books v held (frozen ++ [a]) joined (settled + v a) lost where
  partition := by
    refine List.Perm.trans ?_ h.partition
    rw [← List.append_assoc]
    exact List.perm_append_singleton a (held ++ frozen)
  balance := by
    have hbalance := h.balance
    rw [tally_cons] at hbalance
    omega

omit [DecidableEq κ] in
theorem join (h : Books v held frozen joined settled lost) (a : κ) :
    Books v (a :: held) frozen (joined ++ [a]) settled lost where
  partition := by
    rw [List.cons_append]
    exact (h.partition.cons a).trans (List.perm_append_singleton a joined).symm
  balance := by
    have hbalance := h.balance
    rw [tally_cons, tally_append, tally_cons, tally_nil]
    omega

/-- Somebody adds to a counter; it is lost where the counter is frozen. -/
theorem bump (h : Books v held frozen joined settled lost) (hnodup : joined.Nodup) (a : κ) (n : Nat) :
    Books (bump v a n) held frozen joined settled (lost + if a ∈ frozen then n else 0) where
  partition := h.partition
  balance := by
    have hbalance := h.balance
    have hcount := h.partition.count_eq a
    have hfrozen : frozen.count a = if a ∈ frozen then 1 else 0 :=
      (List.nodup_append.1 (h.partition.nodup_iff.2 hnodup)).2.1.count
    rw [List.count_append, hfrozen] at hcount
    rw [tally_bump, tally_bump, ← hcount, Nat.add_mul]
    split <;> omega

end Books

/-- A reader that has added up `acc` and has read nothing twice: `base` was the tally when it
began, it is going to read the counters of `ahead` and no others than those of `allowed`. -/
structure Reading (v : κ → Nat) (held : List κ) (rest base acc : Nat) (ahead allowed : List κ) :
    Prop where
  lower : base ≤ acc + tally v ahead
  upper : acc + tally v allowed ≤ rest + tally v held
  counts : ∀ a, allowed.count a ≤ held.count a

namespace Reading

variable {v : κ → Nat} {held ahead allowed : List κ} {rest base acc : Nat}

/-- Somebody adds to a counter. -/
theorem bump (h : Reading v held rest base acc ahead allowed) (a : κ) (n : Nat) :
    Reading (bump v a n) held rest base acc ahead allowed where
  lower := by
    rw [tally_bump]
    have hlower := h.lower
    omega
  upper := by
    rw [tally_bump, tally_bump]
    have hupper := h.upper
    have hcount := Nat.mul_le_mul_right n (h.counts a)
    omega
  counts := h.counts

theorem start (v : κ → Nat) (rest : Nat) {held ahead : List κ} (h : ahead.Perm held) :
    Reading v held rest (rest + tally v held) rest ahead ahead where
  lower := Nat.le_of_eq (by rw [tally_perm v h])
  upper := Nat.le_of_eq (by rw [tally_perm v h])
  counts := fun a => Nat.le_of_eq (h.count_eq a)

theorem load {a : κ} (h : Reading v held rest base acc (a :: ahead) (a :: allowed)) :
    Reading v held rest base (acc + v a) ahead allowed where
  lower := by
    have hlower := h.lower
    rw [tally_cons] at hlower
    omega
  upper := by
    have hupper := h.upper
    rw [tally_cons] at hupper
    omega
  counts := fun b => Nat.le_trans List.count_le_count_cons (h.counts b)

theorem grow (h : Reading v held rest base acc ahead allowed) (a : κ) :
    Reading v (a :: held) rest base acc ahead (a :: allowed) where
  lower := h.lower
  upper := by
    rw [tally_cons, tally_cons]
    have hupper := h.upper
    omega
  counts := by
    intro b
    rw [List.count_cons, List.count_cons]
    exact Nat.add_le_add_right (h.counts b) _

/-- Other words for the same reading; it may be bound to read more than before. -/
theorem congr {held' ahead' allowed' : List κ} (h : Reading v held rest base acc ahead allowed)
    (hheld : held.Perm held') (hahead : ahead.Subperm ahead') (hallowed : allowed.Perm allowed') :
    Reading v held' rest base acc ahead' allowed' where
  lower := Nat.le_trans h.lower (Nat.add_le_add_left (tally_le_of_subperm v hahead) acc)
  upper := by
    rw [← tally_perm v hheld, ← tally_perm v hallowed]
    exact h.upper
  counts := by
    intro a
    rw [← hheld.count_eq, ← hallowed.count_eq]
    exact h.counts a

theorem finish (h : Reading v held rest base acc [] allowed) :
    base ≤ acc ∧ acc ≤ rest + tally v held :=
  ⟨h.lower, Nat.le_trans (Nat.le_add_right _ _) h.upper⟩

end Reading

end SingBoxPython.Framework
