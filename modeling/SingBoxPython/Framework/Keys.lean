import Mathlib.Data.Set.Function
import Mathlib.Tactic.Common

/-!
# Keys and their owners

A table whose keys are handed out to owners.  `f w` is the key that `w` owns, zero for none.  The
keys in use and the owners that have one stay in one-to-one correspondence when a new key is
issued, when a key changes hands and when a key is retired.
-/

namespace SingBoxPython.Framework
open Function

variable {ι κ : Type*} [Zero κ] {f : ι → κ} {S : Set κ} {a b w : ι} {k : κ}

/-- The owners of a non-zero key own the keys of `S`, each owner its own. -/
def Owns (f : ι → κ) (S : Set κ) : Prop :=
  Set.BijOn f {w | f w ≠ 0} S

namespace Owns

theorem mem (h : Owns f S) (hw : f w ≠ 0) : f w ∈ S :=
  h.mapsTo hw

theorem unique (h : Owns f S) (ha : f a ≠ 0) (hab : f a = f b) : a = b :=
  h.injOn ha (show f b ≠ 0 from hab ▸ ha) hab

private theorem exists_owner (h : Owns f S) (hk : k ∈ S) : ∃ w, f w ≠ 0 ∧ f w = k :=
  h.surjOn hk

theorem zero_notMem (h : Owns f S) : (0 : κ) ∉ S := by
  intro h0
  obtain ⟨w, hw, hw0⟩ := h.exists_owner h0
  exact hw hw0

variable [DecidableEq ι]

theorem issue (h : Owns f S) (hw : f w = 0) (hk : k ≠ 0) (hnew : k ∉ S) :
    Owns (update f w k) (insert k S) := by
  refine ⟨?_, ?_, ?_⟩
  · intro v hv
    by_cases hvw : v = w
    · simp [hvw]
    · simp only [Set.mem_ofPred_eq, update_of_ne hvw] at hv ⊢
      exact Set.mem_insert_of_mem k (h.mem hv)
  · intro u hu v hv huv
    simp only [Set.mem_ofPred_eq] at hu hv
    by_cases huw : u = w <;> by_cases hvw : v = w
    · rw [huw, hvw]
    · subst huw
      rw [update_self, update_of_ne hvw] at huv
      rw [update_of_ne hvw] at hv
      exact absurd (huv ▸ h.mem hv) hnew
    · subst hvw
      rw [update_self, update_of_ne huw] at huv
      rw [update_of_ne huw] at hu
      exact absurd (huv ▸ h.mem hu) hnew
    · rw [update_of_ne huw] at hu huv
      rw [update_of_ne hvw] at huv
      exact h.unique hu huv
  · intro l hl
    obtain rfl | hl := hl
    · exact ⟨w, by simpa using hk, by simp⟩
    · obtain ⟨v, hv, rfl⟩ := h.exists_owner hl
      have hvw : v ≠ w := fun hvw => hv (hvw ▸ hw)
      exact ⟨v, by simpa [update_of_ne hvw] using hv, update_of_ne hvw _ _⟩

theorem retire (h : Owns f S) (w : ι) : Owns (update f w 0) (S \ {f w}) := by
  refine ⟨?_, ?_, ?_⟩
  · intro v hv
    have hvw : v ≠ w := by
      rintro rfl
      simp at hv
    simp only [Set.mem_ofPred_eq, update_of_ne hvw] at hv ⊢
    exact ⟨h.mem hv, fun hsame => hvw (h.unique hv hsame)⟩
  · intro u hu v hv huv
    have huw : u ≠ w := by
      rintro rfl
      simp at hu
    have hvw : v ≠ w := by
      rintro rfl
      simp at hv
    simp only [Set.mem_ofPred_eq, update_of_ne huw] at hu
    rw [update_of_ne huw, update_of_ne hvw] at huv
    exact h.unique hu huv
  · rintro l ⟨hl, hlw⟩
    obtain ⟨v, hv, rfl⟩ := h.exists_owner hl
    have hvw : v ≠ w := fun hvw => hlw (by rw [hvw]; rfl)
    exact ⟨v, by simpa [update_of_ne hvw] using hv, update_of_ne hvw _ _⟩

theorem transfer (h : Owns f S) (hab : b ≠ a) (hb : f b = 0) :
    Owns (update (update f a 0) b (f a)) S := by
  by_cases ha : f a = 0
  · have hsame : update (update f a 0) b (f a) = f := by
      rw [ha, ← ha, update_eq_self, ha, ← hb, update_eq_self]
    rwa [hsame]
  · have hnext := (h.retire a).issue (w := b) (k := f a) (by rw [update_of_ne hab, hb]) ha
      (fun hmem => hmem.2 rfl)
    rwa [Set.insert_sdiff_singleton, Set.insert_eq_of_mem (h.mem ha)] at hnext

end Owns

end SingBoxPython.Framework
