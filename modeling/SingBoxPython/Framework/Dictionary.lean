import Mathlib.Data.List.Forall2
import Mathlib.Data.List.Nodup

/-!
# Dictionaries

Lists of keys with their values, read by `List.lookup`.
-/

namespace SingBoxPython.Framework

variable {α β : Type} [BEq α] [LawfulBEq α]

theorem lookup_eq_some_iff {l : List (α × β)} (h : (l.map Prod.fst).Nodup) {a : α} {b : β} :
    l.lookup a = some b ↔ (a, b) ∈ l := by
  induction l with
  | nil => simp
  | cons p l ih =>
      obtain ⟨a', b'⟩ := p
      rw [List.map_cons, List.nodup_cons] at h
      rw [List.lookup_cons]
      by_cases ha : a = a'
      · subst ha
        rw [beq_self_eq_true]
        constructor
        · intro hb
          cases hb
          exact List.mem_cons_self
        · intro hb
          rcases List.mem_cons.1 hb with heq | hmem
          · cases heq
            rfl
          · exact absurd (List.mem_map_of_mem (f := Prod.fst) hmem) h.1
      · rw [beq_false_of_ne ha]
        refine (ih h.2).trans ?_
        simp [ha]

/-- The value of a key in a dictionary that is made of its keys and its values in order. -/
theorem lookup_zip {R : α → β → Prop} {keys : List α} {values : List β}
    (h : List.Forall₂ R keys values) {a : α} (ha : a ∈ keys) :
    ∃ b, R a b ∧ (keys.zip values).lookup a = some b := by
  induction h with
  | nil => cases ha
  | @cons k v keys values hkv _ ih =>
      rw [List.zip_cons_cons, List.lookup_cons]
      by_cases hak : a = k
      · subst hak
        rw [beq_self_eq_true]
        exact ⟨v, hkv, rfl⟩
      · rw [beq_false_of_ne hak]
        exact ih ((List.mem_cons.1 ha).resolve_left hak)

end SingBoxPython.Framework
