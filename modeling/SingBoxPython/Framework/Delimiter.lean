import Mathlib.Data.List.Infix
import Mathlib.Data.List.TakeWhile

/-!
# Reading delimited text

Readers over a list of symbols.  Each takes the text that is left and gives what it read with the
rest, or `none` where the text does not fit.
-/

namespace SingBoxPython.Framework

variable {α : Type}

/-- Reads the longest non-empty run of symbols that satisfy `f`. -/
def readRun (f : α → Bool) (t : List α) : Option (List α × List α) :=
  if t.takeWhile f = [] then none else some (t.takeWhile f, t.dropWhile f)

theorem readRun_append {f : α → Bool} {w t : List α} (hw : w ≠ []) (hf : ∀ c ∈ w, f c = true)
    (ht : ∀ c ∈ t.head?, f c = false) : readRun f (w ++ t) = some (w, t) := by
  have htake : t.takeWhile f = [] := by
    cases t with
    | nil => rfl
    | cons c t => simp [ht c rfl]
  have hdrop : t.dropWhile f = t := by
    cases t with
    | nil => rfl
    | cons c t => simp [ht c rfl]
  rw [readRun, List.takeWhile_append_of_pos hf, List.dropWhile_append_of_pos hf, htake, hdrop,
    List.append_nil, if_neg hw]

/-- Encoded symbol by symbol, a text ends at the first code of a stop exactly where it ends at the
first stop itself. -/
theorem takeWhile_flatMap {β : Type} {encode : α → List β} {f : α → Bool} {g : β → Bool}
    (hgo : ∀ a, f a = true → ∀ b ∈ encode a, g b = true)
    (hstop : ∀ a, f a = false → ∃ b rest, encode a = b :: rest ∧ g b = false) (t : List α) :
    (t.flatMap encode).takeWhile g = (t.takeWhile f).flatMap encode := by
  induction t with
  | nil => rfl
  | cons a t ih =>
      rw [List.flatMap_cons]
      cases ha : f a with
      | true =>
          rw [List.takeWhile_append_of_pos (hgo a ha), ih, List.takeWhile_cons_of_pos ha,
            List.flatMap_cons]
      | false =>
          obtain ⟨b, rest, hencode, hb⟩ := hstop a ha
          rw [hencode, List.cons_append, List.takeWhile_cons_of_neg (by simp [hb]),
            List.takeWhile_cons_of_neg (by simp [ha]), List.flatMap_nil]

variable [DecidableEq α]

def expect (p t : List α) : Option (List α) :=
  if p <+: t then some (t.drop p.length) else none

@[simp] theorem expect_append (p t : List α) : expect p (p ++ t) = some t := by
  simp [expect]

/-- Reads up to the first occurrence of `p`, which is read as well. -/
def splitAtFirst (p : List α) : List α → Option (List α × List α)
  | [] => if p = [] then some ([], []) else none
  | c :: t =>
      if p <+: c :: t then some ([], (c :: t).drop p.length)
      else (splitAtFirst p t).map fun r => (c :: r.1, r.2)

/-- The text before `p` is read whole when `p` occurs nowhere earlier, not even across the end of
that text. -/
theorem splitAtFirst_append {p a b : List α}
    (h : ∀ u, u ≠ [] → u <:+ a → ¬ p <+: u ++ (p ++ b)) :
    splitAtFirst p (a ++ (p ++ b)) = some (a, b) := by
  induction a with
  | nil =>
      rw [List.nil_append]
      cases hpb : p ++ b with
      | nil => simp_all [splitAtFirst]
      | cons c t =>
          have hp : p <+: c :: t := hpb ▸ List.prefix_append p b
          rw [splitAtFirst, if_pos hp, ← hpb, List.drop_left]
  | cons c a ih =>
      have hc := h (c :: a) (by simp) List.suffix_rfl
      have ha : splitAtFirst p (a ++ (p ++ b)) = some (a, b) :=
        ih fun u hne hu => h u hne (hu.trans (List.suffix_cons c a))
      rw [List.cons_append, splitAtFirst, if_neg (by simpa using hc), ha, Option.map_some]

end SingBoxPython.Framework
