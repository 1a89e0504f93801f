import SingBoxPython.Framework.Text
import Mathlib.Data.Nat.Digits.Defs

/-!
# Decimal numerals

Reading numbers from the decimal digits of any script, and which texts are the numeral of the
number that is read from them.
-/

namespace SingBoxPython.Framework

/-- The characters that count as decimal digits, with their values.  The ASCII digits are among
them; the full stop and the white space are not. -/
structure DigitTable where
  digit : Char → Option Nat
  ascii : ∀ c, c.isDigit = true → digit c = some (c.toNat - 48)
  dot : digit '.' = none
  notSpace : ∀ c, (digit c).isSome = true → Text.isSpace c = false

def numeral (n : Nat) : Text :=
  Nat.toDigits 10 n

/-- A non-empty text of ASCII digits without superfluous leading zeros. -/
structure IsNumeral (w : Text) : Prop where
  ne_nil : w ≠ []
  ascii : ∀ c ∈ w, c.isDigit = true
  lead : w.head? = some '0' → w.length = 1

private theorem numeral_of_lt {n : Nat} (h : n < 10) : numeral n = [n.digitChar] :=
  Nat.toDigits_of_lt_base h

private theorem numeral_append {n d : Nat} (hn : 0 < n) (hd : d < 10) :
    numeral (10 * n + d) = numeral n ++ [d.digitChar] := by
  rw [numeral, numeral, ← Nat.toDigits_append_toDigits (by decide) hn hd,
    Nat.toDigits_of_lt_base hd]

theorem head?_numeral_ne_zero {n : Nat} (hn : 0 < n) : (numeral n).head? ≠ some '0' := by
  induction n using Nat.strong_induction_on with
  | _ n ih =>
      by_cases h : n < 10
      · rw [numeral_of_lt h]
        have hdigits : ∀ d < 10, 0 < d → [d.digitChar].head? ≠ some '0' := by decide
        exact hdigits n h hn
      · have hdiv : 10 * (n / 10) + n % 10 = n := by omega
        have hpos : 0 < n / 10 := by omega
        have hne : numeral (n / 10) ≠ [] := Nat.toDigits_ne_nil
        rw [← hdiv, numeral_append hpos (by omega), List.head?_append_of_ne_nil _ hne]
        exact ih (n / 10) (by omega) hpos

theorem isNumeral_numeral (n : Nat) : IsNumeral (numeral n) where
  ne_nil := Nat.toDigits_ne_nil
  ascii := fun _ hc => Nat.isDigit_of_mem_toDigits (by decide) (by decide) hc
  lead := by
    intro h
    rcases Nat.eq_zero_or_pos n with rfl | hn
    · rfl
    · exact absurd h (head?_numeral_ne_zero hn)

theorem digitChar_of_isDigit {c : Char} (h : c.isDigit = true) :
    c.toNat - 48 < 10 ∧ (c.toNat - 48).digitChar = c := by
  have hlow : 48 ≤ c.toNat := by
    simp only [Char.isDigit, Bool.and_eq_true, decide_eq_true_eq] at h
    exact h.1
  have hhigh : c.toNat ≤ 57 := by
    simp only [Char.isDigit, Bool.and_eq_true, decide_eq_true_eq] at h
    exact h.2
  obtain ⟨d, hd⟩ : ∃ d, c.toNat = 48 + d := ⟨c.toNat - 48, by omega⟩
  have hc : c = Char.ofNat (48 + d) := by rw [← hd, Char.ofNat_toNat]
  have hlt : d < 10 := by omega
  refine ⟨by omega, ?_⟩
  have hdigits : ∀ d < 10, d.digitChar = Char.ofNat (48 + d) := by decide
  rw [hd, Nat.add_sub_cancel_left, hc]
  exact hdigits d hlt

namespace DigitTable

variable (table : DigitTable)

def isDigit (c : Char) : Bool :=
  (table.digit c).isSome

def value (w : Text) : Nat :=
  w.foldl (fun n c => 10 * n + (table.digit c).getD 0) 0

private theorem value_append (w : Text) (c : Char) :
    table.value (w ++ [c]) = 10 * table.value w + (table.digit c).getD 0 := by
  simp only [value, List.foldl_append, List.foldl_cons, List.foldl_nil]

/-- A run of digits is the numeral of its value when it is a numeral at all. -/
theorem numeral_value {w : Text} (h : IsNumeral w) : numeral (table.value w) = w := by
  -- From the last digit on: what stands before it is empty or again a numeral, and not zero.
  induction w using List.reverseRecOn with
  | nil => exact absurd rfl h.ne_nil
  | append_singleton w c ih =>
      have hc : c.isDigit = true := h.ascii c (by simp)
      obtain ⟨hlt, hchar⟩ := digitChar_of_isDigit hc
      rw [value_append, table.ascii c hc, Option.getD_some]
      by_cases hw : w = []
      · subst hw
        rw [show table.value [] = 0 from rfl, Nat.mul_zero, Nat.zero_add, numeral_of_lt hlt, hchar]
        rfl
      · have hlead : w.head? ≠ some '0' := by
          intro h0
          have hlen := h.lead (by rw [List.head?_append_of_ne_nil _ hw, h0])
          have hpos : 0 < w.length := List.length_pos_iff.2 hw
          rw [List.length_append, List.length_singleton] at hlen
          omega
        have hnum : IsNumeral w :=
          ⟨hw, fun d hd => h.ascii d (List.mem_append_left _ hd), fun h0 => absurd h0 hlead⟩
        have hpos : 0 < table.value w := by
          apply Nat.pos_of_ne_zero
          intro h0
          apply hlead
          rw [← ih hnum, h0]
          rfl
        rw [numeral_append hpos hlt, ih hnum, hchar]

theorem value_numeral (n : Nat) : table.value (numeral n) = n := by
  induction n using Nat.strong_induction_on with
  | _ n ih =>
      have hdigit : ∀ d < 10, d.digitChar.isDigit = true ∧ d.digitChar.toNat - 48 = d := by decide
      have hlast : (table.digit (n % 10).digitChar).getD 0 = n % 10 := by
        obtain ⟨hascii, hvalue⟩ := hdigit (n % 10) (by omega)
        rw [table.ascii _ hascii, Option.getD_some, hvalue]
      by_cases h : n < 10
      · have hmod : n % 10 = n := Nat.mod_eq_of_lt h
        rw [hmod] at hlast
        rw [numeral_of_lt h, ← List.nil_append [n.digitChar], value_append, hlast]
        simp [value]
      · have hdiv : 10 * (n / 10) + n % 10 = n := by omega
        have hrest := ih (n / 10) (by omega)
        rw [← hdiv, numeral_append (by omega) (by omega), value_append, hrest, hlast]

theorem isDigit_of_ascii {c : Char} (h : c.isDigit = true) : table.isDigit c = true := by
  rw [isDigit, table.ascii c h]
  rfl

end DigitTable

end SingBoxPython.Framework
