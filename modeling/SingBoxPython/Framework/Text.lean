import Mathlib.Data.List.Infix
import Mathlib.Data.List.Sort

/-!
# Texts

A text is a list of characters, so that texts can be taken apart by recursion and compared by
evaluation.
-/

namespace SingBoxPython.Framework

abbrev Text := List Char

namespace Text

instance decidableMem (t : Text) (texts : List Text) : Decidable (t ∈ texts) :=
  inferInstance

def isSpace (c : Char) : Bool :=
  [9, 10, 11, 12, 13, 28, 29, 30, 31, 32, 133, 160, 5760, 8192, 8193, 8194, 8195, 8196, 8197, 8198,
    8199, 8200, 8201, 8202, 8232, 8233, 8239, 8287, 12288].contains c.toNat

/-- `str.strip()`. -/
def strip (t : Text) : Text :=
  ((t.dropWhile isSpace).reverse.dropWhile isSpace).reverse

theorem head?_strip {t : Text} : ∀ c ∈ (strip t).head?, isSpace c = false := by
  intro c hc
  have hsuffix : (t.dropWhile isSpace).reverse.dropWhile isSpace <:+ (t.dropWhile isSpace).reverse :=
    List.dropWhile_suffix _
  have hstart : strip t <+: t.dropWhile isSpace := by
    rw [strip, ← List.reverse_suffix, List.reverse_reverse]
    exact hsuffix
  obtain ⟨u, hu⟩ := hstart
  have hspace := List.head?_dropWhile_not isSpace t
  rw [← hu, List.head?_append, hc] at hspace
  exact hspace

theorem getLast?_strip {t : Text} : ∀ c ∈ (strip t).getLast?, isSpace c = false := by
  intro c hc
  rw [strip, List.getLast?_reverse] at hc
  have hspace := List.head?_dropWhile_not isSpace (t.dropWhile isSpace).reverse
  rw [hc] at hspace
  exact hspace

theorem mem_of_mem_strip {t : Text} {c : Char} (h : c ∈ strip t) : c ∈ t := by
  rw [strip, List.mem_reverse] at h
  have hmem := (List.dropWhile_sublist _).subset h
  rw [List.mem_reverse] at hmem
  exact (List.dropWhile_sublist _).subset hmem

/-- `text.split(separator)` without the empty parts. -/
def fields (separator : Char) (t : Text) : List Text :=
  (t.splitOnP (· == separator)).filter (· ≠ [])

/-- `str.split()`. -/
def words (t : Text) : List Text :=
  (t.splitOnP isSpace).filter (· ≠ [])

theorem fields_append {separator : Char} {w t : Text} (hw : separator ∉ w) (hne : w ≠ []) :
    fields separator (w ++ separator :: t) = w :: fields separator t := by
  have hno : ∀ d ∈ w, (d == separator) = false := fun d hd => beq_false_of_ne fun h => hw (h ▸ hd)
  rw [fields, List.splitOnP_append_cons_of_forall_mem hno _ (beq_self_eq_true separator),
    List.filter_cons_of_pos (by simpa)]
  rfl

theorem words_append {w t : Text} (hw : ∀ d ∈ w, isSpace d = false) (hne : w ≠ []) :
    words (w ++ ' ' :: t) = w :: words t := by
  rw [words, List.splitOnP_append_cons_of_forall_mem hw _ (by decide),
    List.filter_cons_of_pos (by simpa)]
  rfl

theorem words_eq_singleton {w : Text} (hw : ∀ d ∈ w, isSpace d = false) (hne : w ≠ []) :
    words w = [w] := by
  rw [words, List.splitOnP_eq_singleton hw, List.filter_cons_of_pos (by simpa)]
  rfl

/-- The order of strings by their code points. -/
def lt (a b : Text) : Bool :=
  List.lex a b fun x y => decide (x.toNat < y.toNat)

private theorem lt_iff_lex {a b : Text} : lt a b = true ↔ List.Lex
    (fun x y : Char => x < y) a b := by
  rw [lt, List.lex_eq_true_iff_lex]
  simp only [decide_eq_true_eq]
  rfl

theorem lt_irrefl (a : Text) : lt a a = false := by
  rw [Bool.eq_false_iff, ne_eq, lt_iff_lex]
  exact List.lt_irrefl a

theorem lt_trans {a b c : Text} (hab : lt a b = true) (hbc : lt b c = true) : lt a c = true := by
  rw [lt_iff_lex] at *
  exact List.lt_trans hab hbc

theorem eq_of_not_lt {a b : Text} (hab : lt a b = false) (hba : lt b a = false) : a = b := by
  rw [Bool.eq_false_iff, ne_eq, lt_iff_lex] at hab hba
  exact List.le_antisymm hba hab

theorem lt_asymm {a b : Text} (hab : lt a b = true) : lt b a = false := by
  by_contra hba
  rw [Bool.not_eq_false] at hba
  exact absurd (lt_trans hab hba) (by rw [lt_irrefl]; exact Bool.false_ne_true)

theorem not_lt_trans {a b c : Text} (hba : lt b a = false) (hcb : lt c b = false) :
    lt c a = false := by
  by_contra hca
  rw [Bool.not_eq_false] at hca
  cases hab : lt a b with
  | true => exact absurd (lt_trans hca hab) (by rw [hcb]; exact Bool.false_ne_true)
  | false =>
      rw [eq_of_not_lt hab hba] at hca
      rw [hca] at hcb
      cases hcb

def sort (texts : List Text) : List Text :=
  texts.insertionSort fun a b => lt b a = false

private theorem sort_perm (texts : List Text) : (sort texts).Perm texts :=
  List.perm_insertionSort _ _

@[simp] theorem mem_sort {t : Text} {texts : List Text} : t ∈ sort texts ↔ t ∈ texts :=
  (sort_perm texts).mem_iff

@[simp] theorem sort_eq_nil {texts : List Text} : sort texts = [] ↔ texts = [] :=
  ⟨fun h => (h ▸ sort_perm texts).nil_eq.symm, fun h => by rw [h]; rfl⟩

/-- `separator.join(texts)`. -/
def join (separator : Text) (texts : List Text) : Text :=
  List.intercalate separator texts

theorem suffix_join (separator : Text) (texts : List Text) (t : Text) :
    t <:+ join separator (texts ++ [t]) := by
  induction texts with
  | nil =>
      rw [List.nil_append, join, List.intercalate_singleton]
  | cons u texts ih =>
      obtain ⟨v, rest, heq⟩ := List.exists_cons_of_ne_nil
        (List.append_ne_nil_of_right_ne_nil texts (List.cons_ne_nil t []))
      rw [join, heq] at ih
      rw [List.cons_append, heq, join, List.intercalate_cons_cons]
      exact ih.trans (List.suffix_append _ _)

def unlines (texts : List Text) : Text :=
  texts.flatMap fun t => t ++ ['\n']

private theorem unlines_cons (t : Text) (texts : List Text) :
    unlines (t :: texts) = t ++ '\n' :: unlines texts := by
  simp [unlines]

theorem unlines_eq_join (texts : List Text) : unlines texts = join ['\n'] (texts ++ [[]]) := by
  induction texts with
  | nil => rfl
  | cons t texts ih =>
      rw [unlines_cons, ih, List.cons_append, join, join]
      obtain ⟨u, rest, heq⟩ := List.exists_cons_of_ne_nil
        (List.append_ne_nil_of_right_ne_nil texts (List.cons_ne_nil ([] : Text) []))
      rw [heq, List.intercalate_cons_cons]
      simp

theorem join_newline_append {texts : List Text} (h : texts ≠ []) :
    join ['\n'] texts ++ ['\n'] = unlines texts := by
  induction texts with
  | nil => exact absurd rfl h
  | cons t texts ih =>
      cases texts with
      | nil => simp [join, unlines]
      | cons u texts =>
          rw [unlines_cons, ← ih (by simp)]
          simp [join, List.intercalate_cons_cons]

/-- The lines of a text, of which `line` has been read already.  Each ends with a newline; what
follows the last newline is a line of its own unless it is empty. -/
def linesFrom (line : Text) : Text → List Text
  | [] => if line = [] then [] else [line]
  | c :: t => if c = '\n' then line :: linesFrom [] t else linesFrom (line ++ [c]) t

def lines (t : Text) : List Text :=
  linesFrom [] t

private theorem linesFrom_append {line p t : Text} (hp : '\n' ∉ p) :
    linesFrom line (p ++ '\n' :: t) = (line ++ p) :: lines t := by
  induction p generalizing line with
  | nil => simp [linesFrom, lines]
  | cons c p ih =>
      have hc : c ≠ '\n' := fun h => hp (h ▸ List.mem_cons_self)
      rw [List.cons_append, linesFrom, if_neg hc, ih fun h => hp (List.mem_cons_of_mem c h)]
      simp

/-- Texts without a newline that are written one a line are read back. -/
theorem lines_unlines {texts : List Text} (h : ∀ t ∈ texts, '\n' ∉ t) :
    lines (unlines texts) = texts := by
  induction texts with
  | nil => rfl
  | cons t texts ih =>
      have hrest := ih fun u hu => h u (List.mem_cons_of_mem t hu)
      rw [unlines_cons, lines, linesFrom_append (h t List.mem_cons_self), hrest]
      rfl

private theorem count_le_length_linesFrom (line t : Text) :
    t.count '\n' ≤ (linesFrom line t).length := by
  induction t generalizing line with
  | nil => simp
  | cons c t ih =>
      rw [linesFrom]
      split
      case isTrue h => simpa [h] using ih []
      case isFalse h => simpa [h] using ih (line ++ [c])

private theorem length_le_count_unlines (texts : List Text) :
    texts.length ≤ (unlines texts).count '\n' := by
  induction texts with
  | nil => simp
  | cons t texts ih =>
      rw [unlines_cons, List.count_append, List.count_cons_self, List.length_cons]
      omega

theorem length_lt_lines_unlines {texts : List Text} (h : ∃ t ∈ texts, '\n' ∈ t) :
    texts.length < (lines (unlines texts)).length := by
  refine Nat.lt_of_lt_of_le ?_ (count_le_length_linesFrom [] _)
  obtain ⟨t, ht, hn⟩ := h
  induction texts with
  | nil => cases ht
  | cons u texts ih =>
      have hrest := length_le_count_unlines texts
      rw [unlines_cons, List.count_append, List.count_cons_self, List.length_cons]
      rcases List.mem_cons.1 ht with rfl | ht
      · have hpos := List.count_pos_iff.2 hn
        omega
      · have hlt := ih ht
        omega

end Text

end SingBoxPython.Framework
