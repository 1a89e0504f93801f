import SingBoxPython.Framework.Decimal
import SingBoxPython.Sync.Upstream

/-!
# Version texts

The patterns that accept version texts, `parse_version` and `parse_go_version` of
`scripts/sync-sing-box.py`, and the validators that read the stored texts again: `setup.py` and the
Linux wheel build of `pyproject.toml`.
-/

namespace SingBoxPython.Sync
open Framework

/-- What the script takes from its Python: the characters that `\d` matches and their values, the
number of digits from which on `int` raises (zero for no limit), and `repr` of strings. -/
structure Python where
  digits : DigitTable
  maxStrDigits : Nat
  repr : Text → Text

namespace Python

variable (py : Python)

/-- `int` does not refuse a run of digits for its length. -/
def fits (w : Text) : Bool :=
  py.maxStrDigits == 0 || w.length ≤ py.maxStrDigits

/-- `int(part)` for a run of digits. -/
def int (part : Text) : Except Failure Nat :=
  if py.fits part then pure (py.digits.value part) else throw .valueError

end Python

/-- A full match of three runs of `digit` with a full stop between them.  A full stop is no digit, so
the greedy runs never have to give anything back. -/
def threeRuns (digit : Char → Bool) (t : Text) : Bool :=
  match readRun digit t with
  | none => false
  | some (_, t) =>
      match expect ['.'] t with
      | none => false
      | some t =>
          match readRun digit t with
          | none => false
          | some (_, t) =>
              match expect ['.'] t with
              | none => false
              | some t =>
                  match readRun digit t with
                  | none => false
                  | some (_, t) => t.isEmpty

/-- `VERSION_PATTERN.fullmatch(tag)`, as its group `version`. -/
def versionPattern (py : Python) (tag : Text) : Option Text :=
  match expect ['v'] tag with
  | none => none
  | some version => if threeRuns py.digits.isDigit version then some version else none

def parseVersion (py : Python) (tag : Text) : Except Failure (List Nat) :=
  match versionPattern py tag with
  | none => throw (.syncError ("Expected a stable vX.Y.Z tag, got ".toList ++ py.repr tag))
  | some version => (version.splitOn '.').mapM py.int

def parseGoVersion (py : Python) (version : Text) : Except Failure (List Nat) :=
  if threeRuns py.digits.isDigit version then (version.splitOn '.').mapM py.int
  else throw (.syncError ("Expected an exact X.Y.Z Go version, got ".toList ++ py.repr version))

/-- `package_version`. -/
def packageVersion (py : Python) (tag : Text) : Except Failure Text := do
  let _ ← parseVersion py tag
  pure (tag.drop 1)

/-- The check of `setup.py` on the text of `UPSTREAM_VERSION`. -/
def setupAccepts (py : Python) (file : Text) : Bool :=
  (versionPattern py (Text.strip file)).isSome

/-- The check of the Linux wheel build on the text of `.go-version`: `tr` drops the line ends and
`grep` matches what is left against `[0-9]` runs. -/
def linuxWheelAccepts (file : Text) : Bool :=
  threeRuns Char.isDigit (file.filter fun c => c != '\r' && c != '\n')

/-- The text of a Go version. -/
def formatGoVersion (version : List Nat) : Text :=
  ['.'].intercalate (version.map numeral)

/-- The text of a tag. -/
def formatVersion (version : List Nat) : Text :=
  'v' :: formatGoVersion version

/-! ## What the patterns match -/

/-- Three parts, joined by full stops. -/
def dotted (a b c : Text) : Text :=
  a ++ '.' :: (b ++ '.' :: c)

/-- A non-empty text of digits. -/
def IsRun (digit : Char → Bool) (w : Text) : Prop :=
  w ≠ [] ∧ ∀ c ∈ w, digit c = true

private theorem readRun_eq_some {digit : Char → Bool} {t w rest : Text}
    (h : readRun digit t = some (w, rest)) : IsRun digit w ∧ t = w ++ rest := by
  rw [readRun] at h
  split at h
  · cases h
  · rename_i hne
    cases h
    exact ⟨⟨hne, fun c hc => List.mem_takeWhile_imp hc⟩, List.takeWhile_append_dropWhile.symm⟩

private theorem expect_eq_some {p t rest : Text} (h : expect p t = some rest) : t = p ++ rest := by
  rw [expect] at h
  split at h
  · rename_i hp
    cases h
    exact (List.prefix_iff_eq_append.1 hp).symm
  · cases h

theorem IsRun.readRun {digit : Char → Bool} {w t : Text} (hw : IsRun digit w)
    (ht : ∀ c ∈ t.head?, digit c = false) : readRun digit (w ++ t) = some (w, t) :=
  readRun_append hw.1 hw.2 ht

private theorem threeRuns_dotted {digit : Char → Bool} (hdot : digit '.' = false) {a b c : Text}
    (ha : IsRun digit a) (hb : IsRun digit b) (hc : IsRun digit c) :
    threeRuns digit (dotted a b c) = true := by
  have hstop : ∀ t : Text, ∀ d ∈ ('.' :: t).head?, digit d = false := by
    intro t d hd
    cases hd
    exact hdot
  have hexpect : ∀ t : Text, expect ['.'] ('.' :: t) = some t := fun t => expect_append ['.'] t
  have hlast : Framework.readRun digit c = some (c, []) := by
    have h := hc.readRun (t := []) (by simp)
    rwa [List.append_nil] at h
  simp only [threeRuns, dotted, ha.readRun (hstop _), hexpect, hb.readRun (hstop _), hlast,
    List.isEmpty_nil]

private theorem threeRuns_iff {digit : Char → Bool} (hdot : digit '.' = false) {t : Text} :
    threeRuns digit t = true ↔
      ∃ a b c, t = dotted a b c ∧ IsRun digit a ∧ IsRun digit b ∧ IsRun digit c := by
  constructor
  · intro h
    rw [threeRuns] at h
    split at h
    · cases h
    rename_i a t₁ h₁
    split at h
    · cases h
    rename_i t₂ h₂
    split at h
    · cases h
    rename_i b t₃ h₃
    split at h
    · cases h
    rename_i t₄ h₄
    split at h
    · cases h
    rename_i c t₅ h₅
    obtain ⟨ha, rfl⟩ := readRun_eq_some h₁
    obtain ⟨hb, rfl⟩ := readRun_eq_some h₃
    obtain ⟨hc, rfl⟩ := readRun_eq_some h₅
    cases expect_eq_some h₂
    cases expect_eq_some h₄
    rw [List.isEmpty_iff] at h
    subst h
    refine ⟨a, b, c, ?_, ha, hb, hc⟩
    simp only [dotted, List.append_nil, List.cons_append, List.nil_append]
  · rintro ⟨a, b, c, rfl, ha, hb, hc⟩
    exact threeRuns_dotted hdot ha hb hc

private theorem dotted_eq_intercalate (a b c : Text) : dotted a b c = ['.'].intercalate
    [a, b, c] := by
  simp [dotted, List.intercalate]

private theorem splitOn_dotted {a b c : Text} (h : ∀ w ∈ [a, b, c], '.' ∉ w) :
    (dotted a b c).splitOn '.' = [a, b, c] := by
  rw [dotted_eq_intercalate]
  exact List.splitOn_intercalate '.' h (List.cons_ne_nil _ _)

namespace Python

variable (py : Python)

private theorem isDigit_dot : py.digits.isDigit '.' = false := by
  rw [DigitTable.isDigit, py.digits.dot]
  rfl

private theorem mapM_int (parts : List Text) :
    parts.mapM py.int =
      if parts.all py.fits then .ok (parts.map py.digits.value) else .error .valueError := by
  induction parts with
  | nil => rfl
  | cons w parts ih =>
      rw [List.mapM_cons, ih, int]
      by_cases hw : py.fits w = true
      · by_cases hp : parts.all py.fits = true
        · simp only [hw, hp, List.all_cons, Bool.and_self, if_true]
          rfl
        · simp only [hw, hp, List.all_cons, Bool.and_false, if_true, Bool.false_eq_true, if_false]
          rfl
      · simp only [hw, List.all_cons, Bool.false_and, Bool.false_eq_true, if_false]
        rfl

end Python

/-! ## Texts and numbers -/

/-- Three decimal numbers without superfluous leading zeros. -/
def IsVersionText (t : Text) : Prop :=
  ∃ a b c, t = dotted a b c ∧ ∀ w ∈ [a, b, c], IsNumeral w

def IsTag (tag : Text) : Prop :=
  ∃ t, tag = 'v' :: t ∧ IsVersionText t

/-- `parse_go_version` accepts a text exactly when it is a version text, and what it returns gives
the text back. -/
def GoCorresponds (py : Python) (version : Text) : Prop :=
  (Returns (parseGoVersion py version) ↔ IsVersionText version) ∧
    ∀ v, parseGoVersion py version = .ok v → formatGoVersion v = version

/-- The same for `parse_version` and tags. -/
def TagCorresponds (py : Python) (tag : Text) : Prop :=
  (Returns (parseVersion py tag) ↔ IsTag tag) ∧
    ∀ v, parseVersion py tag = .ok v → formatVersion v = tag

/-- Where the text has the shape that the pattern accepts, it is written in ASCII numerals exactly
when `int` takes all of its parts. -/
def Ordinary (py : Python) (t : Text) : Prop :=
  ∀ a b c, t = dotted a b c → (∀ w ∈ [a, b, c], IsRun py.digits.isDigit w) →
    ((∀ w ∈ [a, b, c], IsNumeral w) ↔ [a, b, c].all py.fits = true)

def OrdinaryTag (py : Python) (tag : Text) : Prop :=
  ∀ t, tag = 'v' :: t → Ordinary py t

section Correspondence

variable {py : Python}

private theorem isRun_of_isNumeral {w : Text} (h : IsNumeral w) : IsRun py.digits.isDigit w :=
  ⟨h.ne_nil, fun c hc => py.digits.isDigit_of_ascii (h.ascii c hc)⟩

private theorem IsRun.no_dot {w : Text} (h : IsRun py.digits.isDigit w) : '.' ∉ w := by
  intro hmem
  have hdot := h.2 '.' hmem
  rw [py.isDigit_dot] at hdot
  cases hdot

private theorem dotted_inj {a b c a' b' c' : Text} (h : ∀ w ∈ [a, b, c], IsRun py.digits.isDigit w)
    (h' : ∀ w ∈ [a', b', c'], IsRun py.digits.isDigit w)
    (heq : dotted a b c = dotted a' b' c') : [a, b, c] = [a', b', c'] := by
  rw [← splitOn_dotted fun w hw => (h w hw).no_dot, heq,
    splitOn_dotted fun w hw => (h' w hw).no_dot]

private theorem threeRuns_digits_iff {t : Text} :
    threeRuns py.digits.isDigit t = true ↔
      ∃ a b c, t = dotted a b c ∧ ∀ w ∈ [a, b, c], IsRun py.digits.isDigit w := by
  rw [threeRuns_iff py.isDigit_dot]
  simp only [List.forall_mem_cons, List.not_mem_nil, false_implies, implies_true, and_true]

private theorem isVersionText_dotted {a b c : Text}
    (h : ∀ w ∈ [a, b, c], IsRun py.digits.isDigit w) :
    IsVersionText (dotted a b c) ↔ ∀ w ∈ [a, b, c], IsNumeral w := by
  constructor
  · rintro ⟨a', b', c', heq, hnum⟩
    rw [dotted_inj h (fun w hw => isRun_of_isNumeral (hnum w hw)) heq]
    exact hnum
  · intro hnum
    exact ⟨a, b, c, rfl, hnum⟩

private theorem threeRuns_of_isVersionText {t : Text} (h : IsVersionText t) :
    threeRuns py.digits.isDigit t = true := by
  obtain ⟨a, b, c, rfl, hnum⟩ := h
  exact threeRuns_digits_iff.2 ⟨a, b, c, rfl, fun w hw => isRun_of_isNumeral (hnum w hw)⟩

private theorem splitOn_mapM_int {a b c : Text} (h : ∀ w ∈ [a, b, c], IsRun py.digits.isDigit w) :
    ((dotted a b c).splitOn '.').mapM py.int =
      if [a, b, c].all py.fits then .ok ([a, b, c].map py.digits.value)
      else .error .valueError := by
  rw [splitOn_dotted fun w hw => (h w hw).no_dot, py.mapM_int]

private theorem formatGoVersion_value {a b c : Text} (h : ∀ w ∈ [a, b, c], IsNumeral w) :
    formatGoVersion ([a, b, c].map py.digits.value) = dotted a b c := by
  have hmap : ([a, b, c].map py.digits.value).map numeral = [a, b, c] := by
    rw [List.map_map]
    exact (List.map_congr_left fun w hw => py.digits.numeral_value (h w hw)).trans (List.map_id _)
  rw [formatGoVersion, hmap, dotted_eq_intercalate]

/-- What the two parsers do with the text after the tag's letter decides the correspondence. -/
private theorem parts_correspond_iff {t : Text} (ht : threeRuns py.digits.isDigit t = true) :
    ((Returns ((t.splitOn '.').mapM py.int) ↔ IsVersionText t) ∧
        ∀ v, (t.splitOn '.').mapM py.int = .ok v → formatGoVersion v = t) ↔
      Ordinary py t := by
  obtain ⟨a, b, c, rfl, hrun⟩ := threeRuns_digits_iff.1 ht
  have hret : Returns (((dotted a b c).splitOn '.').mapM py.int) ↔
      [a, b, c].all py.fits = true := by
    rw [splitOn_mapM_int hrun]
    split <;> simp_all
  rw [hret, isVersionText_dotted hrun]
  constructor
  · intro h a' b' c' heq hrun'
    rw [← dotted_inj hrun hrun' heq]
    exact h.1.symm
  · intro h
    have hiff := h a b c rfl hrun
    refine ⟨hiff.symm, ?_⟩
    intro v hv
    rw [splitOn_mapM_int hrun] at hv
    split at hv
    · rename_i hfits
      cases hv
      exact formatGoVersion_value (hiff.2 hfits)
    · cases hv

private theorem ordinary_of_not_threeRuns {t : Text} (ht : threeRuns py.digits.isDigit t ≠ true) :
    Ordinary py t := by
  intro a b c heq hrun
  exact absurd (threeRuns_digits_iff.2 ⟨a, b, c, heq, hrun⟩) ht

private theorem goCorresponds_iff
    (version : Text) : GoCorresponds py version ↔ Ordinary py version := by
  by_cases ht : threeRuns py.digits.isDigit version = true
  · rw [GoCorresponds, parseGoVersion, if_pos ht]
    exact parts_correspond_iff ht
  · rw [GoCorresponds, parseGoVersion, if_neg ht]
    refine iff_of_true ⟨iff_of_false (not_returns_throw _) ?_, ?_⟩ (ordinary_of_not_threeRuns ht)
    · exact fun h => ht (threeRuns_of_isVersionText h)
    · intro v hv
      cases hv

private theorem versionPattern_cons (t : Text) :
    versionPattern py ('v' :: t) = if threeRuns py.digits.isDigit t then some t else none := by
  rw [versionPattern, show expect ['v'] ('v' :: t) = some t from expect_append ['v'] t]

private theorem tagCorresponds_cons (t : Text) : TagCorresponds py ('v' :: t) ↔ Ordinary py t := by
  have htag : IsTag ('v' :: t) ↔ IsVersionText t := by
    constructor
    · rintro ⟨t', heq, h⟩
      cases heq
      exact h
    · exact fun h => ⟨t, rfl, h⟩
  rw [TagCorresponds, htag, parseVersion, versionPattern_cons]
  by_cases ht : threeRuns py.digits.isDigit t = true
  · simp only [ht, if_true, formatVersion, List.cons.injEq, true_and]
    exact parts_correspond_iff ht
  · simp only [ht, Bool.false_eq_true, if_false]
    refine iff_of_true ⟨iff_of_false (not_returns_throw _) ?_, ?_⟩ (ordinary_of_not_threeRuns ht)
    · exact fun h => ht (threeRuns_of_isVersionText h)
    · intro v hv
      cases hv

private theorem tagCorresponds_iff (tag : Text) : TagCorresponds py tag ↔ OrdinaryTag py tag := by
  by_cases hv : ∃ t, tag = 'v' :: t
  · obtain ⟨t, rfl⟩ := hv
    rw [tagCorresponds_cons]
    constructor
    · intro h t' heq
      cases heq
      exact h
    · exact fun h => h t rfl
  · -- Without the letter there is no match, and no tag.
    have hnone : versionPattern py tag = none := by
      rw [versionPattern]
      split
      · rfl
      · rename_i t ht
        exact absurd ⟨t, expect_eq_some ht⟩ hv
    rw [TagCorresponds, parseVersion, hnone]
    refine iff_of_true ⟨iff_of_false (not_returns_throw _) ?_, ?_⟩ ?_
    · rintro ⟨t, heq, -⟩
      exact hv ⟨t, heq⟩
    · intro v h
      cases h
    · exact fun t heq => absurd ⟨t, heq⟩ hv

private theorem versionPattern_eq_some {tag version : Text}
    (h : versionPattern py tag = some version) :
    tag = 'v' :: version ∧ threeRuns py.digits.isDigit version = true := by
  rw [versionPattern] at h
  split at h
  · cases h
  · rename_i t ht
    split at h
    · rename_i hruns
      cases h
      exact ⟨expect_eq_some ht, hruns⟩
    · cases h

theorem isSpace_of_parseVersion {tag : Text} {version : List Nat}
    (h : parseVersion py tag = .ok version) : ∀ d ∈ tag, Text.isSpace d = false := by
  rw [parseVersion] at h
  split at h
  · cases h
  · rename_i text hpattern
    obtain ⟨rfl, hruns⟩ := versionPattern_eq_some hpattern
    obtain ⟨a, b, c, rfl, hrun⟩ := threeRuns_digits_iff.1 hruns
    intro d hd
    have hdigit : ∀ w ∈ [a, b, c], d ∈ w → Text.isSpace d = false :=
      fun w hw hmem => py.digits.notSpace d ((hrun w hw).2 d hmem)
    simp only [dotted, List.mem_append, List.mem_cons] at hd
    rcases hd with rfl | hd | rfl | hd | rfl | hd
    · decide
    · exact hdigit a (by simp) hd
    · decide
    · exact hdigit b (by simp) hd
    · decide
    · exact hdigit c (by simp) hd

/-! ## The other validators -/

theorem strip_append_newline {t : Text} (hfirst : ∀ c ∈ t.head?, Text.isSpace c = false)
    (hlast : ∀ c ∈ t.getLast?, Text.isSpace c = false) (hne : t ≠ []) :
    Text.strip (t ++ ['\n']) = t := by
  obtain ⟨c, u, rfl⟩ := List.exists_cons_of_ne_nil hne
  have hdrop : ((c :: u) ++ ['\n']).dropWhile Text.isSpace = (c :: u) ++ ['\n'] := by
    simp [hfirst c rfl]
  rw [Text.strip, hdrop, List.reverse_append, List.reverse_singleton, List.singleton_append,
    List.dropWhile_cons_of_pos (by decide)]
  cases hrev : (c :: u).reverse with
  | nil => simp at hrev
  | cons d w =>
      have hd : (c :: u).getLast? = some d := by rw [← List.head?_reverse, hrev, List.head?_cons]
      rw [List.dropWhile_cons_of_neg (by simp [hlast d hd]), ← hrev, List.reverse_reverse]

private theorem setupAccepts_of_isTag {tag : Text} (h : IsTag tag) :
    setupAccepts py (tag ++ ['\n']) = true := by
  obtain ⟨t, rfl, hver⟩ := h
  obtain ⟨a, b, c, rfl, hnum⟩ := id hver
  have hc : IsNumeral c := hnum c (by simp)
  have hlast : ∀ d ∈ ('v' :: dotted a b c).getLast?, Text.isSpace d = false := by
    intro d hd
    have hmem : d ∈ c := by
      have heq : 'v' :: dotted a b c = ('v' :: (a ++ '.' :: (b ++ ['.']))) ++ c := by simp [dotted]
      rw [heq, List.getLast?_append_of_ne_nil _ hc.ne_nil] at hd
      exact List.mem_of_getLast? hd
    exact py.digits.notSpace d (py.digits.isDigit_of_ascii (hc.ascii d hmem))
  have hstrip : Text.strip (('v' :: dotted a b c) ++ ['\n']) = 'v' :: dotted a b c := by
    refine strip_append_newline ?_ hlast (List.cons_ne_nil _ _)
    intro d hd
    cases hd
    decide
  rw [setupAccepts, hstrip, versionPattern_cons, if_pos (threeRuns_of_isVersionText hver)]
  rfl

private theorem linuxWheelAccepts_of_isVersionText {t : Text} (h : IsVersionText t) :
    linuxWheelAccepts (t ++ ['\n']) = true := by
  obtain ⟨a, b, c, rfl, hnum⟩ := h
  have hrun : ∀ w ∈ [a, b, c], IsRun Char.isDigit w :=
    fun w hw => ⟨(hnum w hw).ne_nil, (hnum w hw).ascii⟩
  have hkeep : ∀ d ∈ dotted a b c, (d != '\r' && d != '\n') = true := by
    intro d hd
    have hcases : d.isDigit = true ∨ d = '.' := by
      simp only [dotted, List.mem_append, List.mem_cons] at hd
      rcases hd with hd | rfl | hd | rfl | hd
      · exact .inl ((hnum a (by simp)).ascii d hd)
      · exact .inr rfl
      · exact .inl ((hnum b (by simp)).ascii d hd)
      · exact .inr rfl
      · exact .inl ((hnum c (by simp)).ascii d hd)
    rcases hcases with hd | rfl
    · rw [Bool.and_eq_true, bne_iff_ne, bne_iff_ne]
      constructor
      · rintro rfl
        cases hd
      · rintro rfl
        cases hd
    · rfl
  rw [linuxWheelAccepts, List.filter_append, List.filter_eq_self.2 hkeep,
    show (['\n'] : Text).filter (fun d => d != '\r' && d != '\n') = [] from rfl, List.append_nil]
  exact threeRuns_dotted rfl (hrun a (by simp)) (hrun b (by simp)) (hrun c (by simp))

end Correspondence

/-- Texts and numbers of versions correspond: each text is accepted exactly when it is well formed
and is then given back by its numbers, two accepted tags with equal numbers are equal, and what is
stored is accepted by the validators that read it. -/
structure VersionsCorrespond (py build : Python) (tag tag' go : Text) : Prop where
  first : TagCorresponds py tag
  second : TagCorresponds py tag'
  goVersion : GoCorresponds py go
  injective : ∀ v, parseVersion py tag = .ok v → parseVersion py tag' = .ok v → tag = tag'
  setup : Returns (parseVersion py tag) → setupAccepts build (tag ++ ['\n']) = true
  wheel : Returns (parseGoVersion py go) → linuxWheelAccepts (go ++ ['\n']) = true

theorem versionsCorrespond_iff (py build : Python) (tag tag' go : Text) :
    VersionsCorrespond py build tag tag' go ↔
      OrdinaryTag py tag ∧ OrdinaryTag py tag' ∧ Ordinary py go := by
  rw [← tagCorresponds_iff, ← tagCorresponds_iff, ← goCorresponds_iff]
  constructor
  · intro h
    exact ⟨h.first, h.second, h.goVersion⟩
  · rintro ⟨htag, htag', hgo⟩
    refine ⟨htag, htag', hgo, ?_, ?_, ?_⟩
    · intro v hv hv'
      rw [← htag.2 v hv, ← htag'.2 v hv']
    · exact fun h => setupAccepts_of_isTag (htag.1.1 h)
    · exact fun h => linuxWheelAccepts_of_isVersionText (hgo.1.1 h)

/-! ## The digits of Unicode -/

/-- The zeros of the decimal digits of Unicode 14; the other nine digits follow each of them. -/
def unicodeZeros : List Nat :=
  [0x30, 0x660, 0x6f0, 0x7c0, 0x966, 0x9e6, 0xa66, 0xae6, 0xb66, 0xbe6, 0xc66, 0xce6, 0xd66, 0xde6,
    0xe50, 0xed0, 0xf20, 0x1040, 0x1090, 0x17e0, 0x1810, 0x1946, 0x19d0, 0x1a80, 0x1a90, 0x1b50,
    0x1bb0, 0x1c40, 0x1c50, 0xa620, 0xa8d0, 0xa900, 0xa9d0, 0xa9f0, 0xaa50, 0xabf0, 0xff10, 0x104a0,
    0x10d30, 0x11066, 0x110f0, 0x11136, 0x111d0, 0x112f0, 0x11450, 0x114d0, 0x11650, 0x116c0,
    0x11730, 0x118e0, 0x11950, 0x11c50, 0x11d50, 0x11da0, 0x16a60, 0x16ac0, 0x16b50, 0x1d7ce,
    0x1d7d8, 0x1d7e2, 0x1d7ec, 0x1d7f6, 0x1e140, 0x1e2f0, 0x1e950, 0x1fbf0]

def unicodeDigit (c : Char) : Option Nat :=
  (unicodeZeros.find? fun z => z ≤ c.toNat && c.toNat < z + 10).map fun z => c.toNat - z

def unicodeDigits : DigitTable where
  digit := unicodeDigit
  ascii := by
    intro c hc
    have hrange : (decide (0x30 ≤ c.toNat) && decide (c.toNat < 0x30 + 10)) = true := by
      simp only [Char.isDigit, Bool.and_eq_true, decide_eq_true_eq] at hc
      rw [Bool.and_eq_true, decide_eq_true_eq, decide_eq_true_eq]
      exact ⟨hc.1, Nat.lt_succ_of_le hc.2⟩
    have hfind : (unicodeZeros.find? fun z => z ≤ c.toNat && c.toNat < z + 10) = some 0x30 :=
      List.find?_cons_of_pos (p := fun z => z ≤ c.toNat && c.toNat < z + 10) hrange
    rw [unicodeDigit, hfind]
    rfl
  dot := by decide
  notSpace := by
    intro c hc
    rw [unicodeDigit, Option.isSome_map] at hc
    obtain ⟨z, hfind⟩ := Option.isSome_iff_exists.1 hc
    have hz := List.mem_of_find?_eq_some hfind
    have hrange := List.find?_some hfind
    rw [Bool.and_eq_true, decide_eq_true_eq, decide_eq_true_eq] at hrange
    obtain ⟨k, hk, hc⟩ : ∃ k < 10, c.toNat = z + k := ⟨c.toNat - z, by omega, by omega⟩
    have hall : (unicodeZeros.all fun z => (List.range 10).all fun k =>
        !Text.isSpace (Char.ofNat (z + k))) = true := by
      decide +kernel
    have hnot := List.all_eq_true.1 (List.all_eq_true.1 hall z hz) k (List.mem_range.2 hk)
    rw [← hc, Char.ofNat_toNat] at hnot
    simpa using hnot

/-- CPython 3.11 with its default limit.  Its `repr` is exact for the texts that need no escapes. -/
def python311 : Python where
  digits := unicodeDigits
  maxStrDigits := 4300
  repr := fun t => '\'' :: (t ++ ['\''])

/-- Two tags are taken for the same version, and a Go version in Arabic-Indic digits is accepted and
then refused by the Linux wheel build. -/
theorem version_accepted_twice :
    ¬ VersionsCorrespond python311 python311 "v01.2.3".toList "v1.2.3".toList "١.25.0".toList ∧
      parseVersion python311 "v01.2.3".toList = .ok [1, 2, 3] ∧
      parseVersion python311 "v1.2.3".toList = .ok [1, 2, 3] ∧
      parseGoVersion python311 "١.25.0".toList = .ok [1, 25, 0] ∧
      linuxWheelAccepts ("١.25.0".toList ++ ['\n']) = false := by
  have h₁ : parseVersion python311 "v01.2.3".toList = .ok [1, 2, 3] := by rfl
  have h₂ : parseVersion python311 "v1.2.3".toList = .ok [1, 2, 3] := by rfl
  refine ⟨?_, h₁, h₂, by rfl, by decide⟩
  intro h
  exact absurd (h.injective [1, 2, 3] h₁ h₂) (by decide)

end SingBoxPython.Sync
