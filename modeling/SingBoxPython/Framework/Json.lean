import SingBoxPython.Framework.Decimal
import SingBoxPython.Framework.Delimiter
import SingBoxPython.Framework.Dictionary

/-!
# JSON texts

A reader and a writer of JSON texts, with the points in which implementations differ as
parameters, and the round trip from the writer to the reader.
-/

namespace SingBoxPython.Framework

/-- A JSON value.  A number without fraction and exponent is read as an integer; any other keeps
its literal. -/
inductive Json
  | null
  | bool (b : Bool)
  | int (i : Int)
  | float (literal : Text)
  | string (t : Text)
  | array (items : List Json)
  | object (members : List (Text × Json))

namespace Json

/-- The value of a key among the members of an object, of which the last one counts. -/
def valueOf (members : List (Text × Json)) (key : Text) : Option Json :=
  members.reverse.lookup key

/-! ## Reading -/

/-- What a reader decides for itself: the names it takes for numbers, the character it puts for an
escaped surrogate that is alone, where it has one, and how deep values may be nested. -/
structure Dialect where
  constants : List Text
  replacement : Option Char
  maxDepth : Nat

def isSpace (c : Char) : Bool :=
  c = ' ' || c = '\t' || c = '\n' || c = '\r'

def skipSpace (t : Text) : Text :=
  t.dropWhile isSpace

def hexDigits : Text :=
  "0123456789abcdef".toList

def hexValue (c : Char) : Option Nat :=
  hexDigits.idxOf? c.toLower

def readHex4 : Text → Option (Nat × Text)
  | a :: b :: c :: d :: t =>
      match hexValue a, hexValue b, hexValue c, hexValue d with
      | some a, some b, some c, some d => some (((a * 16 + b) * 16 + c) * 16 + d, t)
      | _, _, _, _ => none
  | _ => none

def readLowSurrogate (high : Nat) : Text → Option (Char × Text)
  | '\\' :: 'u' :: t =>
      match readHex4 t with
      | some (low, t) =>
          if high < 0xDC00 ∧ 0xDC00 ≤ low ∧ low < 0xE000 then
            some (Char.ofNat (0x10000 + (high - 0xD800) * 0x400 + (low - 0xDC00)), t)
          else none
      | none => none
  | _ => none

def readUnicode (d : Dialect) (t : Text) : Option (Char × Text) :=
  match readHex4 t with
  | none => none
  | some (n, t) =>
      if n < 0xD800 ∨ 0xE000 ≤ n then some (Char.ofNat n, t)
      else (readLowSurrogate n t).or (d.replacement.map fun c => (c, t))

/-- The letters after a backslash that stand for one character. -/
def escapeLetters : List (Char × Char) :=
  [('"', '"'), ('\\', '\\'), ('/', '/'), ('b', '\x08'), ('f', '\x0c'), ('n', '\n'), ('r', '\r'),
    ('t', '\t')]

def readEscape (d : Dialect) : Text → Option (Char × Text)
  | [] => none
  | c :: t =>
      if c = 'u' then readUnicode d t else (escapeLetters.lookup c).map fun e => (e, t)

/-- The next character inside a string, or `none` for the closing quotation mark. -/
def readChar (d : Dialect) : Text → Option (Option Char × Text)
  | [] => none
  | c :: t =>
      if c = '"' then some (none, t)
      else if c = '\\' then (readEscape d t).map fun r => (some r.1, r.2)
      else if c.toNat < 0x20 then none
      else some (some c, t)

def readChars (d : Dialect) : Nat → Text → Option (Text × Text)
  | 0, _ => none
  | fuel + 1, t =>
      match readChar d t with
      | none => none
      | some (none, t) => some ([], t)
      | some (some c, t) => (readChars d fuel t).map fun r => (c :: r.1, r.2)

def asciiDigits : DigitTable where
  digit c := if c.isDigit then some (c.toNat - 48) else none
  ascii c h := if_pos h
  dot := rfl
  notSpace c h := by
    have hc : c.isDigit = true := by
      by_contra hno
      rw [if_neg hno] at h
      cases h
    obtain ⟨hlt, hchar⟩ := digitChar_of_isDigit hc
    have hall : ∀ n < 10, Text.isSpace n.digitChar = false := by decide
    rw [← hchar]
    exact hall _ hlt

/-- The digits of the integer part: a zero alone, or a run that begins with another digit. -/
def readInteger : Text → Option (Text × Text)
  | '0' :: t => some (['0'], t)
  | t => readRun Char.isDigit t

def readFraction : Text → Text × Text
  | '.' :: t =>
      match readRun Char.isDigit t with
      | some (digits, t) => ('.' :: digits, t)
      | none => ([], '.' :: t)
  | t => ([], t)

def readSign : Text → Text × Text
  | '-' :: t => (['-'], t)
  | '+' :: t => (['+'], t)
  | t => ([], t)

def readExponent : Text → Text × Text
  | e :: t =>
      if e = 'e' ∨ e = 'E' then
        match readRun Char.isDigit (readSign t).2 with
        | some (digits, rest) => (e :: (readSign t).1 ++ digits, rest)
        | none => ([], e :: t)
      else ([], e :: t)
  | [] => ([], [])

def number (negative : Bool) (digits fraction exponent : Text) : Json :=
  if fraction = [] ∧ exponent = [] then
    .int (if negative then -(asciiDigits.value digits : Int) else asciiDigits.value digits)
  else .float ((if negative then ['-'] else []) ++ digits ++ fraction ++ exponent)

def readUnsigned (negative : Bool) (t : Text) : Option (Json × Text) :=
  (readInteger t).map fun (digits, t) =>
    (number negative digits (readFraction t).1 (readExponent (readFraction t).2).1,
      (readExponent (readFraction t).2).2)

def readNumber : Text → Option (Json × Text)
  | '-' :: t => readUnsigned true t
  | t => readUnsigned false t

/-- The first of the named values that the text begins with. -/
def readName (names : List (Text × Json)) (t : Text) : Option (Json × Text) :=
  names.findSome? fun (name, j) => (expect name t).map fun rest => (j, rest)

def Dialect.names (d : Dialect) : List (Text × Json) :=
  [(['n', 'u', 'l', 'l'], .null), (['t', 'r', 'u', 'e'], .bool true),
      (['f', 'a', 'l', 's', 'e'], .bool false)] ++
    d.constants.map fun name => (name, .float name)

mutual

/-- A value; white space before it is skipped. -/
def readValue (d : Dialect) : Nat → Nat → Text → Option (Json × Text)
  | 0, _, _ => none
  | fuel + 1, depth, t =>
      match skipSpace t with
      | '"' :: t => (readChars d fuel t).map fun r => (.string r.1, r.2)
      | '[' :: t =>
          match depth, skipSpace t with
          | 0, _ => none
          | _ + 1, ']' :: t => some (.array [], t)
          | depth + 1, t => (readItems d fuel depth t).map fun r => (.array r.1, r.2)
      | '\x7b' :: t =>
          match depth, skipSpace t with
          | 0, _ => none
          | _ + 1, '\x7d' :: t => some (.object [], t)
          | depth + 1, t => (readMembers d fuel depth t).map fun r => (.object r.1, r.2)
      | t => (readNumber t).or (readName d.names t)

def readItems (d : Dialect) : Nat → Nat → Text → Option (List Json × Text)
  | 0, _, _ => none
  | fuel + 1, depth, t =>
      match readValue d fuel depth t with
      | none => none
      | some (j, t) =>
          match skipSpace t with
          | ',' :: t => (readItems d fuel depth t).map fun r => (j :: r.1, r.2)
          | ']' :: t => some ([j], t)
          | _ => none

def readMembers (d : Dialect) : Nat → Nat → Text → Option (List (Text × Json) × Text)
  | 0, _, _ => none
  | fuel + 1, depth, t =>
      match skipSpace t with
      | '"' :: t =>
          match readChars d fuel t with
          | none => none
          | some (name, t) =>
              match skipSpace t with
              | ':' :: t =>
                  match readValue d fuel depth t with
                  | none => none
                  | some (j, t) =>
                      match skipSpace t with
                      | ',' :: t =>
                          (readMembers d fuel depth t).map fun r => ((name, j) :: r.1, r.2)
                      | '\x7d' :: t => some ([(name, j)], t)
                      | _ => none
              | _ => none
      | _ => none

end

def read (d : Dialect) (t : Text) : Option Json :=
  match readValue d (t.length + 1) d.maxDepth t with
  | some (j, rest) => if skipSpace rest = [] then some j else none
  | none => none

/-! ## Writing -/

/-- What a writer decides for itself: the characters it writes as `\u` escapes, among them the
control characters, and the spaces after a comma and a colon. -/
structure Style where
  unicode : Char → Bool
  gap : Nat
  control : ∀ c, c.toNat < 0x20 → unicode c = true
  bmp : ∀ c, unicode c = true → c.toNat < 0x10000

def shortEscapes : List (Char × Char) :=
  [('"', '"'), ('\\', '\\'), ('\x08', 'b'), ('\x0c', 'f'), ('\n', 'n'), ('\r', 'r'), ('\t', 't')]

def hexDigit (n : Nat) : Char :=
  hexDigits.getD (n % 16) '0'

def hex4 (n : Nat) : Text :=
  [hexDigit (n / 4096), hexDigit (n / 256), hexDigit (n / 16), hexDigit n]

def writeInt (i : Int) : Text :=
  if i < 0 then '-' :: numeral i.natAbs else numeral i.natAbs

namespace Style

variable (s : Style)

def writeChar (c : Char) : Text :=
  match shortEscapes.lookup c with
  | some letter => ['\\', letter]
  | none => if s.unicode c then '\\' :: 'u' :: hex4 c.toNat else [c]

def writeString (t : Text) : Text :=
  '"' :: t.flatMap s.writeChar ++ ['"']

def comma : Text :=
  ',' :: List.replicate s.gap ' '

def colon : Text :=
  ':' :: List.replicate s.gap ' '

mutual

def write : Json → Text
  | .null => ['n', 'u', 'l', 'l']
  | .bool true => ['t', 'r', 'u', 'e']
  | .bool false => ['f', 'a', 'l', 's', 'e']
  | .int i => writeInt i
  | .float literal => literal
  | .string t => s.writeString t
  | .array items => '[' :: writeItems items ++ [']']
  | .object members => '\x7b' :: writeMembers members ++ ['\x7d']

def writeItems : List Json → Text
  | [] => []
  | [j] => write j
  | j :: k :: items => write j ++ (s.comma ++ writeItems (k :: items))

def writeMembers : List (Text × Json) → Text
  | [] => []
  | [(name, j)] => s.writeString name ++ (s.colon ++ write j)
  | (name, j) :: m :: members =>
      s.writeString name ++ (s.colon ++ (write j ++ (s.comma ++ writeMembers (m :: members))))

end

end Style

/-! ## Strings -/

private theorem hexValue_hexDigit (n : Nat) : hexValue (hexDigit n) = some (n % 16) := by
  have hall : ∀ d < 16, hexValue (hexDigits.getD d '0') = some d := by decide
  exact hall (n % 16) (Nat.mod_lt n (by decide))

private theorem readHex4_hex4 {n : Nat} (h : n < 0x10000) (t : Text) : readHex4 (hex4 n ++ t) = some
    (n, t) := by
  have hn : ((n / 4096 % 16 * 16 + n / 256 % 16) * 16 + n / 16 % 16) * 16 + n % 16 = n := by omega
  simp only [hex4, List.cons_append, List.nil_append, readHex4, hexValue_hexDigit, hn]

private theorem readUnicode_hex4 (d : Dialect) {c : Char} (h : c.toNat < 0x10000) (t : Text) :
    readUnicode d (hex4 c.toNat ++ t) = some (c, t) := by
  have hvalid : c.toNat < 0xD800 ∨ 0xE000 ≤ c.toNat := by
    rcases c.valid with hlow | ⟨hhigh, -⟩
    · exact .inl hlow
    · exact .inr hhigh
  rw [readUnicode, readHex4_hex4 h]
  simp only [if_pos hvalid, Char.ofNat_toNat]

private theorem readEscape_short (d : Dialect) {c letter : Char}
    (h : shortEscapes.lookup c = some letter)
    (t : Text) : readEscape d (letter :: t) = some (c, t) := by
  have hall : ∀ p ∈ shortEscapes, p.2 ≠ 'u' ∧ escapeLetters.lookup p.2 = some p.1 := by decide
  obtain ⟨hu, hletter⟩ := hall (c, letter) ((lookup_eq_some_iff (by decide)).1 h)
  rw [readEscape, if_neg hu, hletter, Option.map_some]

private theorem readChar_writeChar (d : Dialect) (s : Style) (c : Char) (t : Text) :
    readChar d (s.writeChar c ++ t) = some (some c, t) := by
  rw [Style.writeChar]
  split
  · rename_i letter hshort
    rw [List.cons_append, readChar, if_neg (by decide), if_pos rfl, List.cons_append,
      List.nil_append, readEscape_short d hshort, Option.map_some]
  · rename_i hplain
    split
    · rename_i hunicode
      rw [List.cons_append, readChar, if_neg (by decide), if_pos rfl, List.cons_append, readEscape,
        if_pos rfl, readUnicode_hex4 d (s.bmp c hunicode), Option.map_some]
    · rename_i hunicode
      have hquote : c ≠ '"' := by
        rintro rfl
        cases hplain
      have hbackslash : c ≠ '\\' := by
        rintro rfl
        cases hplain
      have hcontrol : ¬ c.toNat < 0x20 := fun h => hunicode (s.control c h)
      rw [List.cons_append, List.nil_append, readChar, if_neg hquote, if_neg hbackslash,
        if_neg hcontrol]

private theorem readChars_writeString (d : Dialect) (s : Style) {t : Text} {fuel : Nat}
    (h : t.length < fuel) (rest : Text) :
    readChars d fuel (t.flatMap s.writeChar ++ '"' :: rest) = some (t, rest) := by
  induction t generalizing fuel with
  | nil =>
      cases fuel with
      | zero => exact absurd h (Nat.not_lt_zero _)
      | succ fuel => rfl
  | cons c t ih =>
      cases fuel with
      | zero => exact absurd h (Nat.not_lt_zero _)
      | succ fuel =>
          have ht : t.length < fuel := Nat.lt_of_succ_lt_succ h
          rw [List.flatMap_cons, List.append_assoc, readChars, readChar_writeChar]
          simp only [ih ht, Option.map_some]

/-! ## Numbers and names -/

/-- A text before which a number ends. -/
def EndsNumber (t : Text) : Prop :=
  ∀ c ∈ t.head?, c.isDigit = false ∧ c ≠ '.' ∧ c ≠ 'e' ∧ c ≠ 'E'

private theorem readInteger_numeral (n : Nat) {t : Text} (ht : ∀ c ∈ t.head?, c.isDigit = false) :
    readInteger (numeral n ++ t) = some (numeral n, t) := by
  have hnumeral := isNumeral_numeral n
  rcases Nat.eq_zero_or_pos n with rfl | hn
  · rfl
  · have hlead := head?_numeral_ne_zero hn
    cases hcs : numeral n with
    | nil => exact absurd hcs hnumeral.ne_nil
    | cons c cs =>
        rw [hcs] at hlead hnumeral
        have hc : c ≠ '0' := fun h => hlead (congrArg some h)
        rw [List.cons_append, readInteger]
        · rw [← List.cons_append]
          exact readRun_append hnumeral.ne_nil hnumeral.ascii ht
        · intro u heq
          exact hc (List.cons.inj heq).1

private theorem readFraction_of_ends {t : Text} (h : EndsNumber t) : readFraction t = ([], t) := by
  rw [readFraction]
  intro u hu
  exact (h '.' (by rw [hu]; rfl)).2.1 rfl

private theorem readExponent_of_ends {t : Text} (h : EndsNumber t) : readExponent t = ([], t) := by
  cases t with
  | nil => rfl
  | cons e t =>
      have he := h e rfl
      rw [readExponent, if_neg]
      rintro (hlower | hupper)
      · exact he.2.2.1 hlower
      · exact he.2.2.2 hupper

private theorem readUnsigned_numeral (negative : Bool) (n : Nat) {t : Text} (h : EndsNumber t) :
    readUnsigned negative (numeral n ++ t) =
      some (.int (if negative then -(n : Int) else n), t) := by
  rw [readUnsigned, readInteger_numeral n fun c hc => (h c hc).1, Option.map_some]
  simp only [readFraction_of_ends h, readExponent_of_ends h, number, and_self, if_true,
    asciiDigits.value_numeral]

private theorem readNumber_writeInt (i : Int) {t : Text} (h : EndsNumber t) :
    readNumber (writeInt i ++ t) = some (.int i, t) := by
  rw [writeInt]
  split
  · rename_i hneg
    have habs : -(i.natAbs : Int) = i := by omega
    rw [List.cons_append, readNumber, readUnsigned_numeral true _ h, if_pos rfl, habs]
  · rename_i hnonneg
    have habs : (i.natAbs : Int) = i := by omega
    rw [readNumber, readUnsigned_numeral false _ h, if_neg Bool.false_ne_true, habs]
    intro u hu
    have hnumeral := isNumeral_numeral i.natAbs
    cases hcs : numeral i.natAbs with
    | nil => exact hnumeral.ne_nil hcs
    | cons c cs =>
        rw [hcs, List.cons_append] at hu
        have hc : c.isDigit = true := hnumeral.ascii c (by rw [hcs]; exact List.mem_cons_self)
        rw [(List.cons.inj hu).1] at hc
        cases hc

private theorem readNumber_of_not_digit {c : Char} (hdigit : c.isDigit = false) (hminus : c ≠ '-')
    (t : Text) : readNumber (c :: t) = none := by
  have hzero : c ≠ '0' := by
    rintro rfl
    cases hdigit
  rw [readNumber]
  · rw [readUnsigned, readInteger]
    · rw [readRun, List.takeWhile_cons_of_neg (by simp [hdigit]), if_pos rfl]
      rfl
    · exact fun u heq => hzero (List.cons.inj heq).1
  · exact fun u heq => hminus (List.cons.inj heq).1

/-! ## Values -/

/-- The values that are nested at most this deep and have no number with a fraction or an
exponent. -/
def Printable : Nat → Json → Prop
  | _, .null => True
  | _, .bool _ => True
  | _, .int _ => True
  | _, .float _ => False
  | _, .string _ => True
  | 0, .array _ => False
  | 0, .object _ => False
  | d + 1, .array items => ∀ j ∈ items, Printable d j
  | d + 1, .object members => ∀ m ∈ members, Printable d m.2

private theorem skipSpace_replicate (n : Nat) (t : Text) :
    skipSpace (List.replicate n ' ' ++ t) = skipSpace t := by
  rw [skipSpace, List.dropWhile_append_of_pos]
  · rfl
  · intro c hc
    rw [(List.mem_replicate.1 hc).2]
    rfl

private theorem skipSpace_cons {c : Char} (h : isSpace c = false) (t : Text) :
    skipSpace (c :: t) = c :: t := by
  rw [skipSpace, List.dropWhile_cons_of_neg (by simp [h])]

variable (d : Dialect) (s : Style)

private theorem readValue_gap (fuel depth n : Nat) (t : Text) :
    readValue d fuel depth (List.replicate n ' ' ++ t) = readValue d fuel depth t := by
  cases fuel with
  | zero => rfl
  | succ fuel => rw [readValue, readValue, skipSpace_replicate]

private theorem readItems_gap (fuel depth n : Nat) (t : Text) :
    readItems d fuel depth (List.replicate n ' ' ++ t) = readItems d fuel depth t := by
  cases fuel with
  | zero => rfl
  | succ fuel => rw [readItems, readItems, readValue_gap]

private theorem readMembers_gap (fuel depth n : Nat) (t : Text) :
    readMembers d fuel depth (List.replicate n ' ' ++ t) = readMembers d fuel depth t := by
  cases fuel with
  | zero => rfl
  | succ fuel => rw [readMembers, readMembers, skipSpace_replicate]

private theorem readValue_items (fuel depth : Nat) {c : Char} (hspace : isSpace c = false)
    (hclose : c ≠ ']') (t : Text) :
    readValue d (fuel + 1) (depth + 1) ('[' :: c :: t) =
      (readItems d fuel depth (c :: t)).map fun r => (.array r.1, r.2) := by
  rw [readValue, skipSpace_cons (by decide)]
  split
  · rename_i heq
    cases heq
  · rename_i heq
    cases heq
    rw [skipSpace_cons hspace]
    split
    · contradiction
    · rename_i heq
      exact absurd (List.cons.inj heq).1 hclose
    · rename_i hdepth _
      cases hdepth
      rfl
  · rename_i heq
    cases heq
  · rename_i hne _
    exact absurd rfl (hne _)

private theorem readValue_members (fuel depth : Nat) (t : Text) :
    readValue d (fuel + 1) (depth + 1) ('\x7b' :: '"' :: t) =
      (readMembers d fuel depth ('"' :: t)).map fun r => (.object r.1, r.2) := by
  rw [readValue, skipSpace_cons (by decide)]
  rfl

private theorem readItems_comma {fuel depth : Nat} {t u v : Text} {j : Json}
    (hvalue : readValue d fuel depth t = some (j, u)) (hcomma : skipSpace u = ',' :: v) :
    readItems d (fuel + 1) depth t = (readItems d fuel depth v).map fun r => (j :: r.1, r.2) := by
  rw [readItems, hvalue]
  dsimp only
  rw [hcomma]
  rfl

private theorem readItems_close {fuel depth : Nat} {t u v : Text} {j : Json}
    (hvalue : readValue d fuel depth t = some (j, u)) (hclose : skipSpace u = ']' :: v) :
    readItems d (fuel + 1) depth t = some ([j], v) := by
  rw [readItems, hvalue]
  dsimp only
  rw [hclose]
  rfl

private theorem readMembers_comma {fuel depth : Nat} {t u v w : Text} {name : Text} {j : Json}
    (hname : readChars d fuel t = some (name, ':' :: u))
    (hvalue : readValue d fuel depth u = some (j, v)) (hcomma : skipSpace v = ',' :: w) :
    readMembers d (fuel + 1) depth ('"' :: t) =
      (readMembers d fuel depth w).map fun r => ((name, j) :: r.1, r.2) := by
  rw [readMembers, skipSpace_cons (by decide)]
  simp only [hname, skipSpace_cons (show isSpace ':' = false by decide), hvalue, hcomma]

private theorem readMembers_close {fuel depth : Nat} {t u v w : Text} {name : Text} {j : Json}
    (hname : readChars d fuel t = some (name, ':' :: u))
    (hvalue : readValue d fuel depth u = some (j, v)) (hclose : skipSpace v = '\x7d' :: w) :
    readMembers d (fuel + 1) depth ('"' :: t) = some ([(name, j)], w) := by
  rw [readMembers, skipSpace_cons (by decide)]
  simp only [hname, skipSpace_cons (show isSpace ':' = false by decide), hvalue, hclose]

private theorem readValue_scalar (fuel depth : Nat) {c : Char} (hspace : isSpace c = false)
    (hquote : c ≠ '"') (hbracket : c ≠ '[') (hbrace : c ≠ '\x7b') (t : Text) :
    readValue d (fuel + 1) depth (c :: t) =
      (readNumber (c :: t)).or (readName d.names (c :: t)) := by
  rw [readValue, skipSpace_cons hspace]
  split
  · rename_i heq
    exact absurd (List.cons.inj heq).1 hquote
  · rename_i heq
    exact absurd (List.cons.inj heq).1 hbracket
  · rename_i heq
    exact absurd (List.cons.inj heq).1 hbrace
  · rfl

private theorem readValue_name (fuel depth : Nat) {c : Char} {name : Text} {j : Json}
    (hspace : isSpace c = false) (hquote : c ≠ '"') (hbracket : c ≠ '[') (hbrace : c ≠ '\x7b')
    (hdigit : c.isDigit = false) (hminus : c ≠ '-') (t : Text)
    (hname : readName d.names (c :: name ++ t) = some (j, t)) :
    readValue d (fuel + 1) depth (c :: name ++ t) = some (j, t) := by
  rw [List.cons_append] at *
  rw [readValue_scalar d fuel depth hspace hquote hbracket hbrace,
    readNumber_of_not_digit hdigit hminus, hname]
  rfl

private theorem head_writeInt (i : Int) :
    ∃ c u, writeInt i = c :: u ∧ isSpace c = false ∧ c ∉ ['"', '[', ']', '\x7b'] := by
  have hall : ∀ n < 10, isSpace n.digitChar = false ∧ n.digitChar ∉ ['"', '[', ']', '\x7b'] := by
    decide
  rw [writeInt]
  split
  · exact ⟨'-', _, rfl, by decide, by decide⟩
  · have hnumeral := isNumeral_numeral i.natAbs
    cases hcs : numeral i.natAbs with
    | nil => exact absurd hcs hnumeral.ne_nil
    | cons c u =>
        have hc : c.isDigit = true := hnumeral.ascii c (by rw [hcs]; exact List.mem_cons_self)
        obtain ⟨hlt, hchar⟩ := digitChar_of_isDigit hc
        have hdigit := hall _ hlt
        rw [hchar] at hdigit
        exact ⟨c, u, rfl, hdigit⟩

private theorem readValue_int (fuel depth : Nat) (i : Int) {t : Text} (h : EndsNumber t) :
    readValue d (fuel + 1) depth (writeInt i ++ t) = some (.int i, t) := by
  have hnumber := readNumber_writeInt i h
  obtain ⟨c, u, hcu, hspace, hc⟩ := head_writeInt i
  simp only [List.mem_cons, List.not_mem_nil, or_false, not_or] at hc
  rw [hcu, List.cons_append] at hnumber ⊢
  rw [readValue_scalar d fuel depth hspace hc.1 hc.2.1 hc.2.2.2, hnumber]
  rfl

private theorem head_write {depth : Nat} {j : Json} (h : Printable depth j) :
    ∃ c u, s.write j = c :: u ∧ isSpace c = false ∧ c ≠ ']' := by
  cases j with
  | null => exact ⟨'n', _, rfl, by decide, by decide⟩
  | bool b =>
      cases b with
      | true => exact ⟨'t', _, rfl, by decide, by decide⟩
      | false => exact ⟨'f', _, rfl, by decide, by decide⟩
  | int i =>
      obtain ⟨c, u, hcu, hspace, hc⟩ := head_writeInt i
      refine ⟨c, u, hcu, hspace, ?_⟩
      rintro rfl
      exact hc (by decide)
  | float literal => simp [Printable] at h
  | string t => exact ⟨'"', _, rfl, by decide, by decide⟩
  | array items => exact ⟨'[', _, rfl, by decide, by decide⟩
  | object members => exact ⟨'\x7b', _, rfl, by decide, by decide⟩

private theorem head_writeItems {depth : Nat} {j : Json} (h : Printable depth j)
    (items : List Json) :
    ∃ c u, s.writeItems (j :: items) = c :: u ∧ isSpace c = false ∧ c ≠ ']' := by
  obtain ⟨c, u, hcu, hc⟩ := head_write s h
  cases items with
  | nil => exact ⟨c, u, hcu, hc⟩
  | cons k items =>
      rw [Style.writeItems, hcu]
      exact ⟨c, _, rfl, hc⟩

private theorem head_writeMembers (m : Text × Json) (members : List (Text × Json)) :
    ∃ u, s.writeMembers (m :: members) = '"' :: u := by
  cases members with
  | nil => exact ⟨_, rfl⟩
  | cons n members => exact ⟨_, rfl⟩

private theorem length_le_flatMap_writeChar (t : Text) : t.length ≤
    (t.flatMap s.writeChar).length := by
  induction t with
  | nil => exact Nat.le_refl 0
  | cons c t ih =>
      have hc : 1 ≤ (s.writeChar c).length := by
        rw [Style.writeChar]
        split
        · exact Nat.le_add_left 1 1
        · split <;> simp
      rw [List.flatMap_cons, List.length_append, List.length_cons]
      omega

/-- Reading what was written, for values, items and members with enough fuel. -/
structure ReadsBack (fuel : Nat) : Prop where
  value : ∀ j depth rest, Printable depth j → (s.write j).length < fuel → EndsNumber rest →
    readValue d fuel depth (s.write j ++ rest) = some (j, rest)
  items : ∀ j items depth rest, (∀ k ∈ j :: items, Printable depth k) →
    (s.writeItems (j :: items)).length + 1 < fuel →
      readItems d fuel depth (s.writeItems (j :: items) ++ ']' :: rest) = some (j :: items, rest)
  members : ∀ m members depth rest, (∀ n ∈ m :: members, Printable depth n.2) →
    (s.writeMembers (m :: members)).length + 1 < fuel →
      readMembers d fuel depth (s.writeMembers (m :: members) ++ '\x7d' :: rest) =
        some (m :: members, rest)

variable {d s}

private theorem endsNumber_nil : EndsNumber [] := by
  intro c hc
  cases hc

private theorem endsNumber_cons {c : Char}
    (h : c.isDigit = false ∧ c ≠ '.' ∧ c ≠ 'e' ∧ c ≠ 'E') (t : Text) : EndsNumber (c :: t) := by
  intro e he
  cases he
  exact h

private theorem ReadsBack.succ_value {fuel : Nat} (ih : ReadsBack d s fuel) (j : Json) (depth : Nat)
    (rest : Text) (hj : Printable depth j) (hfuel : (s.write j).length < fuel + 1)
    (hrest : EndsNumber rest) :
    readValue d (fuel + 1) depth (s.write j ++ rest) = some (j, rest) := by
  cases j with
  | null =>
      rw [Style.write]
      exact readValue_name d fuel depth (by decide) (by decide) (by decide) (by decide) (by decide)
        (by decide) rest (by simp [readName, Dialect.names, expect])
  | bool b =>
      cases b with
      | true =>
          rw [Style.write]
          exact readValue_name d fuel depth (by decide) (by decide) (by decide) (by decide)
            (by decide) (by decide) rest (by simp [readName, Dialect.names, expect])
      | false =>
          rw [Style.write]
          exact readValue_name d fuel depth (by decide) (by decide) (by decide) (by decide)
            (by decide) (by decide) rest (by simp [readName, Dialect.names, expect])
  | int i =>
      rw [Style.write]
      exact readValue_int d fuel depth i hrest
  | float literal => simp [Printable] at hj
  | string t =>
      have hlength := length_le_flatMap_writeChar s t
      rw [Style.write, Style.writeString, List.length_append, List.length_cons,
        List.length_singleton] at hfuel
      rw [Style.write, Style.writeString, List.append_assoc, List.cons_append, readValue,
        skipSpace_cons (by decide)]
      simp only [List.singleton_append]
      rw [readChars_writeString d s (by omega), Option.map_some]
  | array items =>
      cases depth with
      | zero => simp [Printable] at hj
      | succ depth =>
          rw [Printable] at hj
          rw [Style.write, List.length_append, List.length_cons, List.length_singleton] at hfuel
          rw [Style.write, List.append_assoc, List.cons_append, List.singleton_append]
          cases items with
          | nil => rfl
          | cons k items =>
              obtain ⟨c, u, hcu, hspace, hclose⟩ :=
                head_writeItems s (hj k List.mem_cons_self) items
              have hitems := ih.items k items depth rest hj (by omega)
              rw [hcu, List.cons_append] at hitems ⊢
              rw [readValue_items d fuel depth hspace hclose, hitems, Option.map_some]
  | object members =>
      cases depth with
      | zero => simp [Printable] at hj
      | succ depth =>
          rw [Printable] at hj
          rw [Style.write, List.length_append, List.length_cons, List.length_singleton] at hfuel
          rw [Style.write, List.append_assoc, List.cons_append, List.singleton_append]
          cases members with
          | nil => rfl
          | cons m members =>
              obtain ⟨u, hu⟩ := head_writeMembers s m members
              have hmembers := ih.members m members depth rest hj (by omega)
              rw [hu, List.cons_append] at hmembers ⊢
              rw [readValue_members, hmembers, Option.map_some]

private theorem ReadsBack.succ_items {fuel : Nat} (ih : ReadsBack d s fuel) (j : Json)
    (items : List Json) (depth : Nat) (rest : Text) (hj : ∀ k ∈ j :: items, Printable depth k)
    (hfuel : (s.writeItems (j :: items)).length + 1 < fuel + 1) :
    readItems d (fuel + 1) depth (s.writeItems (j :: items) ++ ']' :: rest) =
      some (j :: items, rest) := by
  have hhead := hj j List.mem_cons_self
  cases items with
  | nil =>
      rw [Style.writeItems] at hfuel ⊢
      exact readItems_close d (ih.value j depth _ hhead (by omega) (endsNumber_cons (by decide) rest))
        (skipSpace_cons (by decide) rest)
  | cons k items =>
      rw [Style.writeItems, Style.comma] at hfuel ⊢
      simp only [List.length_append, List.length_cons] at hfuel
      simp only [List.append_assoc, List.cons_append]
      have hvalue := ih.value j depth
        (',' :: (List.replicate s.gap ' ' ++ (s.writeItems (k :: items) ++ ']' :: rest))) hhead
        (by omega) (endsNumber_cons (by decide) _)
      have hrest := ih.items k items depth rest (fun l hl => hj l (List.mem_cons_of_mem j hl))
        (by omega)
      rw [readItems_comma d hvalue (skipSpace_cons (by decide) _), readItems_gap, hrest,
        Option.map_some]

private theorem ReadsBack.succ_members {fuel : Nat} (ih : ReadsBack d s fuel) (m : Text × Json)
    (members : List (Text × Json)) (depth : Nat) (rest : Text)
    (hm : ∀ n ∈ m :: members, Printable depth n.2)
    (hfuel : (s.writeMembers (m :: members)).length + 1 < fuel + 1) :
    readMembers d (fuel + 1) depth (s.writeMembers (m :: members) ++ '\x7d' :: rest) =
      some (m :: members, rest) := by
  obtain ⟨name, j⟩ := m
  have hhead : Printable depth j := hm (name, j) List.mem_cons_self
  have hlength := length_le_flatMap_writeChar s name
  cases members with
  | nil =>
      rw [Style.writeMembers, Style.writeString, Style.colon] at hfuel ⊢
      simp only [List.length_append, List.length_cons] at hfuel
      simp only [List.append_assoc, List.cons_append, List.nil_append]
      refine readMembers_close d (readChars_writeString d s (by omega) _) ?_
        (skipSpace_cons (by decide) rest)
      rw [readValue_gap]
      exact ih.value j depth _ hhead (by omega) (endsNumber_cons (by decide) rest)
  | cons n members =>
      rw [Style.writeMembers, Style.writeString, Style.colon, Style.comma] at hfuel ⊢
      simp only [List.length_append, List.length_cons] at hfuel
      simp only [List.append_assoc, List.cons_append, List.nil_append]
      have hvalue := ih.value j depth
        (',' :: (List.replicate s.gap ' ' ++ (s.writeMembers (n :: members) ++ '\x7d' :: rest)))
        hhead (by omega) (endsNumber_cons (by decide) _)
      have hrest := ih.members n members depth rest (fun l hl => hm l (List.mem_cons_of_mem _ hl))
        (by omega)
      rw [readMembers_comma d (readChars_writeString d s (by omega) _)
        ((readValue_gap d fuel depth s.gap _).trans hvalue) (skipSpace_cons (by decide) _),
        readMembers_gap, hrest, Option.map_some]

variable (d s) in
private theorem readsBack (fuel : Nat) : ReadsBack d s fuel := by
  induction fuel with
  | zero =>
      refine ⟨?_, ?_, ?_⟩
      · intro j depth rest _ hfuel
        exact absurd hfuel (Nat.not_lt_zero _)
      · intro j items depth rest _ hfuel
        exact absurd hfuel (Nat.not_lt_zero _)
      · intro m members depth rest _ hfuel
        exact absurd hfuel (Nat.not_lt_zero _)
  | succ fuel ih => exact ⟨ih.succ_value, ih.succ_items, ih.succ_members⟩

/-- What a writer writes, every reader reads as the same value. -/
theorem read_write {j : Json} (h : Printable d.maxDepth j) : read d (s.write j) = some j := by
  have hvalue := (readsBack d s ((s.write j).length + 1)).value j d.maxDepth [] h
    (Nat.lt_succ_self _) endsNumber_nil
  rw [List.append_nil] at hvalue
  rw [read, hvalue]
  rfl

theorem Printable.mono {n m : Nat} (hnm : n ≤ m) {j : Json} (h : Printable n j) :
    Printable m j := by
  induction n generalizing m j with
  | zero => cases j <;> cases m <;> simp_all [Printable]
  | succ n ih =>
      obtain ⟨m, rfl⟩ : ∃ k, m = k + 1 := ⟨m - 1, by omega⟩
      cases j with
      | array items =>
          rw [Printable] at h ⊢
          exact fun j hj => ih (by omega) (h j hj)
      | object members =>
          rw [Printable] at h ⊢
          exact fun p hp => ih (by omega) (h p hp)
      | float literal => simp [Printable] at h
      | _ => simp [Printable]

/-! ## No control characters -/

def NoControl (t : Text) : Prop :=
  ∀ c ∈ t, 0x20 ≤ c.toNat

theorem noControl_append {t u : Text} (ht : NoControl t) (hu : NoControl u) : NoControl (t ++ u) := by
  intro c hc
  rcases List.mem_append.1 hc with hc | hc
  · exact ht c hc
  · exact hu c hc

private theorem noControl_cons {c : Char} (hc : 0x20 ≤ c.toNat) {t : Text} (ht : NoControl t) :
    NoControl (c :: t) :=
  noControl_append (t := [c]) (by simpa [NoControl] using hc) ht

private theorem noControl_gap {c : Char} (hc : 0x20 ≤ c.toNat) (n : Nat) :
    NoControl (c :: List.replicate n ' ') := by
  refine noControl_cons hc ?_
  intro e he
  rw [(List.mem_replicate.1 he).2]
  decide

private theorem noControl_hex4 (n : Nat) : NoControl (hex4 n) := by
  have hall : ∀ d < 16, 0x20 ≤ (hexDigits.getD d '0').toNat := by decide
  intro c hc
  simp only [hex4, List.mem_cons, List.not_mem_nil, or_false] at hc
  rcases hc with rfl | rfl | rfl | rfl <;> exact hall _ (Nat.mod_lt _ (by decide))

private theorem noControl_writeChar (c : Char) : NoControl (s.writeChar c) := by
  rw [Style.writeChar]
  split
  · rename_i letter hshort
    have hall : ∀ p ∈ shortEscapes, 0x20 ≤ p.2.toNat := by decide
    have hletter := hall (c, letter) ((lookup_eq_some_iff (by decide)).1 hshort)
    exact noControl_cons (by decide) (noControl_cons hletter (by simp [NoControl]))
  · split
    · exact noControl_cons (by decide) (noControl_cons (by decide) (noControl_hex4 _))
    · rename_i hunicode
      intro e he
      rw [List.mem_singleton.1 he]
      exact Nat.le_of_not_lt fun hlt => hunicode (s.control c hlt)

private theorem noControl_writeString (t : Text) : NoControl (s.writeString t) := by
  refine noControl_append (noControl_cons (by decide) ?_) (by simp [NoControl])
  intro e he
  obtain ⟨c, -, he⟩ := List.mem_flatMap.1 he
  exact noControl_writeChar c e he

theorem noControl_writeInt (i : Int) : NoControl (writeInt i) := by
  have hnumeral : NoControl (numeral i.natAbs) := by
    intro c hc
    obtain ⟨hlt, hchar⟩ := digitChar_of_isDigit ((isNumeral_numeral i.natAbs).ascii c hc)
    have hall : ∀ d < 10, 0x20 ≤ d.digitChar.toNat := by decide
    rw [← hchar]
    exact hall _ hlt
  rw [writeInt]
  split
  · exact noControl_cons (by decide) hnumeral
  · exact hnumeral

private theorem noControl_writeItems {items : List Json} (h : ∀ j ∈ items, NoControl (s.write j)) :
    NoControl (s.writeItems items) := by
  induction items with
  | nil => exact fun c hc => absurd hc List.not_mem_nil
  | cons j items ih =>
      have hj := h j List.mem_cons_self
      cases items with
      | nil => exact hj
      | cons k items =>
          rw [Style.writeItems]
          exact noControl_append hj (noControl_append (noControl_gap (by decide) _)
            (ih fun l hl => h l (List.mem_cons_of_mem j hl)))

private theorem noControl_writeMembers {members : List (Text × Json)}
    (h : ∀ m ∈ members, NoControl (s.write m.2)) : NoControl (s.writeMembers members) := by
  induction members with
  | nil => exact fun c hc => absurd hc List.not_mem_nil
  | cons m members ih =>
      obtain ⟨name, j⟩ := m
      have hj : NoControl (s.write j) := h (name, j) List.mem_cons_self
      have hname := noControl_append (noControl_writeString (s := s) name)
        (noControl_gap (by decide : 0x20 ≤ ':'.toNat) s.gap)
      cases members with
      | nil =>
          rw [Style.writeMembers, Style.colon, ← List.append_assoc]
          exact noControl_append hname hj
      | cons n members =>
          rw [Style.writeMembers, Style.colon, ← List.append_assoc]
          exact noControl_append hname (noControl_append hj
            (noControl_append (noControl_gap (by decide) _)
              (ih fun l hl => h l (List.mem_cons_of_mem _ hl))))

/-- A written text has no control characters, whatever the strings in it have. -/
theorem noControl_write {depth : Nat} {j : Json} (h : Printable depth j) :
    NoControl (s.write j) := by
  induction depth generalizing j with
  | zero =>
      cases j with
      | null => simp [Style.write, NoControl]
      | bool b => cases b <;> simp [Style.write, NoControl]
      | int i => exact noControl_writeInt i
      | string t => exact noControl_writeString t
      | _ => simp [Printable] at h
  | succ depth ih =>
      cases j with
      | null => simp [Style.write, NoControl]
      | bool b => cases b <;> simp [Style.write, NoControl]
      | int i => exact noControl_writeInt i
      | float literal => simp [Printable] at h
      | string t => exact noControl_writeString t
      | array items =>
          rw [Printable] at h
          rw [Style.write]
          exact noControl_append (noControl_cons (by decide)
            (noControl_writeItems fun j hj => ih (h j hj))) (by simp [NoControl])
      | object members =>
          rw [Printable] at h
          rw [Style.write]
          exact noControl_append (noControl_cons (by decide)
            (noControl_writeMembers fun m hm => ih (h m hm))) (by simp [NoControl])

end Json

end SingBoxPython.Framework
