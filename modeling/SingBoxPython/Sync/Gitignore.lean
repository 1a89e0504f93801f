import SingBoxPython.Sync.Command

/-!
# Ignore files

Which paths of a working tree git ignores: the patterns of the `.gitignore` files, as git reads and
matches them byte by byte.
-/

namespace SingBoxPython.Sync
open Framework

/-! ## Patterns -/

inductive SetItem
  | range (first last : Char)
  | posix (name : Text)
  deriving DecidableEq

inductive Token
  | char (c : Char)
  | question
  | star
  | set (negated : Bool) (items : List SetItem)
  /-- A `**` between slashes, with the slash after it. -/
  | directories
  /-- A `**` at the end. -/
  | anything
  /-- A pattern that is broken here and matches nothing. -/
  | never
  deriving DecidableEq

def posixClass (name : Text) (c : Char) : Bool :=
  let graph := decide (33 ≤ c.toNat ∧ c.toNat ≤ 126)
  match String.ofList name with
  | "alnum" => c.isAlphanum
  | "alpha" => c.isAlpha
  | "blank" => c == ' ' || c == '\t'
  | "cntrl" => decide (c.toNat < 32 ∨ c.toNat = 127)
  | "digit" => c.isDigit
  | "graph" => graph
  | "lower" => c.isLower
  | "print" => graph || c == ' '
  | "punct" => graph && !c.isAlphanum
  | "space" => c == ' ' || decide (9 ≤ c.toNat ∧ c.toNat ≤ 13)
  | "upper" => c.isUpper
  | "xdigit" => c.isDigit || decide ('a' ≤ c ∧ c ≤ 'f') || decide ('A' ≤ c ∧ c ≤ 'F')
  | _ => false

def SetItem.accepts : SetItem → Char → Bool
  | .range first last, c => decide (first ≤ c) && decide (c ≤ last)
  | .posix name, c => posixClass name c

/-- Some end of the text satisfies `p`, where no character before it is a stop. -/
def anyTail (stop : Char → Bool) (p : Text → Bool) : Text → Bool
  | [] => p []
  | c :: t => p (c :: t) || (!stop c && anyTail stop p t)

/-- Some end of the text that follows a slash satisfies `p`. -/
def afterSlash (p : Text → Bool) : Text → Bool
  | [] => false
  | c :: t => (c == '/' && p t) || afterSlash p t

def headTail (p : Char → Bool) (q : Text → Bool) : Text → Bool
  | [] => false
  | c :: t => p c && q t

def globMatch : List Token → Text → Bool
  | [], t => t.isEmpty
  | .char c :: tokens, t => headTail (· == c) (globMatch tokens) t
  | .question :: tokens, t => headTail (· != '/') (globMatch tokens) t
  | .set negated items :: tokens, t =>
      headTail (fun c => c != '/' && (items.any (·.accepts c)) != negated) (globMatch tokens) t
  | .star :: tokens, t => anyTail (· == '/') (globMatch tokens) t
  | .directories :: tokens, t => globMatch tokens t || afterSlash (globMatch tokens) t
  | .anything :: tokens, t => anyTail (fun _ => false) (globMatch tokens) t
  | .never :: _, _ => false

/-! ### Reading a pattern -/

/-- The end of the brackets, or the next item of them. -/
def closeSet (more : Text → Option (List SetItem × Text)) (item : SetItem) :
    Text → Option (List SetItem × Text)
  | [] => none
  | c :: t =>
      if c = ']' then some ([item], t)
      else (more (c :: t)).map fun (items, rest) => (item :: items, rest)

/-- The name of a class after `[:`, up to `:]`, and the text after it; the inner `none` where the
bracket is an ordinary one. -/
def readPosix (t : Text) : Option (Option (Text × Text)) :=
  match t.dropWhile (· != ']') with
  | [] => none
  | _ :: rest =>
      let inside := t.takeWhile (· != ']')
      if inside.getLast? = some ':' then some (some (inside.dropLast, rest)) else some none

def posixNames : List Text :=
  ["alnum".toList, "alpha".toList, "blank".toList, "cntrl".toList, "digit".toList, "graph".toList,
    "lower".toList, "print".toList, "punct".toList, "space".toList, "upper".toList, "xdigit".toList]

/-- The items of brackets; `previous` is the character that a range may begin with. -/
def setItems : Nat → Option Char → Text → Option (List SetItem × Text)
  | 0, _, _ => none
  | _ + 1, _, [] => none
  | n + 1, previous, c :: t =>
      match c, previous, t with
      | '\\', _, [] => none
      | '\\', _, d :: t => closeSet (setItems n (some d)) (.range d d) t
      | '-', some first, '\\' :: last :: t => closeSet (setItems n none) (.range first last) t
      | '-', some first, last :: t =>
          if last = ']' then closeSet (setItems n (some '-')) (.range '-' '-') (last :: t)
          else if last = '\\' then none
          else closeSet (setItems n none) (.range first last) t
      | '[', _, ':' :: u =>
          match readPosix u with
          | none => none
          | some none => closeSet (setItems n (some '[')) (.range '[' '[') t
          | some (some (name, rest)) =>
              if name ∈ posixNames then closeSet (setItems n none) (.posix name) rest else none
      | c, _, t => closeSet (setItems n (some c)) (.range c c) t

def readSet (t : Text) : Option (Bool × List SetItem × Text) :=
  match t with
  | [] => none
  | c :: u =>
      if c = '!' ∨ c = '^' then (setItems t.length none u).map fun r => (true, r)
      else (setItems t.length none t).map fun r => (false, r)

/-- The tokens of a pattern; `boundary` says that the text before it is empty or ends in a slash. -/
def tokens : Nat → Bool → Text → List Token
  | 0, _, _ => []
  | _ + 1, _, [] => []
  | n + 1, boundary, c :: t =>
      match c with
      | '*' =>
          let rest := t.dropWhile (· == '*')
          if boundary && t.head? == some '*' then
            match rest with
            | [] => [.anything]
            | '/' :: rest => .directories :: tokens n true rest
            | '\\' :: '/' :: rest => .anything :: .char '/' :: tokens n true rest
            | rest => .star :: tokens n false rest
          else .star :: tokens n false rest
      | '?' => .question :: tokens n false t
      | '\\' =>
          match t with
          | [] => [.never]
          | d :: t => .char d :: tokens n (d == '/') t
      | '[' =>
          match readSet t with
          | none => [.never]
          | some (negated, items, rest) => .set negated items :: tokens n false rest
      | c => .char c :: tokens n (c == '/') t

/-! ## Rules -/

structure Rule where
  negated : Bool
  directoryOnly : Bool
  anyLevel : Bool
  pattern : List Token
  deriving DecidableEq

/-- Spaces at the end go, unless a backslash stands before them. -/
def trimSpaces : Text → Text
  | [] => []
  | ['\\'] => ['\\']
  | '\\' :: c :: t => '\\' :: c :: trimSpaces t
  | c :: t => if (c :: t).all (· == ' ') then [] else c :: trimSpaces t

theorem head?_trimSpaces {t : Text} {c : Char} (h : (trimSpaces t).head? = some c) :
    t.head? = some c := by
  rw [trimSpaces.eq_def] at h
  split at h
  · exact h
  · exact h
  · exact h
  · split at h
    · cases h
    · exact h

def parseRule (line : Text) : Rule :=
  let negated := line.head? == some '!'
  let line := if negated then line.drop 1 else line
  let directoryOnly := line.getLast? == some '/'
  let line := if directoryOnly then line.dropLast else line
  let body := if line.head? == some '/' then line.drop 1 else line
  { negated, directoryOnly, anyLevel := !line.contains '/', pattern := tokens body.length true body }

def octets (bytes : Bytes) : Text :=
  bytes.map fun b => Char.ofNat b.toNat

def parseRules (content : Bytes) : List Rule :=
  let content := if content.take 3 = [0xEF, 0xBB, 0xBF] then content.drop 3 else content
  let lines := ((octets content).splitOn '\n').filter fun line =>
    !line.isEmpty && line.head? != some '#'
  lines.map fun line =>
    parseRule (trimSpaces (if line.getLast? == some '\r' then line.dropLast else line))

/-! ### Reading back lines -/

def asciiBytes (t : Text) : Bytes :=
  t.map fun c => UInt8.ofNat c.toNat

private theorem octets_asciiBytes {t : Text} (h : ∀ c ∈ t, c.toNat < 128) : octets
    (asciiBytes t) = t := by
  have hback : ∀ c ∈ t,
      ((fun b : UInt8 => Char.ofNat b.toNat) ∘ fun c : Char => UInt8.ofNat c.toNat) c = id c := by
    intro c hc
    have hlt : c.toNat < 2 ^ 8 := Nat.lt_trans (h c hc) (by decide)
    rw [Function.comp_apply, UInt8.toNat_ofNat', Nat.mod_eq_of_lt hlt, Char.ofNat_toNat, id]
  rw [octets, asciiBytes, List.map_map, List.map_congr_left hback, List.map_id]

private theorem asciiBytes_take_ne {t : Text} (h : ∀ c ∈ t, c.toNat < 128) :
    (asciiBytes t).take 3 ≠ [0xEF, 0xBB, 0xBF] := by
  intro heq
  cases t with
  | nil => cases heq
  | cons c t =>
      have hhead : UInt8.ofNat c.toNat = 0xEF := (List.cons.inj heq).1
      have hlt := h c List.mem_cons_self
      have hnat := congrArg UInt8.toNat hhead
      rw [UInt8.toNat_ofNat', Nat.mod_eq_of_lt (Nat.lt_trans hlt (by decide))] at hnat
      rw [hnat] at hlt
      exact absurd hlt (by decide)

theorem parseRules_unlines {lines : List Text}
    (hascii : ∀ line ∈ lines, ∀ c ∈ line, c.toNat < 128 ∧ c ≠ '\n' ∧ c ≠ '\r')
    (hline : ∀ line ∈ lines, line ≠ [] ∧ line.head? ≠ some '#') :
    parseRules (asciiBytes (Text.unlines lines)) =
      lines.map fun line => parseRule (trimSpaces line) := by
  have hall : ∀ c ∈ Text.unlines lines, c.toNat < 128 := by
    intro c hc
    obtain ⟨line, hmem, hc⟩ := List.mem_flatMap.1 hc
    rcases List.mem_append.1 hc with hc | hc
    · exact (hascii line hmem c hc).1
    · rw [List.mem_singleton.1 hc]
      decide
  have hsplit : (Text.unlines lines).splitOn '\n' = lines ++ [[]] := by
    rw [Text.unlines_eq_join]
    refine List.splitOn_intercalate '\n' ?_ (List.append_ne_nil_of_right_ne_nil _ (by simp))
    intro line hmem
    rcases List.mem_append.1 hmem with hmem | hmem
    · exact fun hc => (hascii line hmem '\n' hc).2.1 rfl
    · rw [List.mem_singleton.1 hmem]
      exact List.not_mem_nil
  have hkeep : lines.filter (fun line => !line.isEmpty && line.head? != some '#') = lines := by
    rw [List.filter_eq_self]
    intro line hmem
    obtain ⟨hne, hhead⟩ := hline line hmem
    simp [hne, hhead]
  have hend : ∀ line ∈ lines,
      parseRule (trimSpaces (if line.getLast? == some '\r' then line.dropLast else line)) =
        parseRule (trimSpaces line) := by
    intro line hmem
    have hlast : (line.getLast? == some '\r') = false := by
      rw [beq_eq_false_iff_ne]
      intro hlast
      exact (hascii line hmem '\r' (List.mem_of_getLast? hlast)).2.2 rfl
    rw [hlast]
    rfl
  rw [parseRules, if_neg (asciiBytes_take_ne hall), octets_asciiBytes hall, hsplit,
    List.filter_append, hkeep, show ([[]] : List Text).filter _ = [] from rfl, List.append_nil]
  exact List.map_congr_left hend

/-! ## What is ignored -/

/-- The rule matches the path, given relative to the directory of the ignore file. -/
def Rule.matches (rule : Rule) (path : List Text) (directory : Bool) : Bool :=
  (!rule.directoryOnly || directory) &&
    globMatch rule.pattern (octets (utf8
      (if rule.anyLevel then path.getLastD [] else Text.join ['/'] path)))

/-- What one ignore file says: its last rule that matches decides. -/
def verdict (rules : List Rule) (path : List Text) (directory : Bool) : Option Bool :=
  (rules.reverse.find? fun rule => rule.matches path directory).map fun rule => !rule.negated

/-- What the ignore files say about the path itself: the deepest one with a rule for it decides. -/
def excluded (rulesAt : List Text → List Rule) (path : List Text) (directory : Bool) : Bool :=
  ((List.range path.length).reverse.findSome? fun k =>
    verdict (rulesAt (path.take k)) (path.drop k) directory).getD false

/-- A file is ignored when it or a directory above it is excluded. -/
def ignoredPath (rulesAt : List Text → List Rule) (path : List Text) : Bool :=
  ((List.range path.length).any fun n => decide (0 < n) && excluded rulesAt (path.take n) true) ||
    excluded rulesAt path false

/-! ## Without negated rules -/

section Plain

variable {rulesAt : List Text → List Rule} {path : List Text} {directory : Bool}

private theorem verdict_of_plain {rules : List Rule} (hplain : ∀ rule ∈ rules, rule.negated = false)
    (path : List Text) (directory : Bool) :
    verdict rules path directory =
      if rules.any (fun rule => rule.matches path directory) then some true else none := by
  rw [verdict]
  cases hfind : rules.reverse.find? fun rule => rule.matches path directory with
  | none =>
      have hnone : rules.any (fun rule => rule.matches path directory) = false := by
        rw [List.any_eq_false]
        intro rule hrule
        exact List.find?_eq_none.1 hfind rule (List.mem_reverse.2 hrule)
      rw [hnone]
      rfl
  | some rule =>
      have hrule : rule ∈ rules := List.mem_reverse.1 (List.mem_of_find?_eq_some hfind)
      have hany : rules.any (fun rule => rule.matches path directory) = true :=
        List.any_eq_true.2 ⟨rule, hrule, List.find?_some (p := fun rule : Rule => rule.matches path directory) hfind⟩
      rw [hany, Option.map_some, hplain rule hrule]
      rfl

private theorem excluded_iff_of_plain (hplain : ∀ dir, ∀ rule ∈ rulesAt dir, rule.negated = false) :
    excluded rulesAt path directory = true ↔
      ∃ k < path.length, ∃ rule ∈ rulesAt (path.take k),
        rule.matches (path.drop k) directory = true := by
  have hverdict : ∀ k b, verdict (rulesAt (path.take k)) (path.drop k) directory = some b ↔
      b = true ∧ ∃ rule ∈ rulesAt (path.take k), rule.matches (path.drop k) directory = true := by
    intro k b
    rw [verdict_of_plain (hplain _), ← List.any_eq_true]
    by_cases hany : (rulesAt (path.take k)).any
        (fun rule => rule.matches (path.drop k) directory) = true
    · rw [if_pos hany]
      simp [hany, eq_comm]
    · rw [if_neg hany]
      simp [hany]
  rw [excluded]
  cases hfind : (List.range path.length).reverse.findSome? fun k =>
      verdict (rulesAt (path.take k)) (path.drop k) directory with
  | none =>
      refine iff_of_false Bool.false_ne_true ?_
      intro h
      obtain ⟨k, hk, hmatch⟩ := h
      have hnone := List.findSome?_eq_none_iff.1 hfind k
        (List.mem_reverse.2 (List.mem_range.2 hk))
      rw [(hverdict k true).2 ⟨rfl, hmatch⟩] at hnone
      cases hnone
  | some b =>
      obtain ⟨k, hk, hsome⟩ := List.exists_of_findSome?_eq_some hfind
      obtain ⟨rfl, hmatch⟩ := (hverdict k b).1 hsome
      exact iff_of_true rfl ⟨k, List.mem_range.1 (List.mem_reverse.1 hk), hmatch⟩

/-- A file below a directory that a rule of the root matches is ignored. -/
theorem ignoredPath_of_rootRule (hplain : ∀ dir, ∀ rule ∈ rulesAt dir, rule.negated = false)
    {above below : List Text} {name : Text} (hbelow : below ≠ []) {rule : Rule}
    (hrule : rule ∈ rulesAt []) (hmatch : rule.matches (above ++ [name]) true = true) :
    ignoredPath rulesAt (above ++ name :: below) = true := by
  have htake : (above ++ name :: below).take (above.length + 1) = above ++ [name] := by
    rw [List.append_cons]
    exact List.take_left' (by simp)
  have hlength : above.length + 1 < (above ++ name :: below).length := by
    rw [List.length_append, List.length_cons]
    have := List.length_pos_of_ne_nil hbelow
    omega
  rw [ignoredPath, Bool.or_eq_true, List.any_eq_true]
  refine .inl ⟨above.length + 1, List.mem_range.2 hlength, ?_⟩
  rw [htake, Bool.and_eq_true, excluded_iff_of_plain hplain]
  exact ⟨by simp, 0, by simp, rule, hrule, hmatch⟩

end Plain

end SingBoxPython.Sync
