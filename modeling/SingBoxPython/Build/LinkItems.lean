import SingBoxPython.Framework.Delimiter
import SingBoxPython.Framework.Text

/-!
# Link items on their way to CMake

`normalize_cgo_link_flags`, `write_cmake_link_items` and `cmake_bracket_argument` of `setup.py`,
the reading of the written file by CMake, and the loop of `CMakeLists.txt` over the items.
-/

namespace SingBoxPython.Build
open Framework

/-! ## Normalizing the flags of a package -/

/-- The characters that a flag may have: all but NUL, CR and LF. -/
def isFlagChar (c : Char) : Bool :=
  c ≠ '\x00' && c ≠ '\r' && c ≠ '\n'

/-- A link item: a non-empty text of such characters. -/
structure LinkItem where
  value : Text
  nonempty : value ≠ []
  oneLine : value.all isFlagChar = true
  deriving DecidableEq

/-- An element of `CgoLDFLAGS` as the JSON decoder gives it: a string, or some other value, of
which only the text of its `repr` is kept. -/
inductive Flag
  | text (value : Text)
  | other (repr : Text)
  deriving DecidableEq

inductive FlagError
  | invalidFlag (packageName : Text) (flag : Flag)
  | noArgument (packageName flag : Text)
  | invalidArgument (packageName flag : Text) (argument : Flag)
  deriving DecidableEq

def FlagError.message (repr : Text → Text) : FlagError → Text
  | .invalidFlag packageName flag =>
      "Invalid cgo linker flag from ".toList ++ packageName ++ ": ".toList ++ flagRepr flag
  | .noArgument packageName flag =>
      "cgo linker option ".toList ++ repr flag ++ " from ".toList ++ packageName ++
        " has no argument".toList
  | .invalidArgument packageName flag argument =>
      "Invalid argument for cgo linker option ".toList ++ repr flag ++ " from ".toList ++
        packageName ++ ": ".toList ++ flagRepr argument
where
  flagRepr : Flag → Text
    | .text value => repr value
    | .other r => r

/-- The two checks made of a flag and of the argument of a grouped option. -/
def Flag.check : Flag → Option LinkItem
  | .text value =>
      if h : value ≠ [] ∧ value.all isFlagChar = true then
        some ⟨value, h.1, h.2⟩
      else none
  | .other _ => none

def cmakeGroupedLinkOptions : List Text :=
  ["-framework".toList, "-lazy_framework".toList, "-reexport_framework".toList,
    "-weak_framework".toList]

def LinkItem.group (flag argument : LinkItem) : LinkItem where
  value := flag.value ++ ' ' :: argument.value
  nonempty := by simp
  oneLine := by
    have hspace : isFlagChar ' ' = true := by decide
    rw [List.all_append, List.all_cons, flag.oneLine, hspace, argument.oneLine]
    rfl

def normalizeCgoLinkFlags (packageName : Text) : List Flag → Except FlagError (List LinkItem)
  | [] => .ok []
  | flag :: rest =>
      match flag.check with
      | none => .error (.invalidFlag packageName flag)
      | some item =>
          if item.value ∈ cmakeGroupedLinkOptions then
            match rest with
            | [] => .error (.noArgument packageName item.value)
            | argument :: rest =>
                match argument.check with
                | none => .error (.invalidArgument packageName item.value argument)
                | some argument => do
                    let items ← normalizeCgoLinkFlags packageName rest
                    return item.group argument :: items
          else do
            let items ← normalizeCgoLinkFlags packageName rest
            return item :: items

/-! ## Writing the file -/

def closer (equals : Nat) : Text :=
  ']' :: List.replicate equals '=' ++ [']']

@[simp] private theorem length_closer (n : Nat) : (closer n).length = n + 2 := by
  simp [closer]

/-- The search loop of `cmake_bracket_argument`: the number of equals signs with which it ends. -/
def bracketEquals (value : Text) (equals : Nat) : Nat :=
  if h : closer equals <:+: value then bracketEquals value (equals + 1) else equals
termination_by value.length - equals
decreasing_by
  have hlen := h.length_le
  rw [length_closer] at hlen
  omega

def cmakeBracketArgument (value : Text) : Text :=
  '[' :: List.replicate (bracketEquals value 0) '=' ++ '[' ::
    (value ++ closer (bracketEquals value 0))

def countVariable : Text := "SINGBOX_CGO_LINK_ITEM_COUNT".toList

def itemVariable (index : Nat) : Text :=
  "SINGBOX_CGO_LINK_ITEM_".toList ++ Nat.toDigits 10 index

def setLine (name argument : Text) : Text :=
  "set(".toList ++ (name ++ (" ".toList ++ (argument ++ ")".toList)))

def writeCmakeLinkItems (items : List LinkItem) : Text :=
  Text.join ['\n']
    (setLine countVariable (Nat.toDigits 10 items.length) ::
      items.zipIdx.map fun p => setLine (itemVariable p.2) (cmakeBracketArgument p.1.value)) ++
    ['\n']

/-! ## Reading it -/

/-- The characters of an unquoted argument. -/
def isUnquoted (c : Char) : Bool :=
  c ∉ " \t\r\n()#\"\\".toList

/-- A bracket argument after its first bracket: it is closed by the first closing bracket with the
same number of equals signs, and its content is taken literally. -/
def readBracket (t : Text) : Option (Text × Text) := do
  let t' ← expect ['['] (t.dropWhile (· = '='))
  splitAtFirst (closer (t.takeWhile (· = '=')).length) t'

def readArgument : Text → Option (Text × Text)
  | '[' :: t => readBracket t
  | t => readRun isUnquoted t

/-- The command `set(<variable> <value>)` and its line ending. -/
def readSet (t : Text) : Option ((Text × Text) × Text) := do
  let t ← expect "set(".toList t
  let (name, t) ← readRun isUnquoted t
  let t ← expect " ".toList t
  let (value, t) ← readArgument t
  let t ← expect ")\n".toList t
  return ((name, value), t)

/-- The commands of a text; text that is left over is an error.  Every command has a character, so
the length of the text is fuel enough. -/
def readCommands : Nat → Text → Option (List (Text × Text))
  | _, [] => some []
  | 0, _ :: _ => none
  | fuel + 1, t => do
      let (command, t) ← readSet t
      let rest ← readCommands fuel t
      return command :: rest

abbrev Variables := Text → Option Text

def assign (vars : Variables) (command : Text × Text) : Variables :=
  Function.update vars command.1 (some command.2)

def includeFile (t : Text) (vars : Variables) : Option Variables :=
  (readCommands t.length t).map (List.foldl assign vars)

inductive FatalError
  | countInvalid
  | itemMissing (index : Nat)
  deriving DecidableEq

def FatalError.message : FatalError → Text
  | .countInvalid => "Generated cgo linker item count is invalid".toList
  | .itemMissing index =>
      "Generated cgo linker item ".toList ++ Nat.toDigits 10 index ++ " is missing".toList

/-- The body of the `foreach` loop: the item that is passed to `target_link_libraries`. -/
def visitItem (vars : Variables) (index : Nat) : Except FatalError Text :=
  match vars (itemVariable index) with
  | none => .error (.itemMissing index)
  | some item => .ok item

/-- The check of the count and the `foreach` loop: the items in the order in which they are
visited. -/
def visitLinkItems (vars : Variables) : Except FatalError (List Text) :=
  match vars countVariable with
  | none => .error .countInvalid
  | some count =>
      if count = [] ∨ ¬ count.all Char.isDigit then .error .countInvalid
      else if 0 < Nat.ofDigitChars 10 count 0 then
        (List.range (Nat.ofDigitChars 10 count 0 - 1 + 1)).mapM (visitItem vars)
      else .ok []

/-! ## Where a bracket argument ends -/

/-- The text ends with a closing bracket and exactly as many equals signs as the search for its
bracket argument comes back with, so that its end and the closing bracket put after it make a
closing bracket of their own. -/
def OpenEnd (value : Text) : Prop :=
  ']' :: List.replicate (bracketEquals value 0) '=' <:+ value

instance (value : Text) : Decidable (OpenEnd value) :=
  inferInstanceAs (Decidable (_ <:+ _))

/-- The search passes over the closing brackets that occur in the value and ends with one that
does not. -/
private theorem bracketEquals_spec (value : Text) (k : Nat) :
    (∀ m, k ≤ m → m < bracketEquals value k → closer m <:+: value) ∧
      ¬ closer (bracketEquals value k) <:+: value := by
  fun_induction bracketEquals value k with
  | case1 k h ih =>
      refine ⟨fun m hkm hm => ?_, ih.2⟩
      obtain rfl | hlt := Nat.eq_or_lt_of_le hkm
      · exact h
      · exact ih.1 m hlt hm
  | case2 k h => exact ⟨fun m hkm hm => absurd hm (by omega), h⟩

/-- Across the end of a text a closing bracket can only begin with the closing bracket and the
equals signs that the text ends with. -/
private theorem closer_straddles {n : Nat} {u b : Text} (hu : u ≠ [])
    (h : closer n <+: u ++ (closer n ++ b)) :
    closer n <+: u ∨ u = ']' :: List.replicate n '=' := by
  rcases List.prefix_or_prefix_of_prefix h (List.prefix_append u _) with hshort | ⟨r, hr⟩
  · exact .inl hshort
  have hrb : r <+: closer n ++ b := by
    rw [← List.prefix_append_right_inj u, hr]
    exact h
  obtain ⟨c, u, rfl⟩ := List.exists_cons_of_ne_nil hu
  rw [closer, List.cons_append, List.cons_append, List.cons.injEq] at hr
  obtain ⟨rfl, hr⟩ := hr
  cases r with
  | nil =>
      left
      rw [List.append_nil] at hr
      rw [closer, List.cons_append, hr]
  | cons d r =>
      obtain rfl : d = ']' := by
        simp only [closer, List.cons_append, List.cons_prefix_cons] at hrb
        exact hrb.1
      -- No equals sign of the closing bracket is left for `r`, whose first symbol is a bracket.
      rcases List.append_eq_append_iff.1 hr with ⟨a, hua, har⟩ | ⟨a, hua, har⟩
      · cases a with
        | nil => right; rw [hua, List.append_nil]
        | cons e a =>
            rw [List.cons_append, List.cons.injEq] at har
            have hmem : e ∈ List.replicate n '=' := by simp [hua]
            rw [← har.1] at hmem
            exact absurd (List.eq_of_mem_replicate hmem) (by decide)
      · cases a with
        | nil => right; rw [hua, List.append_nil]
        | cons e a => simp at har

private theorem splitAtFirst_closer {n : Nat} {value : Text} (hin : ¬ closer n <:+: value)
    (hend : ¬ ']' :: List.replicate n '=' <:+ value) (b : Text) :
    splitAtFirst (closer n) (value ++ (closer n ++ b)) = some (value, b) := by
  apply splitAtFirst_append
  intro u hne hu h
  rcases closer_straddles hne h with hp | rfl
  · exact hin (hp.isInfix.trans hu.isInfix)
  · exact hend hu

/-- Where the end of the value and the closing bracket overlap, the value is cut off there and the
equals signs and the last bracket are left over. -/
private theorem splitAtFirst_closer_open {n : Nat} {value : Text} (hin : ¬ closer n <:+: value)
    (hend : ']' :: List.replicate n '=' <:+ value) (b : Text) :
    ∃ w, splitAtFirst (closer n) (value ++ (closer n ++ b)) =
      some (w, List.replicate n '=' ++ ']' :: b) := by
  obtain ⟨w, rfl⟩ := hend
  have hw : ¬ ']' :: List.replicate n '=' <:+ w := by
    rintro ⟨w', rfl⟩
    exact hin ⟨w', List.replicate n '=', by simp [closer]⟩
  have hsplit := splitAtFirst_closer (fun h => hin (h.trans (List.prefix_append w _).isInfix)) hw
    (List.replicate n '=' ++ ']' :: b)
  exact ⟨w, by rw [← hsplit]; simp [closer]⟩

private theorem readBracket_replicate (n : Nat) (t : Text) :
    readBracket (List.replicate n '=' ++ '[' :: t) = splitAtFirst (closer n) t := by
  have htake : (List.replicate n '=' ++ '[' :: t).takeWhile (· = '=') = List.replicate n '=' := by
    rw [List.takeWhile_append_of_pos (by simp)]
    simp
  have hdrop : (List.replicate n '=' ++ '[' :: t).dropWhile (· = '=') = '[' :: t := by
    rw [List.dropWhile_append_of_pos (by simp)]
    simp
  rw [readBracket, htake, hdrop, List.length_replicate]
  exact congrArg (· >>= splitAtFirst (closer n)) (expect_append ['['] t)

private theorem readArgument_bracket (value b : Text) :
    readArgument (cmakeBracketArgument value ++ b) =
      splitAtFirst (closer (bracketEquals value 0))
        (value ++ (closer (bracketEquals value 0) ++ b)) := by
  rw [← readBracket_replicate]
  simp [cmakeBracketArgument, readArgument]

/-! ## What reading the file gives -/

private theorem readSet_setLine {name argument t : Text} (hname : name ≠ [])
    (hunquoted : ∀ c ∈ name, isUnquoted c = true) :
    readSet (setLine name argument ++ '\n' :: t) = do
      let (value, t) ← readArgument (argument ++ (")\n".toList ++ t))
      let t ← expect ")\n".toList t
      return ((name, value), t) := by
  have hread : readRun isUnquoted (name ++ (" ".toList ++ (argument ++ (")\n".toList ++ t)))) =
      some (name, " ".toList ++ (argument ++ (")\n".toList ++ t))) :=
    readRun_append hname hunquoted (by simp [isUnquoted])
  have htext : setLine name argument ++ '\n' :: t =
      "set(".toList ++ (name ++ (" ".toList ++ (argument ++ (")\n".toList ++ t)))) := by
    simp [setLine]
  rw [readSet, htext, expect_append]
  simp only [Option.bind_eq_bind, Option.bind_some, hread, expect_append]

private theorem isUnquoted_of_isDigit {c : Char} (h : c.isDigit = true) : isUnquoted c = true := by
  have hall : (" \t\r\n()#\"\\".toList.all fun d => !d.isDigit) = true := by decide
  simp only [isUnquoted, decide_eq_true_eq]
  intro hmem
  have hc := List.all_eq_true.1 hall c hmem
  rw [h] at hc
  cases hc

private theorem isUnquoted_of_mem_toDigits {n : Nat} {c : Char} (h : c ∈ Nat.toDigits 10 n) :
    isUnquoted c = true :=
  isUnquoted_of_isDigit (Nat.isDigit_of_mem_toDigits (by decide) (by decide) h)

private theorem isUnquoted_of_mem_itemVariable {i : Nat} {c : Char} (h : c ∈ itemVariable i) :
    isUnquoted c = true := by
  rcases List.mem_append.1 h with h | h
  · have hall : "SINGBOX_CGO_LINK_ITEM_".toList.all isUnquoted = true := by decide
    exact List.all_eq_true.1 hall c h
  · exact isUnquoted_of_mem_toDigits h

private theorem readSet_count (n : Nat) (t : Text) :
    readSet (setLine countVariable (Nat.toDigits 10 n) ++ '\n' :: t) =
      some ((countVariable, Nat.toDigits 10 n), t) := by
  have hname : countVariable.all isUnquoted = true := by decide
  have hdigits : readRun isUnquoted (Nat.toDigits 10 n ++ (")\n".toList ++ t)) =
      some (Nat.toDigits 10 n, ")\n".toList ++ t) :=
    readRun_append Nat.toDigits_ne_nil (fun c => isUnquoted_of_mem_toDigits) (by simp [isUnquoted])
  have hread : readArgument (Nat.toDigits 10 n ++ (")\n".toList ++ t)) =
      some (Nat.toDigits 10 n, ")\n".toList ++ t) := by
    rw [← hdigits]
    obtain ⟨c, w, hw⟩ := List.exists_cons_of_ne_nil (Nat.toDigits_ne_nil (n := n) (b := 10))
    have hc : c.isDigit = true :=
      Nat.isDigit_of_mem_toDigits (b := 10) (n := n) (by decide) (by decide) (by simp [hw])
    rw [hw, List.cons_append, readArgument]
    intro t' ht'
    rw [(List.cons.inj ht').1] at hc
    exact absurd hc (by decide)
  rw [readSet_setLine (by decide) (List.all_eq_true.1 hname), hread]
  simp only [Option.bind_eq_bind, Option.bind_some, expect_append, Option.pure_def]

/-- The line of an item is read back exactly when the item's end stays clear of the closing
bracket; otherwise it is not read at all. -/
private theorem readSet_item (i : Nat) (value t : Text) :
    readSet (setLine (itemVariable i) (cmakeBracketArgument value) ++ '\n' :: t) =
      if OpenEnd value then none else some ((itemVariable i, value), t) := by
  have hname : itemVariable i ≠ [] := List.append_ne_nil_of_left_ne_nil (by decide) _
  have hin := (bracketEquals_spec value 0).2
  rw [readSet_setLine hname fun c => isUnquoted_of_mem_itemVariable, readArgument_bracket]
  split
  case isTrue hend =>
    obtain ⟨w, hw⟩ := splitAtFirst_closer_open hin hend (")\n".toList ++ t)
    rw [hw]
    -- What is left over begins with an equals sign or with the last bracket.
    have hleft : expect ")\n".toList
        (List.replicate (bracketEquals value 0) '=' ++ ']' :: (")\n".toList ++ t)) = none := by
      cases bracketEquals value 0 with
      | zero => simp [expect]
      | succ n => simp [expect, List.replicate_succ]
    simp only [Option.bind_eq_bind, Option.bind_some, hleft, Option.bind_none]
  case isFalse hend =>
    rw [splitAtFirst_closer hin hend]
    simp only [Option.bind_eq_bind, Option.bind_some, expect_append, Option.pure_def]

def itemLines (k : Nat) (items : List LinkItem) : Text :=
  (items.zipIdx k).flatMap fun p =>
    setLine (itemVariable p.2) (cmakeBracketArgument p.1.value) ++ ['\n']

private theorem itemLines_cons (k : Nat) (item : LinkItem) (items : List LinkItem) :
    itemLines k (item :: items) =
      setLine (itemVariable k) (cmakeBracketArgument item.value) ++ '\n' :: itemLines (k + 1) items := by
  simp [itemLines, List.zipIdx_cons]

private theorem writeCmakeLinkItems_eq (items : List LinkItem) :
    writeCmakeLinkItems items =
      setLine countVariable (Nat.toDigits 10 items.length) ++ '\n' :: itemLines 0 items := by
  rw [writeCmakeLinkItems, Text.join_newline_append (by simp)]
  simp [itemLines, Text.unlines, List.flatMap_map]

private theorem readCommands_succ {fuel : Nat} {t : Text} (h : t ≠ []) :
    readCommands (fuel + 1) t = do
      let (command, t) ← readSet t
      let rest ← readCommands fuel t
      return command :: rest := by
  obtain ⟨c, t, rfl⟩ := List.exists_cons_of_ne_nil h
  rfl

def itemCommands (k : Nat) (items : List LinkItem) : List (Text × Text) :=
  (items.zipIdx k).map fun p => (itemVariable p.2, p.1.value)

private theorem readCommands_itemLines {fuel : Nat} (k : Nat) {items : List LinkItem}
    (h : items.length ≤ fuel) :
    readCommands fuel (itemLines k items) =
      if ∃ item ∈ items, OpenEnd item.value then none else some (itemCommands k items) := by
  induction items generalizing fuel k with
  | nil => simp [itemLines, itemCommands, readCommands]
  | cons item items ih =>
      obtain ⟨fuel, rfl⟩ : ∃ f, fuel = f + 1 := Nat.exists_eq_add_one.2 (by simp at h; omega)
      rw [itemLines_cons, readCommands_succ (by simp), readSet_item]
      by_cases hopen : OpenEnd item.value
      · simp [hopen]
      · rw [if_neg hopen]
        simp only [Option.bind_eq_bind, Option.bind_some, ih (k + 1) (Nat.le_of_succ_le_succ h)]
        by_cases hrest : ∃ item ∈ items, OpenEnd item.value
        · simp [hrest]
        · simp [hrest, hopen, itemCommands, List.zipIdx_cons]

private theorem length_le_itemLines (k : Nat) (items : List LinkItem) :
    items.length ≤ (itemLines k items).length := by
  induction items generalizing k with
  | nil => simp
  | cons item items ih =>
      have hrest := ih (k + 1)
      simp only [itemLines_cons, List.length_append, List.length_cons]
      omega

def itemVariables (items : List LinkItem) (vars : Variables) : Variables :=
  (itemCommands 0 items).foldl assign (assign vars (countVariable, Nat.toDigits 10 items.length))

private theorem includeFile_writeCmakeLinkItems (items : List LinkItem) (vars : Variables) :
    includeFile (writeCmakeLinkItems items) vars =
      if ∃ item ∈ items, OpenEnd item.value then none else some (itemVariables items vars) := by
  have hlen := length_le_itemLines 0 items
  rw [includeFile, writeCmakeLinkItems_eq, List.length_append, List.length_cons, ← Nat.add_assoc,
    readCommands_succ (by simp), readSet_count]
  simp only [Option.bind_eq_bind, Option.bind_some]
  rw [readCommands_itemLines 0 (by omega)]
  by_cases hopen : ∃ item ∈ items, OpenEnd item.value
  · simp [hopen]
  · simp [hopen, itemVariables]

/-! ## The variables and the loop over them -/

private theorem itemVariable_inj {i j : Nat} : itemVariable i = itemVariable j ↔ i = j := by
  refine ⟨fun h => ?_, fun h => h ▸ rfl⟩
  have hdigits : Nat.toDigits 10 i = Nat.toDigits 10 j := List.append_cancel_left h
  rw [← Nat.ofDigitChars_ten_toDigits (n := i), hdigits, Nat.ofDigitChars_ten_toDigits]

private theorem countVariable_ne_itemVariable (i : Nat) : countVariable ≠ itemVariable i := by
  intro h
  have hcount : countVariable = "SINGBOX_CGO_LINK_ITEM_".toList ++ "COUNT".toList := by decide
  rw [hcount] at h
  have hdigits : "COUNT".toList = Nat.toDigits 10 i := List.append_cancel_left h
  have hc : ('C' : Char).isDigit = true :=
    Nat.isDigit_of_mem_toDigits (b := 10) (n := i) (by decide) (by decide)
      (hdigits ▸ List.mem_cons_self)
  exact absurd hc (by decide)

private theorem foldl_assign_of_ne {commands : List (Text × Text)} {name : Text}
    (h : ∀ command ∈ commands, name ≠ command.1) (vars : Variables) :
    commands.foldl assign vars name = vars name := by
  induction commands generalizing vars with
  | nil => rfl
  | cons command commands ih =>
      rw [List.foldl_cons, ih (fun c hc => h c (List.mem_cons_of_mem _ hc)), assign,
        Function.update_of_ne (h command List.mem_cons_self)]

private theorem exists_itemVariable {k : Nat} {items : List LinkItem} {command : Text × Text}
    (h : command ∈ itemCommands k items) : ∃ i, k ≤ i ∧ command.1 = itemVariable i := by
  obtain ⟨p, hp, rfl⟩ := List.mem_map.1 h
  exact ⟨p.2, (List.mem_zipIdx hp).1, rfl⟩

private theorem foldl_assign_itemCommands {k i : Nat} {items : List LinkItem}
    (hi : i < items.length) (vars : Variables) :
    (itemCommands k items).foldl assign vars (itemVariable (k + i)) = some items[i].value := by
  induction items generalizing k i vars with
  | nil => cases hi
  | cons item items ih =>
      have hcons : itemCommands k (item :: items) =
          (itemVariable k, item.value) :: itemCommands (k + 1) items := by
        simp [itemCommands, List.zipIdx_cons]
      rw [hcons, List.foldl_cons]
      cases i with
      | zero =>
          have hne : ∀ command ∈ itemCommands (k + 1) items, itemVariable k ≠ command.1 := by
            intro command hc
            obtain ⟨j, hj, hname⟩ := exists_itemVariable hc
            rw [hname, ne_eq, itemVariable_inj]
            omega
          show List.foldl assign _ _ (itemVariable k) = some item.value
          rw [foldl_assign_of_ne hne, assign, Function.update_self]
      | succ i =>
          rw [show k + (i + 1) = k + 1 + i by omega, ih (Nat.lt_of_succ_lt_succ hi)]
          rfl

private theorem itemVariables_count (items : List LinkItem) (vars : Variables) :
    itemVariables items vars countVariable = some (Nat.toDigits 10 items.length) := by
  have hne : ∀ command ∈ itemCommands 0 items, countVariable ≠ command.1 := by
    intro command hc
    obtain ⟨i, -, hname⟩ := exists_itemVariable hc
    rw [hname]
    exact countVariable_ne_itemVariable i
  rw [itemVariables, foldl_assign_of_ne hne, assign, Function.update_self]

private theorem itemVariables_item {items : List LinkItem} {i : Nat} (hi : i < items.length)
    (vars : Variables) : itemVariables items vars (itemVariable i) = some items[i].value := by
  have h := foldl_assign_itemCommands (k := 0) hi
    (assign vars (countVariable, Nat.toDigits 10 items.length))
  rwa [Nat.zero_add] at h

private theorem mapM_visitItem {vars : Variables} {l : List Nat} {f : Nat → Text}
    (h : ∀ i ∈ l, vars (itemVariable i) = some (f i)) :
    l.mapM (visitItem vars) = .ok (l.map f) := by
  induction l with
  | nil => rfl
  | cons i l ih =>
      rw [List.mapM_cons, visitItem, h i List.mem_cons_self,
        ih fun j hj => h j (List.mem_cons_of_mem _ hj)]
      rfl

private theorem visitLinkItems_itemVariables (items : List LinkItem) (vars : Variables) :
    visitLinkItems (itemVariables items vars) = .ok (items.map LinkItem.value) := by
  have hdigits : (Nat.toDigits 10 items.length).all Char.isDigit = true := by
    rw [List.all_eq_true]
    exact fun c hc => Nat.isDigit_of_mem_toDigits (by decide) (by decide) hc
  rw [visitLinkItems, itemVariables_count]
  simp only [hdigits, Nat.toDigits_ne_nil, Nat.ofDigitChars_ten_toDigits, not_true_eq_false,
    or_self, if_false]
  split
  case isTrue hpos =>
    rw [Nat.sub_add_cancel hpos, mapM_visitItem (f := fun i => (items.map LinkItem.value).getD i [])]
    · congr 1
      apply List.ext_getElem
      · simp
      · intro i hi hi'
        simp at hi'
        simp [hi']
    · intro i hi
      have hlt := List.mem_range.1 hi
      rw [itemVariables_item hlt]
      simp [hlt]
  case isFalse hzero =>
    obtain rfl : items = [] := List.length_eq_zero_iff.1 (by omega)
    rfl

/-! ## The trip -/

/-- The file is read without leftover text, it sets the count and every item, and the loop visits
exactly the items in their order. -/
def Survives (items : List LinkItem) (vars : Variables) : Prop :=
  ∃ vars', includeFile (writeCmakeLinkItems items) vars = some vars' ∧
    vars' countVariable = some (Nat.toDigits 10 items.length) ∧
    (∀ i (hi : i < items.length), vars' (itemVariable i) = some items[i].value) ∧
    visitLinkItems vars' = .ok (items.map LinkItem.value)

/-- Link items survive the trip to CMake exactly when none of them has an open end, and the search
for the number of equals signs comes to an end for every value. -/
theorem linkItems_survive_iff (items : List LinkItem) (vars : Variables) (value : Text) :
    (Survives items vars ↔ ∀ item ∈ items, ¬ OpenEnd item.value) ∧
    ∃ n, (∀ m < n, closer m <:+: value) ∧ ¬ closer n <:+: value ∧
      cmakeBracketArgument value =
        '[' :: List.replicate n '=' ++ '[' :: (value ++ closer n) := by
  constructor
  · have hread := includeFile_writeCmakeLinkItems items vars
    by_cases hopen : ∃ item ∈ items, OpenEnd item.value
    · rw [if_pos hopen] at hread
      exact iff_of_false (by simp [Survives, hread]) (by simpa using hopen)
    · rw [if_neg hopen] at hread
      exact iff_of_true ⟨_, hread, itemVariables_count items vars,
        fun i hi => itemVariables_item hi vars, visitLinkItems_itemVariables items vars⟩
        (by simpa using hopen)
  · obtain ⟨hin, hout⟩ := bracketEquals_spec value 0
    exact ⟨bracketEquals value 0, fun m hm => hin m (Nat.zero_le m) hm, hout, rfl⟩

def bracketItem : LinkItem := ⟨"a]".toList, by decide, by decide⟩

/-- The flag `a]` is accepted, but CMake cannot read the file that is written for it. -/
theorem bracketItem_not_read :
    normalizeCgoLinkFlags "p".toList [.text "a]".toList] = .ok [bracketItem] ∧
    writeCmakeLinkItems [bracketItem] =
      "set(SINGBOX_CGO_LINK_ITEM_COUNT 1)\nset(SINGBOX_CGO_LINK_ITEM_0 [[a]]])\n".toList ∧
    includeFile (writeCmakeLinkItems [bracketItem]) (fun _ => none) = none := by
  have hequals : bracketEquals bracketItem.value 0 = 0 := by
    rw [bracketEquals, dif_neg (by decide)]
  refine ⟨by decide, ?_, ?_⟩
  · simp only [writeCmakeLinkItems, List.zipIdx_cons, List.zipIdx_nil, List.map_cons, List.map_nil,
      cmakeBracketArgument, hequals]
    decide
  · have hopen : OpenEnd bracketItem.value := by
      rw [OpenEnd, hequals]
      decide
    rw [includeFile_writeCmakeLinkItems, if_pos ⟨bracketItem, List.mem_singleton_self _, hopen⟩]

end SingBoxPython.Build
