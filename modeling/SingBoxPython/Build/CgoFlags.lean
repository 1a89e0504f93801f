import SingBoxPython.Build.LinkItems
import SingBoxPython.Framework.Json

/-!
# The flags that `go list` prints

`cgo_link_items` of `setup.py`: the loop over the JSON objects that `go list` prints, over a JSON
decoder of which only what the loop relies on is assumed.
-/

namespace SingBoxPython.Build
open Framework

/-- A value of the key `CgoLDFLAGS`.  Of an object only its length is kept, and of a null, a boolean
or a number nothing. -/
inductive FlagsField
  | array (flags : List Flag)
  | string (value : Text)
  | object (length : Nat)
  | scalar
  deriving DecidableEq

/-- What is read of a JSON object; `importPath` is the text that an f-string makes of the value. -/
structure Package where
  importPath : Option Text
  cgoLDFLAGS : Option FlagsField
  deriving DecidableEq

/-- `json.JSONDecoder` with its `raw_decode`, and the `repr` of the values that it makes.  A decoded
value stands at the offset and ends at the returned one; an object is decoded whatever follows it,
since its last brace ends it. -/
structure Decoder where
  repr : Json → Text
  Encodes : Text → Json → Prop
  rawDecode : Text → Nat → Option (Json × Nat)
  starts : ∀ o v, Encodes o v → ∃ c ∈ o.head?, Text.isSpace c = false
  sound : ∀ s i v j, rawDecode s i = some (v, j) →
    ∃ o rest, s.drop i = o ++ rest ∧ Encodes o v ∧ j = i + o.length
  complete : ∀ s i o rest members, s.drop i = o ++ rest → Encodes o (.object members) →
    rawDecode s i = some (.object members, i + o.length)

/-- What an f-string makes of a value: strings as they are, and any other value by its `repr`. -/
def Decoder.format (decoder : Decoder) : Json → Text
  | .string t => t
  | v => decoder.repr v

def Decoder.flag (decoder : Decoder) : Json → Flag
  | .string t => .text t
  | v => .other (decoder.repr v)

def Decoder.flagsField (decoder : Decoder) : Json → FlagsField
  | .array items => .array (items.map decoder.flag)
  | .string t => .string t
  | .object members => .object (members.map Prod.fst).dedup.length
  | _ => .scalar

def Decoder.package (decoder : Decoder) (members : List (Text × Json)) : Package where
  importPath := (Json.valueOf members "ImportPath".toList).map decoder.format
  cgoLDFLAGS := (Json.valueOf members "CgoLDFLAGS".toList).map decoder.flagsField

/-- What stops the loop: a `JSONDecodeError`, the missing `get` of a value that is no object, the
missing length or index of its flags, or a `RuntimeError` about a flag. -/
inductive LinkError
  | jsonDecodeError
  | attributeError
  | typeError
  | keyError
  | runtimeError (error : FlagError)
  deriving DecidableEq

/-- The flags that `normalize_cgo_link_flags` reads by their indices.  The keys of an object are
strings, so that its first index is missing. -/
def FlagsField.indexed : FlagsField → Except LinkError (List Flag)
  | .array flags => .ok flags
  | .string value => .ok (value.map fun c => .text [c])
  | .object 0 => .ok []
  | .object (_ + 1) => .error .keyError
  | .scalar => .error .typeError

def Package.linkItems (package : Package) : Except LinkError (List LinkItem) :=
  match (package.cgoLDFLAGS.getD (.array [])).indexed with
  | .error e => .error e
  | .ok flags =>
      match normalizeCgoLinkFlags (package.importPath.getD "<unknown>".toList) flags with
      | .error e => .error (.runtimeError e)
      | .ok items => .ok items

/-- The inner loop: the offset of the next character that is no white space. -/
def skipSpace (stdout : Text) (offset : Nat) : Nat :=
  offset + ((stdout.drop offset).takeWhile Text.isSpace).length

private theorem Decoder.offset_lt {decoder : Decoder} {s : Text} {i j : Nat} {v : Json}
    (h : decoder.rawDecode s i = some (v, j)) : i < j ∧ j ≤ s.length := by
  obtain ⟨o, rest, hdrop, ho, rfl⟩ := decoder.sound s i v j h
  obtain ⟨c, hc, -⟩ := decoder.starts o v ho
  have hpos : 0 < o.length := by
    cases o with
    | nil => cases hc
    | cons d o => simp
  have hlen := congrArg List.length hdrop
  rw [List.length_drop, List.length_append] at hlen
  omega

/-- The outer loop.  It terminates because a decoded value has at least one character. -/
def cgoLinkItemsLoop (decoder : Decoder) (stdout : Text) (offset : Nat)
    (linkItems : List LinkItem) : Except LinkError (List LinkItem) :=
  if offset < stdout.length then
    if skipSpace stdout offset = stdout.length then .ok linkItems
    else
      match _h : decoder.rawDecode stdout (skipSpace stdout offset) with
      | none => .error .jsonDecodeError
      | some (.object members, offset') =>
          match (decoder.package members).linkItems with
          | .error e => .error e
          | .ok items => cgoLinkItemsLoop decoder stdout offset' (linkItems ++ items)
      | some _ => .error .attributeError
  else .ok linkItems
termination_by stdout.length - offset
decreasing_by
  have hlt := Decoder.offset_lt _h
  rw [skipSpace] at hlt
  omega

def cgoLinkItems (decoder : Decoder) (stdout : Text) : Except LinkError (List LinkItem) :=
  cgoLinkItemsLoop decoder stdout 0 []

/-! ## Sequences of objects -/

/-- The text is a sequence of JSON objects with any white space between them. -/
inductive Decoder.Written (decoder : Decoder) : Text → List Package → Prop
  | nil {space : Text} : space.all Text.isSpace = true → Written decoder space []
  | cons {space o t : Text} {members : List (Text × Json)} {packages : List Package} :
      space.all Text.isSpace = true → decoder.Encodes o (.object members) →
      Written decoder t packages →
      Written decoder (space ++ (o ++ t)) (decoder.package members :: packages)

section Loop

variable {decoder : Decoder} {stdout : Text}

private theorem skipSpace_of_drop {offset : Nat} {space t : Text}
    (hdrop : stdout.drop offset = space ++ t) (hspace : space.all Text.isSpace = true)
    (ht : ∀ c ∈ t.head?, Text.isSpace c = false) :
    skipSpace stdout offset = offset + space.length := by
  have htake : t.takeWhile Text.isSpace = [] := by
    cases t with
    | nil => rfl
    | cons c t => simp [ht c rfl]
  rw [skipSpace, hdrop, List.takeWhile_append_of_pos (List.all_eq_true.1 hspace), htake,
    List.append_nil]

private theorem loop_of_space {offset : Nat} {items : List LinkItem}
    (hspace : (stdout.drop offset).all Text.isSpace = true) :
    cgoLinkItemsLoop decoder stdout offset items = .ok items := by
  have hskip : skipSpace stdout offset = offset + (stdout.drop offset).length :=
    skipSpace_of_drop (List.append_nil _).symm hspace (by simp)
  rw [List.length_drop] at hskip
  rw [cgoLinkItemsLoop]
  split
  · rw [if_pos (by omega)]
  · rfl

private theorem loop_of_object {offset : Nat} {items : List LinkItem} {space o t : Text}
    {members : List (Text × Json)} (hdrop : stdout.drop offset = space ++ (o ++ t))
    (hspace : space.all Text.isSpace = true) (ho : decoder.Encodes o (.object members)) :
    cgoLinkItemsLoop decoder stdout offset items =
      match (decoder.package members).linkItems with
      | .error e => .error e
      | .ok new =>
          cgoLinkItemsLoop decoder stdout (offset + space.length + o.length) (items ++ new) := by
  obtain ⟨c, hc, hcs⟩ := decoder.starts o _ ho
  have hhead : ∀ d ∈ (o ++ t).head?, Text.isSpace d = false := by
    intro d hd
    cases o with
    | nil => cases hc
    | cons e o =>
        cases hc
        cases hd
        exact hcs
  have hskip := skipSpace_of_drop hdrop hspace hhead
  have hnext : stdout.drop (offset + space.length) = o ++ t := by
    rw [← List.drop_drop, hdrop, List.drop_left]
  have hdecode := decoder.complete _ _ o t members hnext ho
  have hlt := Decoder.offset_lt hdecode
  rw [cgoLinkItemsLoop, if_pos (by omega), hskip, if_neg (by omega)]
  split
  · rename_i h
    rw [hdecode] at h
    cases h
  · rename_i h
    rw [hdecode] at h
    cases h
    rfl
  · rename_i v hother h
    rw [hdecode] at h
    cases h
    exact absurd rfl (hother members _)

private theorem loop_of_written {t : Text} {packages : List Package}
    (h : decoder.Written t packages)
    {offset : Nat} (hdrop : stdout.drop offset = t) (items : List LinkItem) :
    cgoLinkItemsLoop decoder stdout offset items =
      match packages.mapM Package.linkItems with
      | .error e => .error e
      | .ok new => .ok (items ++ new.flatten) := by
  induction h generalizing offset items with
  | nil hspace =>
      subst hdrop
      rw [loop_of_space hspace]
      simp [pure, Except.pure]
  | @cons space o t members packages hspace ho hrest ih =>
      have hnext : stdout.drop (offset + space.length + o.length) = t := by
        rw [← List.drop_drop, ← List.drop_drop, hdrop, List.drop_left, List.drop_left]
      rw [loop_of_object hdrop hspace ho, List.mapM_cons]
      cases hp : (decoder.package members).linkItems with
      | error e => rfl
      | ok new =>
          show cgoLinkItemsLoop decoder stdout _ (items ++ new) = _
          rw [ih hnext]
          cases packages.mapM Package.linkItems with
          | error e => rfl
          | ok rest => simp [bind, Except.bind, pure, Except.pure]

/-- The loop only returns at the end of a sequence of objects. -/
private theorem written_of_loop {offset : Nat} {items result : List LinkItem}
    (h : cgoLinkItemsLoop decoder stdout offset items = .ok result) :
    ∃ packages, decoder.Written (stdout.drop offset) packages := by
  fun_induction cgoLinkItemsLoop decoder stdout offset items with
  | case1 offset items hlt hskip =>
      refine ⟨[], .nil ?_⟩
      have hlen : ((stdout.drop offset).takeWhile Text.isSpace).length =
          (stdout.drop offset).length := by
        rw [skipSpace] at hskip
        rw [List.length_drop]
        omega
      have htake := (List.takeWhile_prefix Text.isSpace).eq_of_length hlen
      rw [List.all_eq_true, ← htake]
      exact fun c hc => List.mem_takeWhile_imp hc
  | case2 => cases h
  | case3 => cases h
  | case4 offset items hlt hskip members offset' hdecode new hp ih =>
      obtain ⟨packages, hwritten⟩ := ih h
      obtain ⟨o, rest, hdrop, ho, rfl⟩ := decoder.sound _ _ _ _ hdecode
      have hrest : stdout.drop (skipSpace stdout offset + o.length) = rest := by
        rw [← List.drop_drop, hdrop, List.drop_left]
      rw [hrest] at hwritten
      have hsplit : stdout.drop offset =
          (stdout.drop offset).takeWhile Text.isSpace ++ (o ++ rest) := by
        rw [← hdrop, skipSpace, ← List.drop_drop]
        exact (List.prefix_iff_eq_append.1 (List.takeWhile_prefix Text.isSpace)).symm
      refine ⟨decoder.package members :: packages, ?_⟩
      rw [hsplit]
      exact .cons (List.all_eq_true.2 fun c hc => List.mem_takeWhile_imp hc) ho hwritten
  | case5 => cases h
  | case6 offset items hlt =>
      refine ⟨[], .nil ?_⟩
      rw [List.drop_eq_nil_of_le (by omega)]
      rfl

end Loop

/-! ## The flags of a package, read from left to right -/

/-- What one or two flags make together: a flag alone, or a grouped option with its argument. -/
inductive Group
  | single (flag : LinkItem)
  | grouped (option argument : LinkItem)

def Group.flags : Group → List Flag
  | .single flag => [.text flag.value]
  | .grouped option argument => [.text option.value, .text argument.value]

def Group.item : Group → LinkItem
  | .single flag => flag
  | .grouped option argument => option.group argument

/-- The groups are the flags, each grouped option with the flag after it. -/
structure Reading (flags : List Flag) (groups : List Group) : Prop where
  flags_eq : flags = groups.flatMap Group.flags
  single : ∀ flag, .single flag ∈ groups → flag.value ∉ cmakeGroupedLinkOptions
  grouped : ∀ option argument, .grouped option argument ∈ groups →
    option.value ∈ cmakeGroupedLinkOptions

/-- A non-empty string without NUL, CR and LF. -/
def Flag.IsLine : Flag → Prop
  | .text value => value ≠ [] ∧ '\x00' ∉ value ∧ '\r' ∉ value ∧ '\n' ∉ value
  | .other _ => False

/-- Reading from left to right comes to a flag or an argument that is no such string, or to a grouped
option at the end. -/
inductive Malformed : List Flag → Prop
  | flag {flag : Flag} {rest : List Flag} : ¬ flag.IsLine → Malformed (flag :: rest)
  | noArgument {option : Text} : option ∈ cmakeGroupedLinkOptions → Malformed [.text option]
  | argument {option : Text} {argument : Flag} {rest : List Flag} :
      option ∈ cmakeGroupedLinkOptions → ¬ argument.IsLine →
      Malformed (.text option :: argument :: rest)
  | afterArgument {option : Text} {argument : Flag} {rest : List Flag} :
      option ∈ cmakeGroupedLinkOptions → Malformed rest →
      Malformed (.text option :: argument :: rest)
  | afterFlag {value : Text} {rest : List Flag} :
      value ∉ cmakeGroupedLinkOptions → Malformed rest → Malformed (.text value :: rest)

private theorem all_isFlagChar_iff (value : Text) :
    value.all isFlagChar = true ↔ '\x00' ∉ value ∧ '\r' ∉ value ∧ '\n' ∉ value := by
  rw [List.all_eq_true]
  constructor
  · intro h
    refine ⟨fun hc => ?_, fun hc => ?_, fun hc => ?_⟩ <;> exact absurd (h _ hc) (by decide)
  · rintro ⟨hnul, hcr, hlf⟩ c hc
    have h₁ : c ≠ '\x00' := fun h => hnul (h ▸ hc)
    have h₂ : c ≠ '\r' := fun h => hcr (h ▸ hc)
    have h₃ : c ≠ '\n' := fun h => hlf (h ▸ hc)
    simp [isFlagChar, h₁, h₂, h₃]

private theorem check_eq_none_iff (flag : Flag) : flag.check = none ↔ ¬ flag.IsLine := by
  cases flag with
  | other r => simp [Flag.check, Flag.IsLine]
  | text value =>
      rw [Flag.check, Flag.IsLine, ← all_isFlagChar_iff]
      split <;> simp_all

private theorem eq_text_of_check {flag : Flag} {item : LinkItem} (h : flag.check = some item) :
    flag = .text item.value := by
  cases flag with
  | other r => cases h
  | text value =>
      rw [Flag.check] at h
      split at h
      · cases h
        rfl
      · cases h

private theorem not_malformed_nil : ¬ Malformed [] := by
  intro h
  cases h

private theorem malformed_single {item : LinkItem} {rest : List Flag}
    (hline : (Flag.text item.value).IsLine) (hopt : item.value ∉ cmakeGroupedLinkOptions) :
    Malformed (.text item.value :: rest) ↔ Malformed rest := by
  constructor
  · intro h
    cases h with
    | flag h => exact absurd hline h
    | noArgument h => exact absurd h hopt
    | argument h => exact absurd h hopt
    | afterArgument h => exact absurd h hopt
    | afterFlag _ h => exact h
  · exact .afterFlag hopt

private theorem malformed_grouped {item argument : LinkItem} {rest : List Flag}
    (hline : (Flag.text item.value).IsLine) (harg : (Flag.text argument.value).IsLine)
    (hopt : item.value ∈ cmakeGroupedLinkOptions) :
    Malformed (.text item.value :: .text argument.value :: rest) ↔ Malformed rest := by
  constructor
  · intro h
    cases h with
    | flag h => exact absurd hline h
    | argument _ h => exact absurd harg h
    | afterArgument _ h => exact h
    | afterFlag h => exact absurd hopt h
  · exact .afterArgument hopt

private theorem isLine_of_check {flag : Flag} {item : LinkItem} (h : flag.check = some item) :
    flag.IsLine := by
  by_contra hline
  rw [(check_eq_none_iff flag).2 hline] at h
  cases h

theorem Reading.cons {flags : List Flag} {groups : List Group} {g : Group}
    (h : Reading flags groups) (hsingle : ∀ flag, g = .single flag →
      flag.value ∉ cmakeGroupedLinkOptions)
    (hgrouped : ∀ option argument, g = .grouped option argument →
      option.value ∈ cmakeGroupedLinkOptions) :
    Reading (g.flags ++ flags) (g :: groups) := by
  refine ⟨?_, ?_, ?_⟩
  · rw [List.flatMap_cons, ← h.flags_eq]
  · intro flag hmem
    rcases List.mem_cons.1 hmem with heq | hmem
    · exact hsingle flag heq.symm
    · exact h.single flag hmem
  · intro option argument hmem
    rcases List.mem_cons.1 hmem with heq | hmem
    · exact hgrouped option argument heq.symm
    · exact h.grouped option argument hmem

/-- `normalize_cgo_link_flags` raises for malformed flags and otherwise gives the items of their
groups. -/
private theorem normalizeCgoLinkFlags_spec (packageName : Text) (flags : List Flag) :
    match normalizeCgoLinkFlags packageName flags with
    | .error _ => Malformed flags
    | .ok items => ¬ Malformed flags ∧
        ∃ groups, Reading flags groups ∧ items = groups.map Group.item := by
  fun_induction normalizeCgoLinkFlags packageName flags with
  | case1 => exact ⟨not_malformed_nil, [], ⟨rfl, by simp, by simp⟩, rfl⟩
  | case2 flag rest hcheck => exact .flag ((check_eq_none_iff flag).1 hcheck)
  | case3 flag item hcheck hopt =>
      rw [eq_text_of_check hcheck]
      exact .noArgument hopt
  | case4 flag item hcheck hopt argument rest harg =>
      rw [eq_text_of_check hcheck]
      exact .argument hopt ((check_eq_none_iff argument).1 harg)
  | case5 flag item hcheck hopt argument rest arg harg ih =>
      have hline := isLine_of_check hcheck
      have hargline := isLine_of_check harg
      cases eq_text_of_check hcheck
      cases eq_text_of_check harg
      have hiff : Malformed (.text item.value :: .text arg.value :: rest) ↔ Malformed rest :=
        malformed_grouped hline hargline hopt
      cases hrest : normalizeCgoLinkFlags packageName rest with
      | error e =>
          rw [hrest] at ih
          exact hiff.2 ih
      | ok items =>
          rw [hrest] at ih
          obtain ⟨hno, groups, hread, rfl⟩ := ih
          refine ⟨fun h => hno (hiff.1 h), .grouped item arg :: groups, ?_, rfl⟩
          refine hread.cons (g := .grouped item arg) (fun flag h => by cases h) ?_
          intro option argument heq
          cases heq
          exact hopt
  | case6 flag rest item hcheck hopt ih =>
      have hline := isLine_of_check hcheck
      cases eq_text_of_check hcheck
      have hiff : Malformed (.text item.value :: rest) ↔ Malformed rest :=
        malformed_single hline hopt
      cases hrest : normalizeCgoLinkFlags packageName rest with
      | error e =>
          rw [hrest] at ih
          exact hiff.2 ih
      | ok items =>
          rw [hrest] at ih
          obtain ⟨hno, groups, hread, rfl⟩ := ih
          refine ⟨fun h => hno (hiff.1 h), .single item :: groups, ?_, rfl⟩
          refine hread.cons (g := .single item) ?_ (fun option argument h => by cases h)
          intro flag heq
          cases heq
          exact hopt

/-! ## The items of all packages -/

def Package.flags? (package : Package) : Option (List Flag) :=
  match package.cgoLDFLAGS with
  | none => some []
  | some (.array flags) => some flags
  | some _ => none

def isTwoWords (t : Text) : Bool :=
  cmakeGroupedLinkOptions.any fun option => (option ++ [' ']).isPrefixOf t

def ungroup (t : Text) : List Text :=
  if isTwoWords t then [t.takeWhile (· ≠ ' '), (t.dropWhile (· ≠ ' ')).drop 1] else [t]

private theorem ungroup_group {option argument : LinkItem}
    (h : option.value ∈ cmakeGroupedLinkOptions) :
    ungroup (option.group argument).value = [option.value, argument.value] := by
  have hnospace : (cmakeGroupedLinkOptions.all fun o => o.all (· ≠ ' ')) = true := by decide
  have hoption := List.all_eq_true.1 (List.all_eq_true.1 hnospace _ h)
  have htwo : isTwoWords (option.value ++ ' ' :: argument.value) = true := by
    refine List.any_eq_true.2 ⟨option.value, h, ?_⟩
    rw [List.isPrefixOf_iff_prefix]
    exact ⟨argument.value, by simp⟩
  rw [ungroup, LinkItem.group, if_pos htwo, List.takeWhile_append_of_pos hoption,
    List.dropWhile_append_of_pos hoption]
  simp

private theorem ungroup_groups {flags : List Flag} {groups : List Group} (h : Reading flags groups)
    (htwo : ∀ t, .text t ∈ flags → isTwoWords t = false) :
    (groups.flatMap fun g => ungroup g.item.value).map Flag.text = flags := by
  have hgroup : ∀ g ∈ groups, (ungroup g.item.value).map Flag.text = g.flags := by
    intro g hg
    cases g with
    | single flag =>
        have hmem : Flag.text flag.value ∈ flags := by
          rw [h.flags_eq]
          exact List.mem_flatMap.2 ⟨_, hg, by simp [Group.flags]⟩
        rw [Group.item, ungroup, htwo _ hmem]
        rfl
    | grouped option argument =>
        rw [Group.item, ungroup_group (h.grouped option argument hg)]
        rfl
  rw [h.flags_eq, List.map_flatMap]
  exact List.flatMap_congr hgroup

private theorem linkItems_of_flags {package : Package} {flags : List Flag}
    (h : package.flags? = some flags) :
    match package.linkItems with
    | .error _ => Malformed flags
    | .ok items => ¬ Malformed flags ∧
        ∃ groups, Reading flags groups ∧ items = groups.map Group.item := by
  have hindexed : (package.cgoLDFLAGS.getD (.array [])).indexed = .ok flags := by
    rw [Package.flags?] at h
    split at h
    · rename_i heq
      cases h
      rw [heq]
      rfl
    · rename_i heq
      cases h
      rw [heq]
      rfl
    · cases h
  have hspec := normalizeCgoLinkFlags_spec (package.importPath.getD "<unknown>".toList) flags
  rw [Package.linkItems, hindexed]
  cases hn : normalizeCgoLinkFlags (package.importPath.getD "<unknown>".toList) flags with
  | error e =>
      rw [hn] at hspec
      simpa only [hn] using hspec
  | ok items =>
      rw [hn] at hspec
      simpa only [hn] using hspec

private theorem mapM_linkItems {packages : List Package} {flags : List (List Flag)}
    (h : List.Forall₂ (fun package fs => package.flags? = some fs) packages flags) :
    match packages.mapM Package.linkItems with
    | .error _ => ∃ fs ∈ flags, Malformed fs
    | .ok items => (∀ fs ∈ flags, ¬ Malformed fs) ∧
        ∃ groups, List.Forall₂ Reading flags groups ∧
          items = groups.map (List.map Group.item) := by
  induction h with
  | nil => exact ⟨by simp, [], .nil, rfl⟩
  | @cons package fs packages flags hp _ ih =>
      have hitems := linkItems_of_flags hp
      rw [List.mapM_cons]
      cases hl : package.linkItems with
      | error e =>
          rw [hl] at hitems
          exact ⟨fs, List.mem_cons_self, hitems⟩
      | ok items =>
          rw [hl] at hitems
          obtain ⟨hno, groups, hread, rfl⟩ := hitems
          cases hm : packages.mapM Package.linkItems with
          | error e =>
              rw [hm] at ih
              obtain ⟨gs, hmem, hbad⟩ := ih
              exact ⟨gs, List.mem_cons_of_mem _ hmem, hbad⟩
          | ok rest =>
              rw [hm] at ih
              obtain ⟨hnone, groupss, hreads, rfl⟩ := ih
              exact ⟨List.forall_mem_cons.2 ⟨hno, hnone⟩, groups :: groupss, .cons hread hreads, rfl⟩

/-- For a sequence of packages, the items are the flags of all of them in order, with each grouped
option and its argument in one item, unless reading the flags of some package fails; any text that is
no sequence of objects gives an error. -/
theorem cgoLinkItems_collects (decoder : Decoder) (stdout : Text) :
    (∀ packages flags, decoder.Written stdout packages →
      List.Forall₂ (fun package fs => package.flags? = some fs) packages flags →
        ((∃ e, cgoLinkItems decoder stdout = .error e) ↔ ∃ fs ∈ flags, Malformed fs) ∧
        ∀ items, cgoLinkItems decoder stdout = .ok items →
          (∃ groups, List.Forall₂ Reading flags groups ∧
            items = groups.flatten.map Group.item) ∧
          ((∀ fs ∈ flags, ∀ t, .text t ∈ fs → isTwoWords t = false) →
            (items.flatMap fun item => ungroup item.value).map Flag.text = flags.flatten)) ∧
    ((∀ packages, ¬ decoder.Written stdout packages) →
      ∃ e, cgoLinkItems decoder stdout = .error e) := by
  constructor
  · intro packages flags hwritten hflags
    have hloop : cgoLinkItems decoder stdout = _ := loop_of_written hwritten List.drop_zero []
    have hitems := mapM_linkItems hflags
    cases hm : packages.mapM Package.linkItems with
    | error e =>
        rw [hm] at hloop hitems
        rw [hloop]
        exact ⟨iff_of_true ⟨e, rfl⟩ hitems, fun items h => by cases h⟩
    | ok new =>
        rw [hm] at hloop hitems
        obtain ⟨hnone, groups, hreads, rfl⟩ := hitems
        rw [hloop]
        refine ⟨iff_of_false (fun ⟨e, h⟩ => by cases h) (fun ⟨fs, hmem, h⟩ => hnone fs hmem h), ?_⟩
        intro items h
        cases h
        refine ⟨⟨groups, hreads, ?_⟩, ?_⟩
        · rw [List.nil_append, List.map_flatten]
        · intro htwo
          rw [List.nil_append, ← List.map_flatten]
          -- Package by package, the groups give the flags back.
          clear hm hloop hnone hflags
          induction hreads with
          | nil => rfl
          | @cons fs gs flags groups hread _ ih =>
              have hhead := ungroup_groups hread (htwo fs List.mem_cons_self)
              have htail := ih fun f hf => htwo f (List.mem_cons_of_mem _ hf)
              rw [List.flatten_cons, List.map_append, List.flatMap_append, List.map_append, htail,
                List.flatten_cons, List.flatMap_map, hhead]
  · intro hnone
    cases hres : cgoLinkItems decoder stdout with
    | error e => exact ⟨e, rfl⟩
    | ok items =>
        obtain ⟨packages, hwritten⟩ := written_of_loop hres
        rw [List.drop_zero] at hwritten
        exact absurd hwritten (hnone packages)

/-! ## A decoder for given texts -/

/-- The decoder of finitely many texts, none of which begins another. -/
def tableDecoder (table : List (Text × Json))
    (hstarts : ∀ e ∈ table, ∃ c ∈ e.1.head?, Text.isSpace c = false)
    (hfree : ∀ e ∈ table, ∀ e' ∈ table, e.1 <+: e'.1 → e = e') : Decoder where
  repr := fun _ => []
  Encodes := fun o v => (o, v) ∈ table
  rawDecode := fun s i =>
    (table.find? fun e => e.1.isPrefixOf (s.drop i)).map fun e => (e.2, i + e.1.length)
  starts := fun o v h => hstarts (o, v) h
  sound := by
    intro s i v j h
    obtain ⟨e, hfind, heq⟩ := Option.map_eq_some_iff.1 h
    cases heq
    have hprefix := List.find?_some hfind
    rw [List.isPrefixOf_iff_prefix] at hprefix
    obtain ⟨rest, hrest⟩ := hprefix
    exact ⟨e.1, rest, hrest.symm, List.mem_of_find?_eq_some hfind, rfl⟩
  complete := by
    intro s i o rest members hdrop hmem
    have hpo : o <+: s.drop i := ⟨rest, hdrop.symm⟩
    have hsome : (table.find? fun e => e.1.isPrefixOf (s.drop i)).isSome = true := by
      rw [List.find?_isSome]
      exact ⟨_, hmem, List.isPrefixOf_iff_prefix.2 hpo⟩
    obtain ⟨e, hfind⟩ := Option.isSome_iff_exists.1 hsome
    have hpe := List.find?_some hfind
    rw [List.isPrefixOf_iff_prefix] at hpe
    have he : e = (o, .object members) := by
      have hmeme := List.mem_of_find?_eq_some hfind
      rcases List.prefix_or_prefix_of_prefix hpe hpo with h | h
      · exact hfree e hmeme _ hmem h
      · exact (hfree _ hmem e hmeme h).symm
    rw [hfind, he]
    rfl

def arrayText : Text :=
  "\x7b\"CgoLDFLAGS\":[\"-framework\",\"Security\",\"-lm\"]\x7d".toList

def arrayFlags : List Flag :=
  [.text "-framework".toList, .text "Security".toList, .text "-lm".toList]

def stringText : Text :=
  "\x7b\"CgoLDFLAGS\":\"-l\"\x7d".toList

def nullText : Text :=
  "\x7b\"CgoLDFLAGS\":null\x7d".toList

def goListTexts : List (Text × Json) :=
  [(arrayText, .object [("CgoLDFLAGS".toList, .array [.string "-framework".toList,
      .string "Security".toList, .string "-lm".toList])]),
    (stringText, .object [("CgoLDFLAGS".toList, .string "-l".toList)]),
    (nullText, .object [("CgoLDFLAGS".toList, .null)])]

def goListDecoder : Decoder :=
  tableDecoder goListTexts
    (by
      have hall : (goListTexts.all fun e => e.1.head?.any fun c => !Text.isSpace c) = true := by
        decide
      intro e he
      have hany := List.all_eq_true.1 hall e he
      rw [Option.any_eq_true] at hany
      obtain ⟨c, hc, hspace⟩ := hany
      exact ⟨c, hc, by simpa using hspace⟩)
    (by
      have hall : (goListTexts.all fun e => goListTexts.all fun e' =>
          !e.1.isPrefixOf e'.1 || decide (e.1 = e'.1)) = true := by decide
      have hnodup : (goListTexts.map Prod.fst).Nodup := by decide
      intro e he e' he' h
      have hor := List.all_eq_true.1 (List.all_eq_true.1 hall e he) e' he'
      rw [List.isPrefixOf_iff_prefix.2 h] at hor
      exact List.inj_on_of_nodup_map hnodup he he' (by simpa using hor))

private theorem goList_written {o : Text} {members : List (Text × Json)}
    (h : (o, .object members) ∈ goListTexts) :
    goListDecoder.Written o [goListDecoder.package members] := by
  have hw : goListDecoder.Written ([] ++ (o ++ [])) [goListDecoder.package members] :=
    .cons rfl h (.nil rfl)
  rwa [List.nil_append, List.append_nil] at hw

private theorem goList_not_written (packages : List Package) : ¬ goListDecoder.Written
    [']'] packages := by
  intro h
  generalize ht : ([']'] : Text) = t at h
  cases h with
  | nil hspace =>
      subst ht
      exact absurd hspace (by decide)
  | @cons space o t package packages hspace ho hrest =>
      have hlong : (goListTexts.all fun e => 1 < e.1.length) = true := by decide
      have hlen := List.all_eq_true.1 hlong _ ho
      have heq := congrArg List.length ht
      simp only [List.length_append, List.length_cons, List.length_nil, decide_eq_true_eq] at heq hlen
      omega

private theorem not_malformed_of_isOk {packageName : Text} {flags : List Flag}
    (h : (normalizeCgoLinkFlags packageName flags).isOk = true) : ¬ Malformed flags := by
  have hspec := normalizeCgoLinkFlags_spec packageName flags
  cases hn : normalizeCgoLinkFlags packageName flags with
  | error e =>
      rw [hn] at h
      cases h
  | ok items =>
      rw [hn] at hspec
      exact hspec.1

private theorem arrayFlags_not_malformed : ¬ Malformed arrayFlags :=
  have hok : (normalizeCgoLinkFlags [] arrayFlags).isOk = true := by decide +kernel
  not_malformed_of_isOk hok

theorem cgoLinkItems_collects_at_arrayText :
    (∃ items, cgoLinkItems goListDecoder arrayText = .ok items ∧
      (items.flatMap fun item => ungroup item.value).map Flag.text = arrayFlags) ∧
    ∃ e, cgoLinkItems goListDecoder [']'] = .error e := by
  refine ⟨?_, (cgoLinkItems_collects goListDecoder [']']).2 goList_not_written⟩
  have hwritten : goListDecoder.Written arrayText [⟨none, some (.array arrayFlags)⟩] :=
    goList_written List.mem_cons_self
  obtain ⟨hraise, hok⟩ := (cgoLinkItems_collects goListDecoder arrayText).1
    [⟨none, some (.array arrayFlags)⟩] [arrayFlags] hwritten (.cons rfl .nil)
  cases hres : cgoLinkItems goListDecoder arrayText with
  | error e =>
      obtain ⟨fs, hfs, hbad⟩ := hraise.1 ⟨e, hres⟩
      rw [List.mem_singleton.1 hfs] at hbad
      exact absurd hbad arrayFlags_not_malformed
  | ok items =>
      have hwords : (arrayFlags.all fun f => match f with
          | .text t => !isTwoWords t
          | .other _ => true) = true := by decide
      have hflags := (hok items hres).2 (by
        intro fs hfs t ht
        rw [List.mem_singleton.1 hfs] at ht
        simpa using List.all_eq_true.1 hwords _ ht)
      rw [List.flatten_cons, List.flatten_nil, List.append_nil] at hflags
      exact ⟨items, rfl, hflags⟩

private theorem goList_single {o : Text} {package : Package}
    (h : goListDecoder.Written o [package]) : cgoLinkItems goListDecoder o =
      match package.linkItems with
      | .error e => .error e
      | .ok items => .ok items := by
  rw [cgoLinkItems, loop_of_written h List.drop_zero, List.mapM_cons, List.mapM_nil]
  cases package.linkItems with
  | error e => rfl
  | ok items => simp [bind, Except.bind, pure, Except.pure]

/-- Objects whose flags are no array: a string is taken apart into its characters without an error,
and null is an error although there is no flag. -/
theorem cgoLinkItems_without_array :
    (∃ items, cgoLinkItems goListDecoder stringText = .ok items ∧
      items.map LinkItem.value = [['-'], ['l']]) ∧
    cgoLinkItems goListDecoder nullText = .error .typeError := by
  have hstring : goListDecoder.Written stringText [⟨none, some (.string "-l".toList)⟩] :=
    goList_written (List.mem_cons_of_mem _ List.mem_cons_self)
  have hnull : goListDecoder.Written nullText [⟨none, some .scalar⟩] :=
    goList_written (List.mem_cons_of_mem _ (List.mem_cons_of_mem _ List.mem_cons_self))
  have hitems : (Package.mk none (some (.string "-l".toList))).linkItems =
      .ok [⟨['-'], by decide, by decide⟩, ⟨['l'], by decide, by decide⟩] := by
    decide +kernel
  constructor
  · rw [goList_single hstring, hitems]
    exact ⟨_, rfl, rfl⟩
  · rw [goList_single hnull]
    rfl

end SingBoxPython.Build
