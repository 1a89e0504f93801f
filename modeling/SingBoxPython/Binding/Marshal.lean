import SingBoxPython.Framework.Json
import SingBoxPython.Binding.Statistics
import SingBoxPython.Binding.Wrapper
import SingBoxPython.Sync.Command

/-!
# A statistics query across the language boundary

`queryStats` of `src/singbox.cpp` and `singbox_query_stats` of `singbox-go/binding/main.go` as one
sequential computation.  The patterns go out as JSON in UTF-8; the snapshot and the errors come
back as C strings.
-/

namespace SingBoxPython.Binding
open Framework

abbrev Bytes := Sync.Bytes

/-! ## C strings -/

/-- `C.CString`: the bytes in C memory, with a NUL behind them. -/
def cString (bytes : Bytes) : Bytes :=
  bytes ++ [0]

def stdString (memory : Bytes) : Bytes :=
  memory.takeWhile (· ≠ 0)

def newError (message : Text) : Bytes :=
  cString (Sync.utf8 message)

/-- `take_c_string`, where `none` is the null pointer. -/
def takeCString : Option Bytes → Bytes
  | none => []
  | some memory => stdString memory

/-! ## The Go side -/

def maxInt32 : Nat := 2147483647

/-- The content is valid UTF-8 when it is returned, so it is given as its characters. -/
def bytesFromC (data : Option Bytes) (length : Nat) : Except Text Text :=
  if data = none ∧ length ≠ 0 then .error "input pointer is null".toList
  else if length > maxInt32 then .error "input is too large".toList
  else
    match Sync.decodeUtf8 ((data.getD []).take length) with
    | none => .error "input is not valid UTF-8".toList
    | some content => .ok content

/-- `encoding/json` when it reads. -/
def goDialect : Json.Dialect where
  constants := []
  replacement := some (Char.ofNat 0xFFFD)
  maxDepth := 10000

/-- The characters `json.Marshal` writes as `\u` and four digits: the controls, `<`, `>`, `&` and
the two line separators. -/
def goEscaped (c : Char) : Bool :=
  c.toNat < 0x20 || [0x3C, 0x3E, 0x26, 0x2028, 0x2029].contains c.toNat

private theorem goEscaped_control (c : Char) (h : c.toNat < 0x20) : goEscaped c = true := by
  simp [goEscaped, h]

private theorem goEscaped_bmp (c : Char) (h : goEscaped c = true) : c.toNat < 0x10000 := by
  simp only [goEscaped, Bool.or_eq_true, decide_eq_true_eq, List.contains_iff_mem, List.mem_cons,
    List.not_mem_nil, or_false] at h
  omega

def goStyle : Json.Style where
  unicode := goEscaped
  gap := 0
  control := goEscaped_control
  bmp := goEscaped_bmp

/-- A JSON value in a variable of type `[]string`; an item that is null leaves the empty string. -/
def stringSlice : Json → Option (List Text)
  | .null => some []
  | .array items => items.mapM fun
      | .string t => some t
      | .null => some []
      | _ => none
  | _ => none

structure MemStats where
  alloc : Nat
  totalAlloc : Nat
  sys : Nat
  mallocs : Nat
  frees : Nat
  numGC : Nat
  pauseTotalNs : Nat

structure RuntimeSnapshot where
  uptimeSeconds : Nat
  goroutines : Nat
  alloc : Nat
  totalAlloc : Nat
  sys : Nat
  mallocs : Nat
  frees : Nat
  liveObjects : Nat
  numGC : Nat
  pauseTotalNS : Nat

structure ClashSnapshot where
  uplinkBytes : Int
  downlinkBytes : Int
  activeConnections : Nat

structure StatisticsSnapshot where
  runtime : RuntimeSnapshot
  clash : Option ClashSnapshot
  v2ray : Option (List Stat)

def RuntimeSnapshot.json (r : RuntimeSnapshot) : Json :=
  .object
    [("uptime_seconds".toList, .int r.uptimeSeconds),
      ("goroutines".toList, .int r.goroutines),
      ("alloc".toList, .int r.alloc),
      ("total_alloc".toList, .int r.totalAlloc),
      ("sys".toList, .int r.sys),
      ("mallocs".toList, .int r.mallocs),
      ("frees".toList, .int r.frees),
      ("live_objects".toList, .int r.liveObjects),
      ("num_gc".toList, .int r.numGC),
      ("pause_total_ns".toList, .int r.pauseTotalNS)]

def ClashSnapshot.json (c : ClashSnapshot) : Json :=
  .object
    [("uplink_bytes".toList, .int c.uplinkBytes),
      ("downlink_bytes".toList, .int c.downlinkBytes),
      ("active_connections".toList, .int c.activeConnections)]

def Stat.json (x : Stat) : Json :=
  .object [("name".toList, .string x.name), ("value".toList, .int x.value)]

def StatisticsSnapshot.json (s : StatisticsSnapshot) : Json :=
  .object
    [("runtime".toList, s.runtime.json),
      ("clash".toList, s.clash.elim .null ClashSnapshot.json),
      ("v2ray".toList, s.v2ray.elim .null fun counters =>
        .object [("counters".toList, .array (counters.map Stat.json))])]

/-- What a query reads of an instance: the clock and the runtime, the traffic manager and the V2Ray
statistics, where the configuration has them. -/
structure Observed where
  closed : Bool
  uptimeSeconds : Nat
  goroutines : Nat
  memory : MemStats
  trafficManager : Option ClashSnapshot
  v2rayStats : Option (QueryRequest → Except Text (List Stat))

def runtimeSnapshot (observed : Observed) : RuntimeSnapshot where
  uptimeSeconds := observed.uptimeSeconds
  goroutines := observed.goroutines
  alloc := observed.memory.alloc
  totalAlloc := observed.memory.totalAlloc
  sys := observed.memory.sys
  mallocs := observed.memory.mallocs
  frees := observed.memory.frees
  -- a difference of two `uint64`
  liveObjects := (observed.memory.mallocs + 2 ^ 64 - observed.memory.frees) % 2 ^ 64
  numGC := observed.memory.numGC
  pauseTotalNS := observed.memory.pauseTotalNs

def queryStatistics (slice : SortSlice) (observed : Observed) (request : QueryRequest) :
    Except Text StatisticsSnapshot :=
  if observed.closed then .error "sing-box service is stopped".toList
  else
    match observed.v2rayStats with
    | none => .ok ⟨runtimeSnapshot observed, observed.trafficManager, none⟩
    | some queryStats =>
        match queryStats request with
        | .error e => .error ("query sing-box V2Ray statistics: ".toList ++ e)
        | .ok response =>
            .ok ⟨runtimeSnapshot observed, observed.trafficManager, some (slice.sort response)⟩

/-- What `singbox_query_stats` leaves: the error it returns and the string at `resultOut`. -/
structure QueryReturn where
  error : Option Bytes
  result : Option Bytes

section Query

-- `detail` is what `encoding/json` says of a text that is no list of strings.
variable (slice : SortSlice) (instances : Handle → Option Observed) (detail : Text → Text)

/-- `singbox_query_stats` up to the marshalled snapshot. -/
def answerQuery (handle : Handle) (data : Option Bytes) (length : Nat) (reset regexp : Bool) :
    Except Text StatisticsSnapshot := do
  let content ← bytesFromC data length
  match (Json.read goDialect content).bind stringSlice with
  | none => .error ("decode statistics patterns: ".toList ++ detail content)
  | some patterns =>
      match instances handle with
      | none => .error ("unknown or stopped sing-box handle ".toList ++ numeral handle.toNat)
      | some observed => queryStatistics slice observed ⟨patterns, reset, regexp⟩

def singboxQueryStats (handle : Handle) (data : Option Bytes) (length : Nat)
    (reset regexp : Bool) (resultOut : Bool) : QueryReturn :=
  if resultOut = false then ⟨some (newError "statistics output pointer is null".toList), none⟩
  else
    match answerQuery slice instances detail handle data length reset regexp with
    | .error message => ⟨some (newError message), none⟩
    | .ok snapshot => ⟨none, some (cString (Sync.utf8 (goStyle.write snapshot.json)))⟩

/-! ## The C++ side -/

inductive Raised
  | logicError (message : Text)
  | singBoxError (message : Text)
  | unicodeDecodeError
  | jsonDecodeError
  | castError

def pyString (bytes : Bytes) : Except Raised Text :=
  match Sync.decodeUtf8 bytes with
  | none => .error .unicodeDecodeError
  | some t => .ok t

def throwIfError : Option Bytes → Except Raised Unit
  | none => .ok ()
  | some error => do
      let message ← pyString (takeCString (some error))
      .error (.singBoxError message)

/-- `json.dumps` with `ensure_ascii=False`. -/
def pyStyle : Json.Style where
  unicode c := c.toNat < 0x20
  gap := 1
  control c h := by simp [h]
  bmp c h := by
    simp only [decide_eq_true_eq] at h
    omega

/-- `json.loads` under a limit on the nesting. -/
def pyDialect (recursionLimit : Nat) : Json.Dialect where
  constants := ["NaN".toList, "Infinity".toList, "-Infinity".toList]
  replacement := none
  maxDepth := recursionLimit

def encodePatterns (patterns : List Text) : Bytes :=
  Sync.utf8 (pyStyle.write (.array (patterns.map .string)))

def castDict : Json → Except Raised Json
  | .object members => .ok (.object members)
  | _ => .error .castError

def receive (recursionLimit : Nat) (returned : QueryReturn) : Except Raised Json := do
  throwIfError returned.error
  let encodedResult ← pyString (takeCString returned.result)
  match Json.read (pyDialect recursionLimit) encodedResult with
  | none => .error .jsonDecodeError
  | some result => castDict result

/-- `queryStats` of an object with these members, called with patterns that pybind has converted to
`std::string`. -/
def queryStats (recursionLimit : Nat) (member : Object) (patterns : List Bytes)
    (reset regexp : Bool) : Except Raised Json := do
  let decoded ← patterns.mapM pyString
  let encodedPatterns := encodePatterns decoded
  if member.operationInProgress then
    .error (.logicError
      "another operation is already in progress on this SingBox instance".toList)
  else if member.handle = 0 then
    .error (.logicError "this SingBox instance is not running".toList)
  else
    receive recursionLimit (singboxQueryStats slice instances detail member.handle (some encodedPatterns)
      encodedPatterns.length reset regexp true)

end Query

/-! ## Strings that cross -/

def upToNul (t : Text) : Text :=
  t.takeWhile (· ≠ '\x00')

private theorem utf8_eq (t : Text) : Sync.utf8 t = t.flatMap String.utf8EncodeChar := by
  rw [Sync.utf8]
  have hbytes : (String.ofList t).toUTF8 = t.utf8Encode := String.toByteArray_ofList
  rw [hbytes, List.utf8Encode, List.data_toByteArray]

private theorem zero_notMem_utf8EncodeChar {c : Char} (h : c ≠ '\x00') :
    (0 : UInt8) ∉ String.utf8EncodeChar c := by
  have hval : c.val.toNat ≠ 0 := by
    intro h0
    exact h (Char.ext (UInt32.toNat_inj.1 h0))
  have hbyte : ∀ n, 0 < n → n < 256 → (0 : UInt8) ≠ UInt8.ofNat n := by
    intro n hpos hlt h0
    have hn := congrArg UInt8.toNat h0
    rw [UInt8.toNat_ofNat_of_lt' hlt] at hn
    exact absurd hn (Nat.ne_of_lt hpos)
  rw [String.utf8EncodeChar]
  split
  · simp only [List.mem_singleton]
    exact hbyte _ (by omega) (by omega)
  · split
    · simp only [List.mem_cons, List.not_mem_nil, or_false, not_or]
      exact ⟨hbyte _ (by omega) (by omega), hbyte _ (by omega) (by omega)⟩
    · split
      · simp only [List.mem_cons, List.not_mem_nil, or_false, not_or]
        exact ⟨hbyte _ (by omega) (by omega), hbyte _ (by omega) (by omega),
          hbyte _ (by omega) (by omega)⟩
      · simp only [List.mem_cons, List.not_mem_nil, or_false, not_or]
        exact ⟨hbyte _ (by omega) (by omega), hbyte _ (by omega) (by omega),
          hbyte _ (by omega) (by omega), hbyte _ (by omega) (by omega)⟩

private theorem stdString_cString (t : Text) :
    stdString (cString (Sync.utf8 t)) = Sync.utf8 (upToNul t) := by
  have hcut : cString (Sync.utf8 t) = (t ++ ['\x00']).flatMap String.utf8EncodeChar := by
    rw [cString, utf8_eq, List.flatMap_append]
    rfl
  rw [stdString, hcut, utf8_eq, takeWhile_flatMap (f := fun c => decide (c ≠ '\x00'))]
  · congr 1
    rw [upToNul, List.takeWhile_append]
    split
    · rename_i hall
      have hstop : List.takeWhile (fun c => decide (c ≠ '\x00')) ['\x00'] = [] := rfl
      rw [hstop, List.append_nil]
      exact ((List.takeWhile_prefix _).eq_of_length hall).symm
    · rfl
  · intro c hc b hb
    simp only [decide_eq_true_eq] at hc ⊢
    rintro rfl
    exact zero_notMem_utf8EncodeChar hc hb
  · intro c hc
    simp only [decide_eq_false_iff_not, not_not] at hc
    subst hc
    exact ⟨0, [], rfl, rfl⟩

private theorem upToNul_of_noControl {t : Text} (h : Json.NoControl t) : upToNul t = t := by
  rw [upToNul, List.takeWhile_eq_self_iff]
  intro c hc
  have hcontrol := h c hc
  simp only [decide_eq_true_eq]
  rintro rfl
  exact absurd hcontrol (by decide)

/-! ## The whole query -/

private theorem printable_json
    (snapshot : StatisticsSnapshot) : Json.Printable 4 snapshot.json := by
  have hstat : ∀ x : Stat, Json.Printable 1 x.json := fun x => by simp [Stat.json, Json.Printable]
  have hruntime : Json.Printable 3 snapshot.runtime.json := by
    simp [RuntimeSnapshot.json, Json.Printable]
  have hclash : Json.Printable 3 (snapshot.clash.elim .null ClashSnapshot.json) := by
    cases snapshot.clash with
    | none => simp [Json.Printable]
    | some clash => simp [ClashSnapshot.json, Json.Printable]
  have hv2ray : Json.Printable 3 (snapshot.v2ray.elim .null fun counters =>
      .object [("counters".toList, .array (counters.map Stat.json))]) := by
    cases snapshot.v2ray with
    | none => simp [Json.Printable]
    | some counters =>
        rw [Option.elim_some, Json.Printable]
        intro m hm
        rw [List.mem_singleton.1 hm, Json.Printable]
        intro j hj
        obtain ⟨x, -, rfl⟩ := List.mem_map.1 hj
        exact hstat x
  rw [StatisticsSnapshot.json, Json.Printable]
  intro m hm
  simp only [List.mem_cons, List.not_mem_nil, or_false] at hm
  rcases hm with rfl | rfl | rfl
  · exact hruntime
  · exact hclash
  · exact hv2ray

private theorem stringSlice_strings (texts : List Text) :
    stringSlice (.array (texts.map .string)) = some texts := by
  rw [stringSlice]
  induction texts with
  | nil => rfl
  | cons t texts ih =>
      rw [List.map_cons, List.mapM_cons, ih]
      rfl

private theorem mapM_pyString (texts : List Text) :
    (texts.map Sync.utf8).mapM pyString = .ok texts := by
  induction texts with
  | nil => rfl
  | cons t texts ih =>
      rw [List.map_cons, List.mapM_cons, pyString, Sync.decodeUtf8_utf8, ih]
      rfl

private theorem read_encodePatterns (patterns : List Text) :
    (Json.read goDialect (pyStyle.write (.array (patterns.map .string)))).bind stringSlice =
      some patterns := by
  have hprintable : Json.Printable goDialect.maxDepth (.array (patterns.map .string)) := by
    refine Json.Printable.mono (n := 1) (by decide) ?_
    rw [Json.Printable]
    intro j hj
    obtain ⟨t, -, rfl⟩ := List.mem_map.1 hj
    simp [Json.Printable]
  rw [Json.read_write hprintable, Option.bind_some, stringSlice_strings]

private theorem bytesFromC_utf8 (t : Text) :
    bytesFromC (some (Sync.utf8 t)) (Sync.utf8 t).length =
      if (Sync.utf8 t).length > maxInt32 then .error "input is too large".toList else .ok t := by
  rw [bytesFromC, if_neg (by simp), Option.getD_some, List.take_length, Sync.decodeUtf8_utf8]

private theorem throwIfError_newError (message : Text) :
    throwIfError (some (newError message)) = .error (.singBoxError (upToNul message)) := by
  rw [throwIfError, takeCString, newError, stdString_cString, pyString, Sync.decodeUtf8_utf8]
  rfl

private theorem receive_error (recursionLimit : Nat) (message : Text) :
    receive recursionLimit ⟨some (newError message), none⟩ =
      .error (.singBoxError (upToNul message)) := by
  rw [receive, throwIfError_newError]
  rfl

private theorem receive_snapshot {recursionLimit : Nat} (hlimit : 4 ≤ recursionLimit)
    (snapshot : StatisticsSnapshot) :
    receive recursionLimit ⟨none, some (cString (Sync.utf8 (goStyle.write snapshot.json)))⟩ =
      .ok snapshot.json := by
  have hprintable := printable_json snapshot
  have harrives : pyString (takeCString (some (cString (Sync.utf8 (goStyle.write snapshot.json))))) =
      .ok (goStyle.write snapshot.json) := by
    rw [takeCString, stdString_cString, upToNul_of_noControl (Json.noControl_write hprintable),
      pyString, Sync.decodeUtf8_utf8]
  have hread : Json.read (pyDialect recursionLimit) (goStyle.write snapshot.json) =
      some snapshot.json := Json.read_write (hprintable.mono hlimit)
  simp only [receive, throwIfError, harrives, bind, Except.bind, hread]
  rfl

private theorem upToNul_unknownHandle (n : Nat) :
    upToNul ("unknown or stopped sing-box handle ".toList ++ numeral n) =
      "unknown or stopped sing-box handle ".toList ++ numeral n :=
  upToNul_of_noControl (Json.noControl_append (by simp [Json.NoControl]) (Json.noControl_writeInt n))

section Query

variable (slice : SortSlice) (instances : Handle → Option Observed) (detail : Text → Text)

/-- What a query is for: `queryStatistics` of the instance with this handle, called as if there
were no boundary. -/
def directQuery (member : Object) (patterns : List Text) (reset regexp : Bool) :
    Except Raised StatisticsSnapshot :=
  if member.operationInProgress then
    .error (.logicError
      "another operation is already in progress on this SingBox instance".toList)
  else if member.handle = 0 then
    .error (.logicError "this SingBox instance is not running".toList)
  else if (encodePatterns patterns).length > maxInt32 then
    .error (.singBoxError "input is too large".toList)
  else
    match instances member.handle with
    | none =>
        .error (.singBoxError
          ("unknown or stopped sing-box handle ".toList ++ numeral member.handle.toNat))
    | some observed =>
        (queryStatistics slice observed ⟨patterns, reset, regexp⟩).mapError fun message =>
          .singBoxError (upToNul message)

private theorem answerQuery_encodePatterns (handle : Handle) (patterns : List Text)
    (reset regexp : Bool) :
    answerQuery slice instances detail handle (some (encodePatterns patterns))
        (encodePatterns patterns).length reset regexp =
      if (encodePatterns patterns).length > maxInt32 then .error "input is too large".toList
      else
        (instances handle).elim
          (.error ("unknown or stopped sing-box handle ".toList ++ numeral handle.toNat))
          fun observed => queryStatistics slice observed ⟨patterns, reset, regexp⟩ := by
  rw [answerQuery, encodePatterns, bytesFromC_utf8]
  split
  · rfl
  · simp only [bind, Except.bind, read_encodePatterns]
    cases instances handle <;> rfl

/-- The boundary adds nothing to a query and takes nothing away: patterns and flags arrive on the
Go side as they were given, the snapshot arrives in Python as it was made, and of an error only
what follows a NUL is lost. -/
theorem queryStats_transparent {recursionLimit : Nat} (hlimit : 4 ≤ recursionLimit)
    (member : Object) (patterns : List Text) (reset regexp : Bool) :
    queryStats slice instances detail recursionLimit member (patterns.map Sync.utf8) reset regexp =
      (directQuery slice instances member patterns reset regexp).map StatisticsSnapshot.json := by
  rw [queryStats, mapM_pyString, directQuery]
  simp only [bind, Except.bind]
  split
  · rfl
  split
  · rfl
  rw [singboxQueryStats, if_neg (by simp), answerQuery_encodePatterns]
  by_cases hsize : (encodePatterns patterns).length > maxInt32
  · rw [if_pos hsize, if_pos hsize]
    exact receive_error recursionLimit _
  · rw [if_neg hsize, if_neg hsize]
    cases instances member.handle with
    | none =>
        refine (receive_error recursionLimit _).trans ?_
        rw [upToNul_unknownHandle]
        rfl
    | some observed =>
        dsimp only [Option.elim_some]
        cases queryStatistics slice observed ⟨patterns, reset, regexp⟩ with
        | error message => exact receive_error recursionLimit message
        | ok snapshot => exact receive_snapshot hlimit snapshot

end Query

def quotedCounter : Observed where
  closed := false
  uptimeSeconds := 3
  goroutines := 8
  memory := ⟨1, 2, 3, 5, 4, 0, 0⟩
  trafficManager := some ⟨10, 20, 1⟩
  v2rayStats := some fun request =>
    if request.patterns = [['"', '\n']] then .ok [⟨['"', '\n', '<'], -1⟩] else .error ['\x00']

def stableSlice : SortSlice :=
  ⟨sortStats, sortStats_perm, sortStats_pairwise⟩

theorem queryStats_transparent_at_quotedCounter :
    4 ≤ 1000 ∧
      queryStats stableSlice (fun _ => some quotedCounter) id 1000 { handle := 1 }
          [Sync.utf8 ['"', '\n']] true false =
        (directQuery stableSlice (fun _ => some quotedCounter) { handle := 1 } [['"', '\n']] true
          false).map StatisticsSnapshot.json :=
  ⟨by decide, queryStats_transparent _ _ id (by decide) _ [['"', '\n']] true false⟩

end SingBoxPython.Binding
