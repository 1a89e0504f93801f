import SingBoxPython.Framework.Effect
import SingBoxPython.Sync.Vendor
import SingBoxPython.Sync.Version

/-!
# Synchronizing with an upstream release

`sync_command` of `scripts/sync-sing-box.py`: the checks of the current state, the import of the
target, and the rollback when something raises after the vendored tree was moved away.
-/

namespace SingBoxPython.Sync
open Framework

/-! ## Text files -/

def utf8 (t : Text) : Bytes :=
  (String.ofList t).toUTF8.data.toList

def decodeUtf8 (bytes : Bytes) : Option Text :=
  (ByteArray.mk bytes.toArray).utf8Decode?.map Array.toList

theorem decodeUtf8_utf8 (t : Text) : decodeUtf8 (utf8 t) = some t := by
  have hbytes : ByteArray.mk (utf8 t).toArray = t.utf8Encode := by
    rw [utf8, Array.toArray_toList]
    exact String.toByteArray_ofList
  rw [decodeUtf8, hbytes, List.utf8Decode?_utf8Encode]
  simp

/-- The newlines that reading in text mode makes of carriage returns. -/
def universalNewlines : Text → Text
  | [] => []
  | '\r' :: '\n' :: t => '\n' :: universalNewlines t
  | c :: t => (if c = '\r' then '\n' else c) :: universalNewlines t

private theorem notMem_universalNewlines (t : Text) : '\r' ∉ universalNewlines t := by
  induction t using universalNewlines.induct with
  | case1 => exact List.not_mem_nil
  | case2 t ih =>
      rw [universalNewlines]
      exact List.not_mem_cons_of_ne_of_not_mem (by decide) ih
  | case3 c t hne ih =>
      rw [universalNewlines]
      · refine List.not_mem_cons_of_ne_of_not_mem ?_ ih
        by_cases hc : c = '\r'
        · rw [if_pos hc]
          decide
        · rw [if_neg hc]
          exact Ne.symm hc
      · exact hne

private theorem universalNewlines_of_notMem {t : Text}
    (h : '\r' ∉ t) : universalNewlines t = t := by
  induction t with
  | nil => rfl
  | cons c t ih =>
      rw [List.mem_cons, not_or] at h
      rw [universalNewlines, if_neg (Ne.symm h.1), ih h.2]
      intro u hc _
      exact h.1 hc.symm

def strippedText (bytes : Bytes) : Option Text :=
  (decodeUtf8 bytes).map fun t => Text.strip (universalNewlines t)

theorem strippedText_line {t : Text} (hreturn : '\r' ∉ t)
    (hfirst : ∀ c ∈ t.head?, Text.isSpace c = false)
    (hlast : ∀ c ∈ t.getLast?, Text.isSpace c = false) :
    strippedText (utf8 (t ++ ['\n'])) = some t := by
  have hline : '\r' ∉ t ++ ['\n'] := by
    rw [List.mem_append, not_or]
    exact ⟨hreturn, by decide⟩
  rw [strippedText, decodeUtf8_utf8, Option.map_some, universalNewlines_of_notMem hline]
  by_cases hne : t = []
  · subst hne
    rfl
  · rw [strip_append_newline hfirst hlast hne]

/-- What was read once is read again from the line that is written of it. -/
theorem strippedText_rewritten {bytes : Bytes} {t : Text} (h : strippedText bytes = some t) :
    strippedText (utf8 (t ++ ['\n'])) = some t := by
  obtain ⟨u, -, rfl⟩ := Option.map_eq_some_iff.1 h
  refine strippedText_line ?_ Text.head?_strip Text.getLast?_strip
  intro hmem
  exact notMem_universalNewlines u (Text.mem_of_mem_strip hmem)

inductive ProjectFile
  | version
  | commit
  | goVersion
  deriving DecidableEq

def ProjectFile.name : ProjectFile → Text
  | .version => "UPSTREAM_VERSION".toList
  | .commit => "UPSTREAM_COMMIT".toList
  | .goVersion => ".go-version".toList

def ProjectFile.kind : ProjectFile → Text
  | .version => "version".toList
  | .commit => "commit".toList
  | .goVersion => "Go toolchain".toList

/-- The project as far as the script changes it: the vendored tree and three files. -/
structure Repo where
  vendor : Option Vendor
  files : ProjectFile → Option Bytes

/-- The operations of `sync_command`, up to the end of its `try` block, that may raise. -/
inductive Operation
  | initialChecks
  | targetCheckout
  | goPin
  | export
  | copy (relative : Text)
  | renameAway
  | renameIn
  | write (file : ProjectFile)
  | verifyVendor
  | verifyGo
  deriving DecidableEq

/-- Where and how the command runs: the project root, what `git status` prints, what tags lead to in
the upstream repository, what exporting a commit gives, which operations raise, what a write that
raises leaves in its file, in which order `rmtree` comes to the objects of a tree, and what `mkdir` and
`copy2` do with an addition whose directory is a symbolic link. -/
structure Env where
  py : Python
  machine : Machine
  root : Text
  status : Repo → Text
  upstream : Text → Except Failure Checkout
  exports : Checkout → Vendor
  raises : Operation → Option Failure
  leaves : ProjectFile → Option Bytes
  scans : Vendor → List Text
  throughLink : Vendor → Text → Except Failure Vendor
  -- What is written through the link has no entry below the link.
  throughLink_lookup : ∀ staged relative after, throughLink staged relative = .ok after →
    ∀ path ∈ projectAdditions, after.lookup path = staged.lookup path

/-! ## The readers -/

section Readers

variable (env : Env)

def readProjectFile (repo : Repo) (file : ProjectFile) : Except Failure Text :=
  match repo.files file with
  | none => .error (.syncError ("Missing ".toList ++ file.kind ++ " file: ".toList ++ env.root ++
      '/' :: file.name))
  | some bytes =>
      match strippedText bytes with
      | none => .error .unicodeError
      | some t => .ok t

def currentTag (repo : Repo) : Except Failure Text :=
  readProjectFile env repo .version >>= fun tag =>
    parseVersion env.py tag >>= fun _ => pure tag

def currentCommit (repo : Repo) : Except Failure Text :=
  readProjectFile env repo .commit >>= fun commit =>
    raiseIf (commit.length ≠ 40 ∨ commit.all isHex = false)
        (.syncError ("Invalid upstream commit: ".toList ++ env.py.repr commit)) >>=
      fun _ => pure commit

def currentGoVersion (repo : Repo) : Except Failure Text :=
  readProjectFile env repo .goVersion >>= fun version =>
    parseGoVersion env.py version >>= fun _ => pure version

end Readers

/-! ## The Go pin of a workflow -/

def isBlank (c : Char) : Bool :=
  c == ' ' || c == '\t'

def isQuote (c : Char) : Bool :=
  c == '\'' || c == '"'

def skipQuote : Text → Text
  | [] => []
  | c :: t => if isQuote c then t else c :: t

def readVersion (digit : Char → Bool) (t : Text) : Option (Text × Text) := do
  let (a, t) ← readRun digit t
  let t ← expect ['.'] t
  let (b, t) ← readRun digit t
  let t ← expect ['.'] t
  let (c, t) ← readRun digit t
  return (dotted a b c, t)

/-- `UPSTREAM_GO_VERSION_PATTERN` on one line: its group `version`. -/
def pinOfLine (py : Python) (line : Text) : Option Text := do
  let t ← expect "go-version:".toList (line.dropWhile isBlank)
  let (version, t) ← readVersion py.digits.isDigit (skipQuote (t.dropWhile isBlank))
  let rest := (skipQuote t).dropWhile isBlank
  if rest.isEmpty || rest.head? == some '#' then some version else none

def pins (py : Python) (workflow : Text) : List Text :=
  ((workflow.splitOn '\n').filterMap (pinOfLine py)).dedup

def versionLt (a b : List Nat) : Bool :=
  List.lex a b fun m n => decide (m < n)

theorem versionLt_iff {a b : List Nat} : versionLt a b = true ↔ a < b := by
  rw [versionLt, List.lex_eq_true_iff_lex]
  simp only [decide_eq_true_eq]
  rfl

theorem versionLt_of_not_lt {a b : List Nat} (h : versionLt b a = false) (hne : b ≠ a) :
    versionLt a b = true := by
  by_contra hab
  rw [versionLt_iff] at hab
  rw [Bool.eq_false_iff, ne_eq, versionLt_iff] at h
  exact hne (List.le_antisymm hab h)

def sortPins (py : Python) (versions : List Text) : Except Failure (List Text) :=
  (versions.mapM fun v => (parseGoVersion py v).map fun key => (key, v)) >>= fun keyed =>
    pure ((keyed.insertionSort fun a b => versionLt b.1 a.1 = false).map Prod.snd)

def goVersionFromWorkflow (py : Python) (workflow : Text) : Except Failure Text :=
  match pins py workflow with
  | [] =>
      .error (.syncError
        "Upstream build workflow contains no exact go-version toolchain pin".toList)
  | [version] => parseGoVersion py version >>= fun _ => pure version
  | versions =>
      sortPins py versions >>= fun sorted =>
        .error (.syncError
          ("Upstream build workflow contains ambiguous exact Go toolchain pins: ".toList ++
            commaList sorted))

def officialGoVersion (py : Python) (checkout : Checkout) : Except Failure Text :=
  match checkout.workflow with
  | none => .error (.commandFailed ["git".toList, "show".toList,
      checkout.treeish ++ ":.github/workflows/build.yml".toList])
  | some workflow => goVersionFromWorkflow py workflow

def verifyGoVersion (env : Env) (checkout : Checkout) (repo : Repo) : Except Failure Unit :=
  officialGoVersion env.py checkout >>= fun expected =>
    currentGoVersion env repo >>= fun actual =>
      raiseIf (actual ≠ expected)
          (.syncError ("Project Go toolchain is ".toList ++ actual ++ ", but upstream ".toList ++
            checkout.treeish ++ " builds with ".toList ++ expected)) >>=
        fun _ => pure ⟨⟩

/-! ## The checks of the current state -/

structure Current where
  tag : Text
  go : Text
  checkout : Checkout

/-- The files of the tree; a missing directory has none. -/
def Repo.tree (repo : Repo) : Vendor :=
  repo.vendor.getD ⟨[], List.nodup_nil⟩

/-- Everything up to the return for a target that is synchronized already; `none` stands for that
return. -/
def initialChecks (env : Env) (tag : Text) (repo : Repo) : Except Failure (Option Current) :=
  raiseIf (Text.strip (env.status repo) ≠ [])
      (.syncError "Synchronization requires a clean Git worktree".toList) >>= fun _ =>
  currentTag env repo >>= fun current =>
  currentGoVersion env repo >>= fun currentGo =>
  parseVersion env.py current >>= fun currentVersion =>
  parseVersion env.py tag >>= fun targetVersion =>
  raiseIf (versionLt targetVersion currentVersion = true)
      (.syncError ("Refusing to downgrade from ".toList ++ current ++ " to ".toList ++ tag)) >>=
    fun _ =>
  env.upstream current >>= fun checkout =>
  currentCommit env repo >>= fun commit =>
  raiseIf (checkout.commit ≠ commit)
      (.syncError ("Upstream tag ".toList ++ current ++ " resolved to ".toList ++
        checkout.commit ++ ", not pinned commit ".toList ++ commit)) >>= fun _ =>
  verifyVendor env.machine checkout repo.tree >>= fun _ =>
  verifyGoVersion env checkout repo >>= fun _ =>
  pure (if targetVersion = currentVersion then none else some ⟨current, currentGo, checkout⟩)

/-! ## The import -/

/-- The project, the two trees in the temporary directory, and the states that the project has gone
through, one for each change of the file system. -/
structure Workspace where
  repo : Repo
  staged : Option Vendor
  backup : Option Vendor
  history : List Repo

abbrev SyncM := Eff Workspace Failure

section Import

variable (env : Env)

def attempt (operation : Operation) : SyncM Unit :=
  match env.raises operation with
  | some e => throw e
  | none => pure ⟨⟩

def liftExcept {α : Type} : Except Failure α → SyncM α
  | .ok a => pure a
  | .error e => throw e

def setVendor (vendor : Option Vendor) : SyncM Unit :=
  modify fun s =>
    { s with
      repo := { s.repo with vendor := vendor }
      history := s.history ++ [{ s.repo with vendor := vendor }] }

def Repo.setFile (repo : Repo) (file : ProjectFile) (content : Option Bytes) : Repo :=
  { repo with files := fun f => if f = file then content else repo.files f }

def setFile (file : ProjectFile) (content : Option Bytes) : SyncM Unit :=
  modify fun s =>
    { s with
      repo := s.repo.setFile file content
      history := s.history ++ [s.repo.setFile file content] }

/-- `path.write_text(f"{text}\n")`: the file is emptied and then written. -/
def overwrite (file : ProjectFile) (text : Text) : SyncM Unit := do
  setFile file (some [])
  setFile file (some (utf8 (text ++ ['\n'])))

def writeText (file : ProjectFile) (text : Text) : SyncM Unit :=
  match env.raises (.write file) with
  | some e => do
      setFile file (env.leaves file)
      throw e
  | none => overwrite file text

/-- What `shutil.copy2` puts at the destination: it copies the file to which a link leads. -/
def copied (vendor : Vendor) (path : Text) : Option VendorObject :=
  match vendor.lookup path with
  | none => none
  | some (.file content executable) => some (.file content executable)
  | some (.symlink _) => (env.machine.opens vendor path).map fun content => .file content false

def Vendor.put (vendor : Vendor) (path : Text) (object : VendorObject) : Vendor where
  entries := vendor.entries.filter (fun e => e.1 ≠ path) ++ [(path, object)]
  nodup := by
    rw [List.map_append, List.nodup_append]
    refine ⟨vendor.nodup.sublist (List.filter_sublist.map _), List.nodup_singleton _, ?_⟩
    intro a ha b hb
    obtain ⟨e, he, rfl⟩ := List.mem_map.1 ha
    have hne : e.1 ≠ path := of_decide_eq_true (List.mem_filter.1 he).2
    rw [List.map_singleton, List.mem_singleton] at hb
    rw [hb]
    exact hne

/-- The object of the tree that stands where a directory of the path should be. -/
def Vendor.obstacle (vendor : Vendor) (path : Text) : Option (Text × VendorObject) :=
  vendor.entries.find? fun e => (e.1 ++ ['/']).isPrefixOf path

def stage (staged : Vendor) : SyncM Unit :=
  modify fun s => { s with staged := some staged }

/-- One round of the loop over `PROJECT_ADDITIONS`.  A file in the place of a directory makes `mkdir`
raise. -/
def copyAddition (relative : Text) : SyncM Unit := do
  attempt env (.copy relative)
  let s ← get
  match s.staged with
  | none => throw (.fileNotFound relative)
  | some staged =>
      match staged.obstacle relative with
      | some (path, .file _ _) => throw (.fileExists path)
      | some (_, .symlink _) => do
          let staged ← liftExcept (env.throughLink staged relative)
          stage staged
      | none =>
          match copied env s.repo.tree relative with
          | none => throw (.fileNotFound relative)
          | some object => stage (staged.put relative object)

def copyAdditions : List Text → SyncM Unit
  | [] => pure ⟨⟩
  | relative :: rest => do
      copyAddition env relative
      copyAdditions rest

def renameAway : SyncM Unit := do
  let s ← get
  match s.repo.vendor with
  | none => throw (.fileNotFound "singbox-go".toList)
  | some vendor => do
      modify fun s => { s with backup := some vendor }
      setVendor none

/-- Everything between the checks and the `try` block: the target and its Go version. -/
def prepare (tag : Text) : SyncM (Checkout × Text) := do
  attempt env .targetCheckout
  let target ← liftExcept (env.upstream tag)
  attempt env .goPin
  let go ← liftExcept (officialGoVersion env.py target)
  attempt env .export
  stage (env.exports target)
  copyAdditions env projectAdditions
  attempt env .renameAway
  renameAway
  return (target, go)

def renameIn : SyncM Unit := do
  let s ← get
  match s.staged with
  | none => throw (.fileNotFound "singbox-go".toList)
  | some vendor => do
      modify fun s => { s with staged := none }
      setVendor (some vendor)

def verifyTarget (target : Checkout) : SyncM Unit := do
  attempt env .verifyVendor
  let s ← get
  liftExcept (verifyVendor env.machine target s.repo.tree)

def verifyTargetGo (target : Checkout) : SyncM Unit := do
  attempt env .verifyGo
  let s ← get
  liftExcept (verifyGoVersion env target s.repo)

def install (tag : Text) (target : Checkout) (go : Text) : SyncM Unit := do
  attempt env .renameIn
  renameIn
  writeText env .version tag
  writeText env .commit target.commit
  writeText env .goVersion go
  verifyTarget env target
  verifyTargetGo env target

def Vendor.remove (vendor : Vendor) (path : Text) : Vendor where
  entries := vendor.entries.filter fun e => e.1 ≠ path
  nodup := vendor.nodup.sublist (List.filter_sublist.map _)

def unlinkAll : List Text → Vendor → SyncM Unit
  | [], _ => pure ⟨⟩
  | path :: rest, vendor => do
      setVendor (some (vendor.remove path))
      unlinkAll rest (vendor.remove path)

/-- `shutil.rmtree(VENDOR_DIR)`, where there is one: the objects go one by one, the directory last. -/
def removeVendor : SyncM Unit := do
  let s ← get
  match s.repo.vendor with
  | none => pure ⟨⟩
  | some vendor => do
      unlinkAll (env.scans vendor) vendor
      setVendor none

def rollback (current : Current) : SyncM Unit := do
  removeVendor env
  let s ← get
  setVendor s.backup
  overwrite .version current.tag
  overwrite .commit current.checkout.commit
  overwrite .goVersion current.go

def importTarget (tag : Text) (current : Current) : SyncM Unit := do
  let (target, go) ← prepare env tag
  tryCatch (install env tag target go) fun e => do
    rollback env current
    throw e

def syncCommand (tag : Text) : SyncM Unit := do
  attempt env .initialChecks
  let s ← get
  match initialChecks env tag s.repo with
  | .error e => throw e
  | .ok none => pure ⟨⟩
  | .ok (some current) => importTarget env tag current

def syncRun (tag : Text) (repo : Repo) : Except Failure Unit × Workspace :=
  Eff.exec (syncCommand env tag) ⟨repo, none, none, []⟩

end Import

end SingBoxPython.Sync
