import SingBoxPython.Framework.Dictionary
import SingBoxPython.Sync.Upstream

/-!
# Verifying the vendored tree

`verify_vendor` of `scripts/sync-sing-box.py` with the functions it calls, on a directory of regular
files and symbolic links.
-/

namespace SingBoxPython.Sync
open Framework

inductive VendorObject
  | file (content : Bytes) (executable : Bool)
  | symlink (target : Bytes)
  deriving DecidableEq

structure Vendor where
  entries : List (Text × VendorObject)
  nodup : (entries.map Prod.fst).Nodup
  deriving DecidableEq

def Vendor.paths (vendor : Vendor) : List Text :=
  vendor.entries.map Prod.fst

def Vendor.lookup (vendor : Vendor) (path : Text) : Option VendorObject :=
  vendor.entries.lookup path

/-- Where the script runs: the ids of git, what opening a symbolic link of a vendored tree reads
(`none` where it leads to no readable file), and what other paths read.  The empty path cannot be
opened. -/
structure Machine where
  ids : BlobIds
  windows : Bool
  opens : Vendor → Text → Option Bytes
  elsewhere : Text → Option Bytes
  elsewhere_nil : elsewhere [] = none

/-- What `upstream_checkout` gives: a name of the commit, the commit, its tree, and the text of its
build workflow where it has one. -/
structure Checkout where
  treeish : Text
  commit : Text
  tree : Tree
  workflow : Option Text

def projectAdditions : List Text :=
  ["binding/cronet_purego.go".toList, "binding/main.go".toList]

def legacyNormalizedModeCommit : Text :=
  "45ca32dcb966f07f97fc888fe8586e359dbe8405".toList

def legacyNormalizedExecutables : List Text :=
  [".github/build_alpine_apk.sh".toList, ".github/build_openwrt_apk.sh".toList,
    ".github/deb2ipk.sh".toList, ".github/detect_track.sh".toList,
    ".github/setup_go_for_macos1013.sh".toList, ".github/setup_go_for_windows7.sh".toList,
    ".github/update_clients.sh".toList, ".github/update_cronet.sh".toList,
    ".github/update_cronet_dev.sh".toList, ".github/update_dependencies.sh".toList,
    "docs/installation/tools/install.sh".toList, "release/config/openwrt.init".toList,
    "release/config/openwrt.prerm".toList, "release/config/sing-box.initd".toList,
    "release/local/common.sh".toList, "release/local/debug.sh".toList,
    "release/local/enable.sh".toList, "release/local/install.sh".toList,
    "release/local/install_go.sh".toList, "release/local/reinstall.sh".toList,
    "release/local/uninstall.sh".toList, "release/local/update.sh".toList]

def commaList (texts : List Text) : Text :=
  Text.join ", ".toList texts

def vendorFiles (vendor : Vendor) : List Text :=
  Text.sort vendor.paths

def overlaps (addition gitlink : Text) : Bool :=
  decide (addition = gitlink) || (gitlink ++ ['/']).isPrefixOf addition ||
    (addition ++ ['/']).isPrefixOf gitlink

def projectAdditionGitlinkCollisions (gitlinks : List Text) : List Text :=
  Text.sort (projectAdditions.filter fun addition => gitlinks.any (overlaps addition))

/-! ## Hashes -/

/-- The bytes that git reads for a path below the project root. -/
def Machine.read (machine : Machine) (vendor : Vendor) (line : Text) : Option Bytes :=
  match expect "singbox-go/".toList line with
  | none => machine.elsewhere line
  | some path =>
      match vendor.lookup path with
      | none => machine.elsewhere line
      | some (.file content _) => some content
      | some (.symlink _) => machine.opens vendor path

/-- The id that git prints for one line of its input. -/
def Machine.hashLine (machine : Machine) (vendor : Vendor) (line : Text) : Except Failure Text :=
  match machine.read vendor line with
  | none => .error (.commandFailed ["git".toList, "hash-object".toList, "--stdin-paths".toList])
  | some content => .ok (machine.ids.id content)

/-- `git hash-object --stdin-paths`. -/
def gitHashObject (machine : Machine) (vendor : Vendor) (input : Text) :
    Except Failure (List Text) :=
  (Text.lines input).mapM (machine.hashLine vendor)

def workingBlobHashes (machine : Machine) (vendor : Vendor) (paths : List Text) :
    Except Failure (List (Text × Text)) :=
  gitHashObject machine vendor
      (Text.join ['\n'] (paths.map fun path => "singbox-go/".toList ++ path) ++ ['\n']) >>=
    fun output =>
      raiseIf (output.length ≠ paths.length)
          (.syncError "git hash-object returned an unexpected number of hashes".toList) >>=
        fun _ => pure (paths.zip output)

/-! ## Modes -/

def VendorObject.mode : VendorObject → Text
  | .symlink _ => "120000".toList
  | .file _ true => "100755".toList
  | .file _ false => "100644".toList

/-- The comparison of one mode: the text for the list `changed`, where it differs. -/
def changedMode (commit : Text) (vendor : Vendor) (path expectedMode : Text) :
    Except Failure (Option Text) :=
  match vendor.lookup path with
  | none => .error (.fileNotFound path)
  | some object =>
      if object.mode ≠ expectedMode ∧
          ¬ (commit = legacyNormalizedModeCommit ∧ path ∈ legacyNormalizedExecutables ∧
            expectedMode = "100755".toList ∧ object.mode = "100644".toList) then
        .ok (some (path ++ " (".toList ++ object.mode ++ ", expected ".toList ++ expectedMode ++
          ")".toList))
      else .ok none

def auditedExecutables (expected : List (Text × Text × Text)) : Bool :=
  ((expected.filter fun b => b.2.1 = "100755".toList).all fun b =>
      legacyNormalizedExecutables.contains b.1) &&
    legacyNormalizedExecutables.all fun path =>
      (expected.filter fun b => b.2.1 = "100755".toList).any fun b => b.1 = path

def verifyFileModes (machine : Machine) (commit : Text) (vendor : Vendor)
    (expected : List (Text × Text × Text)) : Except Failure Unit :=
  raiseIf (commit = legacyNormalizedModeCommit ∧ auditedExecutables expected = false)
      (.syncError "The audited legacy executable-mode exception changed".toList) >>= fun _ =>
    if machine.windows then pure ⟨⟩
    else
      (expected.mapM fun b => changedMode commit vendor b.1 b.2.1) >>= fun changed =>
        raiseIf (changed.filterMap id ≠ [])
            (.syncError ("Modified upstream file modes: ".toList ++
              commaList (changed.filterMap id))) >>=
          fun _ => pure ⟨⟩

/-! ## The whole verification -/

/-- The list `details` of the mismatch message. -/
def mismatchDetails (missing unexpected : List Text) : List Text :=
  (if missing = [] then [] else ["missing: ".toList ++ commaList missing]) ++
    (if unexpected = [] then [] else ["unexpected: ".toList ++ commaList unexpected])

def ownedAdditions (expected : List (Text × Text × Text)) : List Text :=
  Text.sort (projectAdditions.filter fun path => (expected.map Prod.fst).contains path)

def missingPaths (expected : List (Text × Text × Text)) (vendor : Vendor) : List Text :=
  Text.sort ((expected.map Prod.fst ++ projectAdditions).filter fun path =>
    !(vendorFiles vendor).contains path)

def unexpectedPaths (expected : List (Text × Text × Text)) (vendor : Vendor) : List Text :=
  Text.sort ((vendorFiles vendor).filter fun path =>
    !(expected.map Prod.fst ++ projectAdditions).contains path)

/-- The upstream paths whose hash differs. -/
def changedPaths (expected : List (Text × Text × Text)) (hashes : List (Text × Text)) :
    List Text :=
  (Text.sort (expected.map Prod.fst)).filter fun path =>
    decide (hashes.lookup path ≠ (expected.lookup path).map Prod.snd)

def verifyListing (machine : Machine) (commit : Text) (listing : Listing) (vendor : Vendor) :
    Except Failure Unit :=
  raiseIf (projectAdditionGitlinkCollisions listing.gitlinks ≠ [])
      (.syncError ("Upstream gitlinks overlap project addition paths: ".toList ++
        commaList (projectAdditionGitlinkCollisions listing.gitlinks))) >>= fun _ =>
  raiseIf (ownedAdditions listing.blobs ≠ [])
      (.syncError ("Upstream now owns project addition paths: ".toList ++
        commaList (ownedAdditions listing.blobs))) >>= fun _ =>
  raiseIf (missingPaths listing.blobs vendor ≠ [] ∨ unexpectedPaths listing.blobs vendor ≠ [])
      (.syncError ("Vendor path mismatch; ".toList ++ Text.join "; ".toList
        (mismatchDetails (missingPaths listing.blobs vendor)
          (unexpectedPaths listing.blobs vendor)))) >>= fun _ =>
  workingBlobHashes machine vendor (Text.sort (listing.blobs.map Prod.fst)) >>= fun hashes =>
  raiseIf (changedPaths listing.blobs hashes ≠ [])
      (.syncError ("Modified upstream files: ".toList ++
        commaList (changedPaths listing.blobs hashes))) >>= fun _ =>
  verifyFileModes machine commit vendor listing.blobs

def verifyVendor (machine : Machine) (checkout : Checkout) (vendor : Vendor) :
    Except Failure Unit :=
  upstreamTree (lsTree machine.ids checkout.tree) >>= fun listing =>
    verifyListing machine checkout.commit listing vendor

/-! ## What each check passes -/

section Checks

variable {machine : Machine} {vendor : Vendor}

private theorem gitlinkCollisions_eq_nil_iff {gitlinks : List Text} :
    projectAdditionGitlinkCollisions gitlinks = [] ↔
      ∀ addition ∈ projectAdditions, ∀ gitlink ∈ gitlinks,
        addition ≠ gitlink ∧ ¬ gitlink ++ ['/'] <+: addition ∧ ¬ addition ++ ['/'] <+: gitlink := by
  rw [projectAdditionGitlinkCollisions, Text.sort_eq_nil, List.filter_eq_nil_iff]
  simp only [List.any_eq_true, not_exists, not_and, overlaps, Bool.or_eq_true, decide_eq_true_eq,
    List.isPrefixOf_iff_prefix, not_or, and_assoc, ne_eq]

private theorem ownedAdditions_eq_nil_iff {expected : List (Text × Text × Text)} :
    ownedAdditions expected = [] ↔ ∀ addition ∈ projectAdditions, addition ∉ expected.map Prod.fst := by
  rw [ownedAdditions, Text.sort_eq_nil, List.filter_eq_nil_iff]
  simp only [List.contains_iff_mem]

private theorem paths_eq_iff {expected : List (Text × Text × Text)} :
    missingPaths expected vendor = [] ∧ unexpectedPaths expected vendor = [] ↔
      ∀ path, path ∈ vendor.paths ↔ path ∈ expected.map Prod.fst ∨ path ∈ projectAdditions := by
  rw [missingPaths, unexpectedPaths, Text.sort_eq_nil, Text.sort_eq_nil, List.filter_eq_nil_iff,
    List.filter_eq_nil_iff]
  simp only [Bool.not_eq_true', Bool.not_eq_false, List.contains_iff_mem, vendorFiles,
    Text.mem_sort, ← List.mem_append]
  constructor
  · rintro ⟨hmissing, hunexpected⟩ path
    exact ⟨hunexpected path, hmissing path⟩
  · intro h
    exact ⟨fun path => (h path).2, fun path => (h path).1⟩

/-! ### Hashes -/

private theorem hashLine_eq_ok_iff {line hash : Text} :
    machine.hashLine vendor line = .ok hash ↔
      ∃ content, machine.read vendor line = some content ∧ machine.ids.id content = hash := by
  rw [Machine.hashLine]
  cases machine.read vendor line with
  | none => simp
  | some content => simp

private theorem read_nil : machine.read vendor [] = none := by
  have hexpect : expect "singbox-go/".toList ([] : Text) = none := by decide
  rw [Machine.read, hexpect]
  exact machine.elsewhere_nil

private theorem read_vendored (path : Text) :
    machine.read vendor ("singbox-go/".toList ++ path) =
      match vendor.lookup path with
      | none => machine.elsewhere ("singbox-go/".toList ++ path)
      | some (.file content _) => some content
      | some (.symlink _) => machine.opens vendor path := by
  rw [Machine.read, expect_append]

/-- The ids of the paths are found exactly when there are paths, each of them is one line of the
input, and each can be read. -/
private theorem workingBlobHashes_eq_ok_iff {paths : List Text} {hashes : List (Text × Text)} :
    workingBlobHashes machine vendor paths = .ok hashes ↔
      paths ≠ [] ∧ (∀ path ∈ paths, '\n' ∉ path) ∧
        ∃ output, List.Forall₂ (fun path hash =>
            machine.hashLine vendor ("singbox-go/".toList ++ path) = .ok hash) paths output ∧
          hashes = paths.zip output := by
  have hone : ∀ path : Text, '\n' ∉ "singbox-go/".toList ++ path ↔ '\n' ∉ path := by
    intro path
    rw [List.mem_append, not_or]
    exact and_iff_right (by decide)
  rw [workingBlobHashes, bind_eq_ok_iff]
  by_cases hne : paths = []
  · -- Without paths the input is one empty line, which git cannot open.
    subst hne
    have herror : ∀ output, gitHashObject machine vendor ['\n'] ≠ .ok output := by
      intro output h
      rw [gitHashObject, show Text.lines ['\n'] = [[]] from rfl, mapM_eq_ok_iff] at h
      cases h with
      | cons hline _ =>
          obtain ⟨content, hread, -⟩ := hashLine_eq_ok_iff.1 hline
          rw [read_nil] at hread
          cases hread
    exact iff_of_false (fun ⟨output, h, _⟩ => herror output h) (fun h => h.1 rfl)
  · have hinput : Text.join ['\n'] (paths.map fun path => "singbox-go/".toList ++ path) ++ ['\n'] =
        Text.unlines (paths.map fun path => "singbox-go/".toList ++ path) :=
      Text.join_newline_append (by simpa using hne)
    rw [hinput]
    by_cases hnew : ∀ path ∈ paths, '\n' ∉ path
    · have hlines : Text.lines (Text.unlines (paths.map fun path => "singbox-go/".toList ++ path)) =
          paths.map fun path => "singbox-go/".toList ++ path := by
        apply Text.lines_unlines
        intro t ht
        obtain ⟨path, hpath, rfl⟩ := List.mem_map.1 ht
        exact (hone path).2 (hnew path hpath)
      rw [gitHashObject, hlines]
      simp only [mapM_eq_ok_iff, raiseIf_bind_eq_ok_iff, List.forall₂_map_left_iff, hne, ne_eq,
        not_false_eq_true, true_and, not_not]
      constructor
      · intro h
        obtain ⟨output, hall, hlen, h⟩ := h
        cases h
        exact ⟨hnew, output, hall, rfl⟩
      · intro h
        obtain ⟨-, output, hall, rfl⟩ := h
        exact ⟨output, hall, hall.length_eq.symm, rfl⟩
    · -- A newline in a path makes two lines of it, and so too many ids.
      refine iff_of_false ?_ fun h => hnew h.2.1
      intro h
      obtain ⟨output, hout, h⟩ := h
      rw [raiseIf_bind_eq_ok_iff, not_not] at h
      rw [gitHashObject, mapM_eq_ok_iff] at hout
      have htwo : ∃ t ∈ paths.map fun path => "singbox-go/".toList ++ path, '\n' ∈ t := by
        simp only [not_forall, not_not] at hnew
        obtain ⟨path, hpath, hmem⟩ := hnew
        exact ⟨_, List.mem_map_of_mem hpath, List.mem_append_right _ hmem⟩
      have hlt := Text.length_lt_lines_unlines htwo
      rw [List.length_map, hout.length_eq, h.1] at hlt
      exact Nat.lt_irrefl _ hlt

private theorem changedPaths_eq_nil_iff {expected : List (Text × Text × Text)}
    {hashes : List (Text × Text)} :
    changedPaths expected hashes = [] ↔
      ∀ path ∈ expected.map Prod.fst,
        hashes.lookup path = (expected.lookup path).map Prod.snd := by
  rw [changedPaths, List.filter_eq_nil_iff]
  simp only [Text.mem_sort, decide_eq_true_eq, ne_eq, not_not]

private theorem hashes_match_iff {expected : List (Text × Text × Text)}
    (hnodup : (expected.map Prod.fst).Nodup) :
    (∃ hashes,
        workingBlobHashes machine vendor (Text.sort (expected.map Prod.fst)) = .ok hashes ∧
          changedPaths expected hashes = []) ↔
      expected ≠ [] ∧ (∀ b ∈ expected, '\n' ∉ b.1) ∧
        ∀ b ∈ expected, machine.hashLine vendor ("singbox-go/".toList ++ b.1) = .ok b.2.2 := by
  have hlookup : ∀ b ∈ expected, expected.lookup b.1 = some b.2 :=
    fun b hb => (lookup_eq_some_iff hnodup).2 hb
  simp only [workingBlobHashes_eq_ok_iff, changedPaths_eq_nil_iff, ne_eq, Text.sort_eq_nil,
    Text.mem_sort, List.map_eq_nil_iff, List.forall_mem_map]
  constructor
  · intro h
    obtain ⟨hashes, ⟨hne, hnew, output, hall, rfl⟩, hsame⟩ := h
    refine ⟨hne, hnew, ?_⟩
    intro b hb
    have hmem : b.1 ∈ Text.sort (expected.map Prod.fst) :=
      Text.mem_sort.2 (List.mem_map_of_mem hb)
    obtain ⟨hash, hline, hzip⟩ := lookup_zip hall hmem
    have heq := hsame b hb
    rw [hzip, hlookup b hb] at heq
    cases heq
    exact hline
  · intro h
    obtain ⟨hne, hnew, hline⟩ := h
    have hall : List.Forall₂ (fun path hash =>
        machine.hashLine vendor ("singbox-go/".toList ++ path) = .ok hash)
        (Text.sort (expected.map Prod.fst))
        ((Text.sort (expected.map Prod.fst)).map fun path =>
          ((expected.lookup path).map Prod.snd).getD []) := by
      rw [List.forall₂_map_right_iff, List.forall₂_same]
      intro path hpath
      obtain ⟨b, hb, rfl⟩ := List.mem_map.1 (Text.mem_sort.1 hpath)
      rw [hlookup b hb]
      exact hline b hb
    refine ⟨_, ⟨hne, hnew, _, hall, rfl⟩, ?_⟩
    intro b hb
    have hmem : b.1 ∈ Text.sort (expected.map Prod.fst) :=
      Text.mem_sort.2 (List.mem_map_of_mem hb)
    obtain ⟨hash, hline', hzip⟩ := lookup_zip hall hmem
    rw [hline b hb] at hline'
    cases hline'
    rw [hzip, hlookup b hb]
    rfl

/-! ### Modes -/

private theorem changedMode_eq_none_iff {commit path mode : Text}
    (hcommit : commit ≠ legacyNormalizedModeCommit) :
    changedMode commit vendor path mode = .ok none ↔
      ∃ object, vendor.lookup path = some object ∧ object.mode = mode := by
  rw [changedMode]
  cases vendor.lookup path with
  | none => simp
  | some object =>
      by_cases hmode : object.mode = mode
      · simp [hmode]
      · simp [hmode, hcommit]

private theorem verifyFileModes_returns_iff {commit : Text} {expected : List (Text × Text × Text)}
    (hcommit : commit ≠ legacyNormalizedModeCommit) (hposix : machine.windows = false) :
    Returns (verifyFileModes machine commit vendor expected) ↔
      ∀ b ∈ expected, ∃ object, vendor.lookup b.1 = some object ∧ object.mode = b.2.1 := by
  rw [verifyFileModes, returns_raiseIf, hposix, if_neg (by decide), returns_bind]
  simp only [returns_raiseIf, returns_pure, and_true, ne_eq, not_not, List.filterMap_eq_nil_iff,
    id_eq, hcommit, false_and, not_false_eq_true, true_and, exists_mapM_eq_iff,
    changedMode_eq_none_iff hcommit]

private theorem verifyListing_returns_iff {commit : Text} {listing : Listing}
    (hnodup : (listing.blobs.map Prod.fst).Nodup) :
    Returns (verifyListing machine commit listing vendor) ↔
      (∀ addition ∈ projectAdditions, ∀ gitlink ∈ listing.gitlinks,
        addition ≠ gitlink ∧ ¬ gitlink ++ ['/'] <+: addition ∧ ¬ addition ++ ['/'] <+: gitlink) ∧
      (∀ addition ∈ projectAdditions, addition ∉ listing.blobs.map Prod.fst) ∧
      (∀ path, path ∈ vendor.paths ↔
        path ∈ listing.blobs.map Prod.fst ∨ path ∈ projectAdditions) ∧
      (listing.blobs ≠ [] ∧ (∀ b ∈ listing.blobs, '\n' ∉ b.1) ∧
        ∀ b ∈ listing.blobs,
          machine.hashLine vendor ("singbox-go/".toList ++ b.1) = .ok b.2.2) ∧
      Returns (verifyFileModes machine commit vendor listing.blobs) := by
  rw [verifyListing, returns_raiseIf, returns_raiseIf, returns_raiseIf, returns_bind, not_not,
    not_not, not_or, not_not, not_not, gitlinkCollisions_eq_nil_iff, ownedAdditions_eq_nil_iff,
    paths_eq_iff, ← hashes_match_iff hnodup]
  simp only [returns_raiseIf, ne_eq, not_not]
  constructor
  · intro h
    obtain ⟨hlinks, howned, hpaths, hashes, hhashes, hchanged, hmodes⟩ := h
    exact ⟨hlinks, howned, hpaths, ⟨hashes, hhashes, hchanged⟩, hmodes⟩
  · intro h
    obtain ⟨hlinks, howned, hpaths, ⟨hashes, hhashes, hchanged⟩, hmodes⟩ := h
    exact ⟨hlinks, howned, hpaths, hashes, hhashes, hchanged, hmodes⟩

end Checks

/-! ## Equal trees -/

/-- The directory is the upstream tree with the additions, as far as this can be said without the
targets of the symbolic links. -/
structure Comparable (tree : Tree) (vendor : Vendor) : Prop where
  gitlinks : ∀ addition ∈ projectAdditions, ∀ path commit, .gitlink path commit ∈ tree.entries →
    addition ≠ path ∧ ¬ path ++ ['/'] <+: addition ∧ ¬ addition ++ ['/'] <+: path
  additions : ∀ addition ∈ projectAdditions, ∀ mode content,
    .blob addition mode content ∉ tree.entries
  paths : ∀ path, path ∈ vendor.paths ↔
    (∃ mode content, .blob path mode content ∈ tree.entries) ∨ path ∈ projectAdditions
  regular : ∀ path content, .blob path .regular content ∈ tree.entries →
    vendor.lookup path = some (.file content false)
  executable : ∀ path content, .blob path .executable content ∈ tree.entries →
    vendor.lookup path = some (.file content true)
  symlink : ∀ path content, .blob path .symlink content ∈ tree.entries →
    ∃ target, vendor.lookup path = some (.symlink target)

/-- The directory holds the upstream tree and the additions. -/
structure SameTree (tree : Tree) (vendor : Vendor) : Prop extends Comparable tree vendor where
  target : ∀ path content, .blob path .symlink content ∈ tree.entries →
    vendor.lookup path = some (.symlink content)

/-- What git can compare: there is a blob, every blob path fits on a line, and opening each symbolic
link reads the blob's content. -/
structure Readable (machine : Machine) (tree : Tree) (vendor : Vendor) : Prop where
  nonempty : ∃ path mode content, .blob path mode content ∈ tree.entries
  oneLine : ∀ path mode content, .blob path mode content ∈ tree.entries → '\n' ∉ path
  opened : ∀ path content, .blob path .symlink content ∈ tree.entries →
    machine.opens vendor path = some content

section Equal

variable {machine : Machine} {tree : Tree} {vendor : Vendor}

private theorem forall_mem_blobs_iff {ids : BlobIds} {Q : Text × Text × Text → Prop} :
    (∀ b ∈ (tree.listing ids).blobs, Q b) ↔
      ∀ path mode content, .blob path mode content ∈ tree.entries →
        Q (path, mode.text, ids.id content) := by
  constructor
  · intro h path mode content he
    exact h _ (List.mem_filterMap.2 ⟨_, he, rfl⟩)
  · intro h b hb
    obtain ⟨e, he, hlisted⟩ := List.mem_filterMap.1 hb
    cases e with
    | blob path mode content =>
        cases hlisted
        exact h path mode content he
    | gitlink path commit => cases hlisted

private theorem mem_blob_paths_iff {ids : BlobIds} {path : Text} :
    path ∈ (tree.listing ids).blobs.map Prod.fst ↔
      ∃ mode content, .blob path mode content ∈ tree.entries := by
  constructor
  · intro h
    obtain ⟨b, hb, rfl⟩ := List.mem_map.1 h
    obtain ⟨e, he, hlisted⟩ := List.mem_filterMap.1 hb
    cases e with
    | blob path mode content =>
        cases hlisted
        exact ⟨mode, content, he⟩
    | gitlink path commit => cases hlisted
  · intro h
    obtain ⟨mode, content, he⟩ := h
    exact List.mem_map.2 ⟨_, List.mem_filterMap.2 ⟨_, he, rfl⟩, rfl⟩

private theorem forall_mem_gitlinks_iff {ids : BlobIds} {Q : Text → Prop} :
    (∀ gitlink ∈ (tree.listing ids).gitlinks, Q gitlink) ↔
      ∀ path commit, .gitlink path commit ∈ tree.entries → Q path := by
  constructor
  · intro h path commit he
    exact h _ (List.mem_filterMap.2 ⟨_, he, rfl⟩)
  · intro h gitlink hg
    obtain ⟨e, he, hlink⟩ := List.mem_filterMap.1 hg
    cases e with
    | blob path mode content => cases hlink
    | gitlink path commit =>
        cases hlink
        exact h _ _ he

private theorem blob_paths_nodup (ids : BlobIds) (tree : Tree) :
    ((tree.listing ids).blobs.map Prod.fst).Nodup := by
  have hsub : ((tree.listing ids).blobs.map Prod.fst).Sublist
      (tree.entries.map TreeEntry.path) := by
    rw [Tree.listing]
    induction tree.entries with
    | nil => exact .slnil
    | cons e entries ih =>
        cases e with
        | blob path mode content => exact ih.cons_cons path
        | gitlink path commit => exact ih.cons path
  exact tree.nodup.sublist hsub

private theorem blobs_ne_nil_iff {ids : BlobIds} :
    (tree.listing ids).blobs ≠ [] ↔
      ∃ path mode content, .blob path mode content ∈ tree.entries := by
  have hpaths : (∃ path mode content, .blob path mode content ∈ tree.entries) ↔
      ∃ path, path ∈ (tree.listing ids).blobs.map Prod.fst := by
    simp only [mem_blob_paths_iff]
  rw [hpaths]
  constructor
  · intro h
    obtain ⟨b, hb⟩ := List.exists_mem_of_ne_nil _ h
    exact ⟨b.1, List.mem_map_of_mem hb⟩
  · intro h hnil
    obtain ⟨path, hpath⟩ := h
    rw [hnil] at hpath
    cases hpath

/-- The mode that git would give to an object. -/
def VendorObject.blobMode : VendorObject → BlobMode
  | .symlink _ => .symlink
  | .file _ true => .executable
  | .file _ false => .regular

private theorem mode_eq_text_iff {object : VendorObject} {mode : BlobMode} :
    object.mode = mode.text ↔ object.blobMode = mode := by
  have hmode : object.mode = object.blobMode.text := by
    cases object with
    | symlink target => rfl
    | file content executable => cases executable <;> rfl
  have hinj : ∀ a b : BlobMode, a.text = b.text → a = b := by
    intro a b
    cases a <;> cases b <;> decide
  rw [hmode]
  exact ⟨hinj _ _, congrArg BlobMode.text⟩

/-- At one blob: the id and the mode are the expected ones exactly when the directory holds the same
object, where of a symbolic link only what opening it reads counts. -/
private theorem object_matches_iff (hids : Function.Injective machine.ids.id) {path : Text}
    {mode : BlobMode} {content : Bytes} :
    (machine.hashLine vendor ("singbox-go/".toList ++ path) = .ok (machine.ids.id content) ∧
        ∃ object, vendor.lookup path = some object ∧ object.mode = mode.text) ↔
      match mode with
      | .regular => vendor.lookup path = some (.file content false)
      | .executable => vendor.lookup path = some (.file content true)
      | .symlink => (∃ target, vendor.lookup path = some (.symlink target)) ∧
          machine.opens vendor path = some content := by
  rw [hashLine_eq_ok_iff, read_vendored]
  simp only [hids.eq_iff, mode_eq_text_iff]
  cases hlookup : vendor.lookup path with
  | none => cases mode <;> simp
  | some object =>
      cases object with
      | symlink target => cases mode <;> simp [VendorObject.blobMode]
      | file bytes executable => cases mode <;> cases executable <;> simp [VendorObject.blobMode]

private theorem verifyVendor_returns_iff_listing {checkout : Checkout} :
    Returns (verifyVendor machine checkout vendor) ↔ Returns
      (verifyListing machine checkout.commit (checkout.tree.listing machine.ids) vendor) := by
  rw [verifyVendor, upstreamTree_lsTree]
  rfl

/-- What `verify_vendor` accepts. -/
theorem verifyVendor_returns_iff {checkout : Checkout} (hids : Function.Injective machine.ids.id)
    (hcommit : checkout.commit ≠ legacyNormalizedModeCommit) (hposix : machine.windows = false) :
    Returns (verifyVendor machine checkout vendor) ↔
      Comparable checkout.tree vendor ∧ Readable machine checkout.tree vendor := by
  rw [verifyVendor_returns_iff_listing, verifyListing_returns_iff (blob_paths_nodup _ _),
    verifyFileModes_returns_iff hcommit hposix, blobs_ne_nil_iff]
  constructor
  · intro h
    obtain ⟨hlinks, howned, hpaths, ⟨hne, hnew, hhash⟩, hmode⟩ := h
    have hobject := fun path mode content he => (object_matches_iff hids).1
      ⟨forall_mem_blobs_iff.1 hhash path mode content he,
        forall_mem_blobs_iff.1 hmode path mode content he⟩
    refine ⟨⟨?_, ?_, ?_, ?_, ?_, ?_⟩, ⟨hne, forall_mem_blobs_iff.1 hnew, ?_⟩⟩
    · exact fun addition ha => forall_mem_gitlinks_iff.1 (hlinks addition ha)
    · exact fun addition ha mode content he =>
        howned addition ha (mem_blob_paths_iff.2 ⟨mode, content, he⟩)
    · intro path
      rw [hpaths path, mem_blob_paths_iff]
    · exact fun path content he => hobject path .regular content he
    · exact fun path content he => hobject path .executable content he
    · exact fun path content he => (hobject path .symlink content he).1
    · exact fun path content he => (hobject path .symlink content he).2
  · intro h
    obtain ⟨hcomp, hread⟩ := h
    have hobject : ∀ path mode content, .blob path mode content ∈ checkout.tree.entries →
        machine.hashLine vendor ("singbox-go/".toList ++ path) = .ok (machine.ids.id content) ∧
          ∃ object, vendor.lookup path = some object ∧ object.mode = mode.text := by
      intro path mode content he
      rw [object_matches_iff hids]
      cases mode with
      | regular => exact hcomp.regular path content he
      | executable => exact hcomp.executable path content he
      | symlink => exact ⟨hcomp.symlink path content he, hread.opened path content he⟩
    refine ⟨?_, ?_, ?_, ⟨hread.nonempty, forall_mem_blobs_iff.2 hread.oneLine, ?_⟩, ?_⟩
    · exact fun addition ha => forall_mem_gitlinks_iff.2 (hcomp.gitlinks addition ha)
    · intro addition ha h
      obtain ⟨mode, content, he⟩ := mem_blob_paths_iff.1 h
      exact hcomp.additions addition ha mode content he
    · intro path
      rw [hcomp.paths path, mem_blob_paths_iff]
    · exact forall_mem_blobs_iff.2 fun path mode content he => (hobject path mode content he).1
    · exact forall_mem_blobs_iff.2 fun path mode content he => (hobject path mode content he).2

private theorem sameTree_iff : SameTree tree vendor ↔ Comparable tree vendor ∧
    ∀ path content, .blob path .symlink content ∈ tree.entries →
      vendor.lookup path = some (.symlink content) :=
  ⟨fun h => ⟨h.toComparable, h.target⟩, fun h => ⟨h.1, h.2⟩⟩

/-- A tree without symbolic links whose paths fit on a line is compared as it should be. -/
theorem verifyVendor_decides_of_plain {checkout : Checkout} (hids : Function.Injective machine.ids.id)
    (hcommit : checkout.commit ≠ legacyNormalizedModeCommit) (hposix : machine.windows = false)
    (hblob : ∃ path mode content, .blob path mode content ∈ checkout.tree.entries)
    (hline : ∀ path mode content, .blob path mode content ∈ checkout.tree.entries → '\n' ∉ path)
    (hlink : ∀ path content, .blob path .symlink content ∉ checkout.tree.entries) :
    Returns (verifyVendor machine checkout vendor) ↔ SameTree checkout.tree vendor := by
  have hreadable : Readable machine checkout.tree vendor :=
    ⟨hblob, hline, fun path content he => absurd he (hlink path content)⟩
  rw [verifyVendor_returns_iff hids hcommit hposix, sameTree_iff]
  refine and_congr_right fun _ => iff_of_true hreadable ?_
  intro path content he
  exact absurd he (hlink path content)

/-- `verify_vendor` decides whether the directory is the upstream tree exactly when, for a directory
that is comparable, git reads the same contents as the symbolic links name. -/
theorem verifyVendor_decides_iff {machine : Machine} {checkout : Checkout} {vendor : Vendor}
    (hids : Function.Injective machine.ids.id)
    (hcommit : checkout.commit ≠ legacyNormalizedModeCommit) (hposix : machine.windows = false) :
    (Returns (verifyVendor machine checkout vendor) ↔ SameTree checkout.tree vendor) ↔
      (Comparable checkout.tree vendor →
        (Readable machine checkout.tree vendor ↔
          ∀ path content, .blob path .symlink content ∈ checkout.tree.entries →
            vendor.lookup path = some (.symlink content))) := by
  rw [verifyVendor_returns_iff hids hcommit hposix, sameTree_iff]
  exact and_congr_right_iff

/-- What the ids do not show: the kind of each object, its mode, and the target of a link. -/
structure Attributed (tree : Tree) (vendor : Vendor) : Prop where
  mode : ∀ path mode content, .blob path mode content ∈ tree.entries →
    ∃ object, vendor.lookup path = some object ∧ object.blobMode = mode
  target : ∀ path content, .blob path .symlink content ∈ tree.entries →
    vendor.lookup path = some (.symlink content)

theorem SameTree.attributed (h : SameTree tree vendor) : Attributed tree vendor where
  mode path mode content he := by
    cases mode with
    | regular => exact ⟨_, h.regular path content he, rfl⟩
    | executable => exact ⟨_, h.executable path content he, rfl⟩
    | symlink => exact ⟨_, h.target path content he, rfl⟩
  target := h.target

/-- A directory that `verify_vendor` accepts is the tree when it has the attributes of the tree.
This needs no assumption on the modes that were compared. -/
theorem sameTree_of_attributed {checkout : Checkout} (hids : Function.Injective machine.ids.id)
    (h : Returns (verifyVendor machine checkout vendor)) (hattr : Attributed checkout.tree vendor) :
    SameTree checkout.tree vendor := by
  rw [verifyVendor_returns_iff_listing, verifyListing_returns_iff (blob_paths_nodup _ _)] at h
  obtain ⟨hlinks, howned, hpaths, ⟨-, -, hhash⟩, -⟩ := h
  have hobject : ∀ path mode content, .blob path mode content ∈ checkout.tree.entries →
      machine.hashLine vendor ("singbox-go/".toList ++ path) = .ok (machine.ids.id content) ∧
        ∃ object, vendor.lookup path = some object ∧ object.mode = mode.text := by
    intro path mode content he
    obtain ⟨object, hlookup, hmode⟩ := hattr.mode path mode content he
    exact ⟨forall_mem_blobs_iff.1 hhash path mode content he, object, hlookup,
      mode_eq_text_iff.2 hmode⟩
  refine ⟨⟨?_, ?_, ?_, ?_, ?_, ?_⟩, hattr.target⟩
  · exact fun addition ha => forall_mem_gitlinks_iff.1 (hlinks addition ha)
  · exact fun addition ha mode content he =>
      howned addition ha (mem_blob_paths_iff.2 ⟨mode, content, he⟩)
  · intro path
    rw [hpaths path, mem_blob_paths_iff]
  · exact fun path content he => (object_matches_iff hids).1 (hobject path .regular content he)
  · exact fun path content he => (object_matches_iff hids).1 (hobject path .executable content he)
  · exact fun path content he => ⟨content, hattr.target path content he⟩

end Equal

/-! ## A link with another target -/

/-- Ids that spell out the content, in unary bytes. -/
def unaryId (content : Bytes) : Text :=
  'f' :: content.flatMap fun b => List.replicate b.toNat '0' ++ ['1']

private theorem replicate_append_inj {m n : Nat} {s t : Text}
    (h : List.replicate m '0' ++ '1' :: s = List.replicate n '0' ++ '1' :: t) :
    m = n ∧ s = t := by
  induction m generalizing n with
  | zero =>
      cases n with
      | zero => exact ⟨rfl, (List.cons.inj h).2⟩
      | succ n => exact absurd (List.cons.inj h).1 (by decide)
  | succ m ih =>
      cases n with
      | zero => exact absurd (List.cons.inj h).1 (by decide)
      | succ n =>
          obtain ⟨hmn, hst⟩ := ih (List.cons.inj h).2
          exact ⟨congrArg (· + 1) hmn, hst⟩

theorem unaryId_injective : Function.Injective unaryId := by
  intro a b h
  induction a generalizing b with
  | nil =>
      cases b with
      | nil => rfl
      | cons y b => simp [unaryId] at h
  | cons x a ih =>
      cases b with
      | nil => simp [unaryId] at h
      | cons y b =>
          have h := (List.cons.inj h).2
          rw [List.flatMap_cons, List.flatMap_cons, List.append_assoc, List.append_assoc] at h
          obtain ⟨hxy, hab⟩ := replicate_append_inj h
          rw [UInt8.toNat_inj.1 hxy, ih (congrArg ('f' :: ·) hab)]

def unaryIds : BlobIds where
  id := unaryId
  isHash := by
    intro content
    refine ⟨List.cons_ne_nil _ _, List.all_eq_true.2 ?_⟩
    intro c hc
    simp only [unaryId, List.mem_cons, List.mem_flatMap, List.mem_append, List.mem_replicate,
      List.not_mem_nil, or_false] at hc
    rcases hc with rfl | ⟨b, -, ⟨-, rfl⟩ | rfl⟩ <;> decide

/-- Opens a link to a file beside it. -/
def openBeside (vendor : Vendor) (path : Text) : Option Bytes :=
  match vendor.lookup path with
  | some (.symlink target) =>
      match vendor.lookup (target.map fun b => Char.ofNat b.toNat) with
      | some (.file content _) => some content
      | _ => none
  | _ => none

def linux : Machine where
  ids := unaryIds
  windows := false
  opens := openBeside
  elsewhere := fun _ => none
  elsewhere_nil := rfl

/-- Two files that hold the name of the first, and a link to the first. -/
def linkTree : Tree where
  entries := [.blob "f".toList .regular [102], .blob "g".toList .regular [102],
    .blob "l".toList .symlink [102]]
  nodup := by decide
  noNul := by decide
  isHash := by simp

def linkCheckout (commit : Text) (workflow : Option Text) : Checkout where
  treeish := "FETCH_HEAD".toList
  commit := commit
  tree := linkTree
  workflow := workflow

/-- The link leads to the second file instead. -/
def linkVendor (target : Bytes) : Vendor where
  entries := [("binding/cronet_purego.go".toList, .file [] false),
    ("binding/main.go".toList, .file [] false), ("f".toList, .file [102] false),
    ("g".toList, .file [102] false), ("l".toList, .symlink target)]
  nodup := by
    show ["binding/cronet_purego.go".toList, "binding/main.go".toList, "f".toList, "g".toList,
      "l".toList].Nodup
    decide

theorem verifyVendor_decides_iff_at_link :
    (Returns (verifyVendor linux (linkCheckout [] none) (linkVendor [103])) ↔
        SameTree linkTree (linkVendor [103])) ↔
      (Comparable linkTree (linkVendor [103]) →
        (Readable linux linkTree (linkVendor [103]) ↔
          ∀ path content, .blob path .symlink content ∈ linkTree.entries →
            (linkVendor [103]).lookup path = some (.symlink content))) :=
  have hcommit : (linkCheckout [] none).commit ≠ legacyNormalizedModeCommit := by decide
  verifyVendor_decides_iff unaryId_injective hcommit rfl

theorem verifyVendor_accepts_other_target :
    verifyVendor linux (linkCheckout [] none) (linkVendor [103]) = .ok ⟨⟩ ∧
      ¬ SameTree linkTree (linkVendor [103]) := by
  refine ⟨by decide +kernel, ?_⟩
  intro h
  have htarget := h.target "l".toList [102] (by decide)
  exact absurd htarget (by decide)

end SingBoxPython.Sync
