import SingBoxPython.Framework.Effect
import SingBoxPython.Framework.FileTree

/-!
# Extracting the upstream archive

`safe_extract` of `scripts/sync-sing-box.py` over a file tree with symbolic links, and `extractall`
of `tarfile` as far as it makes directories, files and links.
-/

namespace SingBoxPython.Sync
open Framework

inductive Kind
  | directory
  | file
  | symlink (linkname : Text)
  | hardLink (linkname : Text)
  deriving DecidableEq

structure Member where
  name : Text
  kind : Kind
  deriving DecidableEq

inductive ExtractError
  | unsafePath (name : Text)
  | symlinkLoop
  | fileExists
  | osError
  | filterError
  | keyError
  | extractError
  | recursionError
  deriving DecidableEq

/-- `FileExistsError` is an `OSError`. -/
def ExtractError.isOSError : ExtractError → Bool
  | .fileExists => true
  | .osError => true
  | _ => false

def joined (base : List Part) (text : Text) : List Part :=
  if (Path.ofText text).absolute then (Path.ofText text).parts
  else base ++ (Path.ofText text).parts

/-- The paths that a member and its link lead to. -/
def Member.leads (destination : List Part) (member : Member) : List (List Part) :=
  joined destination member.name ::
    match member.kind with
    | .symlink linkname => [joined (joined destination member.name).dropLast linkname]
    | .hardLink linkname => [joined destination linkname]
    | _ => []

/-- The filter `data` of `tarfile`: it refuses a member that lands or points outside the destination,
on the disk as it is when the filter is asked. -/
structure DataFilter (limit : Nat) where
  accepts : Location → List Part → Disk → Member → Bool
  inside : ∀ root destination disk member, accepts root destination disk member = true →
    ∀ path ∈ member.leads destination, ∀ l, disk.resolve limit [] path = some l → root <+: l

/-- The platform: the bounds on the steps of following a path and on the calls of Python, the calls
that are refused for other reasons, the filter of `tarfile`, where it has one, whether `os.link`
follows a symbolic link, whether a hard link replaces what stands in its place, and whether a directory
member is content with anything in its place. -/
structure Platform where
  limit : Nat
  recursion : Nat
  refuses : Disk → Call → Option ExtractError
  dataFilter : Option (DataFilter limit)
  followsLinks : Bool
  replacesEntries : Bool
  keepsEntries : Bool

structure Destination (limit : Nat) (disk : Disk) where
  path : List Part
  root : Location
  resolves : disk.resolve limit [] path = some root
  isDirectory : disk root = some .directory
  isEmpty : ∀ n l, disk (root ++ n :: l) = none

/-- A call that was made, and what it touched. -/
structure Made where
  call : Call
  touched : List Location

structure Progress where
  disk : Disk
  made : List Made

abbrev Extraction := Eff Progress ExtractError

def excepting (p : ExtractError → Bool) (x handler : Extraction Unit) : Extraction Unit :=
  tryCatch x fun e => if p e then handler else throw e

/-! ## The referenced members -/

def dirname (t : Text) : Text :=
  let head := (t.reverse.dropWhile fun c => c ≠ '/').reverse
  if head.all fun c => c = '/' then head else (head.reverse.dropWhile fun c => c = '/').reverse

/-- The normalized name that a link refers to within the archive. -/
def Member.refers (member : Member) : Option Path :=
  match member.kind with
  | .symlink linkname =>
      some (Path.ofText (if dirname member.name = [] then linkname
        else dirname member.name ++ '/' :: linkname)).normal
  | .hardLink linkname => some (Path.ofText linkname).normal
  | _ => none

/-- `_getmember`: the first member of this name, with those that follow it in the list. -/
def findMember (name : Path) : List Member → Option (Member × List Member)
  | [] => none
  | member :: members =>
      if (Path.ofText member.name).normal = name then some (member, members)
      else findMember name members

/-- `_find_link_target`: of the whole archive for a symbolic link, of the members before it, the last
one first, for a hard link. -/
def Member.linkTarget (archive earlier : List Member) (member : Member) :
    Option (Member × List Member) :=
  member.refers.bind fun name =>
    match member.kind with
    | .hardLink _ => findMember name earlier
    | _ => findMember name archive.reverse

/-! ## The extraction -/

section Extraction

variable (platform : Platform) (root : Location) (destination : List Part)

def perform (call : Call) : Extraction Unit := do
  let s ← get
  match call.effect platform.limit s.disk with
  | none => throw .osError
  | some (touched, disk) =>
      match platform.refuses s.disk call with
      | some e => throw e
      | none => modify fun s => ⟨disk, s.made ++ [⟨call, touched⟩]⟩

def mkdir (path : List Part) : Extraction Unit := do
  let s ← get
  if s.disk.entryExists platform.limit path then throw .fileExists
  else perform platform (.mkdir path)

/-- `os.makedirs` of the path with these parts, the last one first.  What another directory of the path
finds in its place is ignored, unless it is the last one. -/
def makedirs : List Part → Extraction Unit
  | [] => mkdir platform []
  | part :: above =>
      get >>= fun s =>
        (if s.disk.pathExists platform.limit above.reverse then pure ⟨⟩
          else excepting (fun e => e = .fileExists) (makedirs above) (pure ⟨⟩)) >>= fun _ =>
        mkdir platform (part :: above).reverse

def makeUpperdirs (upperdirs : List Part) : Extraction Unit := do
  let s ← get
  if s.disk.pathExists platform.limit upperdirs then pure ⟨⟩
  else makedirs platform upperdirs.reverse

def makedir (path : List Part) : Extraction Unit :=
  excepting (fun e => e = .fileExists) (mkdir platform path) do
    let s ← get
    if platform.keepsEntries || s.disk.isDirectory platform.limit path then pure ⟨⟩
    else throw .fileExists

def removeEntry (path : List Part) : Extraction Unit := do
  let s ← get
  if s.disk.entryExists platform.limit path then perform platform (.unlink path)
  else pure ⟨⟩

/-- `makelink` for symbolic links, up to its handler. -/
def makeSymlink (linkname : Text) (path : List Part) : Extraction Unit := do
  removeEntry platform path
  perform platform (.symlink (Path.ofText linkname) path)

/-- `makelink` for hard links, up to its handler. -/
def makeLink (linkname : Text) (path : List Part) (target : Extraction Unit) :
    Extraction Unit := do
  let s ← get
  if s.disk.pathExists platform.limit (joined destination linkname) then
    if platform.replacesEntries then do
      removeEntry platform path
      perform platform (.link platform.followsLinks (joined destination linkname) path)
    else perform platform (.link platform.followsLinks (joined destination linkname) path)
  else target

/-- What is done with the member that a link refers to. -/
def referenced (extract : Member → List Member → Extraction Unit) :
    Option (Member × List Member) → Extraction Unit
  | none => throw .keyError
  | some (target, before) => extract target before

/-- `_extract_member`.  Where a link cannot be made, the member that it refers to is extracted in its
place.  Pythons with the filter know the target of a hard link only for the members that `extractall`
itself comes to. -/
def extractMember (archive : List Member) :
    Nat → Bool → Member → List Member → List Part → Extraction Unit
  | 0, _, _, _, _ => throw .recursionError
  | fuel + 1, direct, member, earlier, path =>
      let target := referenced
        (fun target before => extractMember archive fuel false target before path)
        (member.linkTarget archive earlier)
      let copy := excepting (fun e => e = .keyError) target (throw .extractError)
      makeUpperdirs platform path.dropLast >>= fun _ =>
        match member.kind with
        | .directory => makedir platform path
        | .file => perform platform (.write path)
        | .symlink linkname =>
            excepting ExtractError.isOSError (makeSymlink platform linkname path) copy
        | .hardLink linkname =>
            if direct || platform.dataFilter.isNone then
              excepting ExtractError.isOSError
                (makeLink platform destination linkname path target) copy
            else copy

def Platform.accepts (disk : Disk) (member : Member) : Bool :=
  match platform.dataFilter with
  | none => true
  | some filter => filter.accepts root destination disk member

/-- One round of `extractall`; an `ExtractError` is not fatal. -/
def extractOne (archive earlier : List Member) (member : Member) : Extraction Unit := do
  let s ← get
  if platform.accepts root destination s.disk member then
    excepting (fun e => e = .extractError)
      (extractMember platform destination archive platform.recursion true member earlier
        (joined destination member.name)) (pure ⟨⟩)
  else throw .filterError

/-- The members in order; `earlier` are those before them, the last one first. -/
def extractAll (archive earlier : List Member) : List Member → Extraction Unit
  | [] => pure ⟨⟩
  | member :: members => do
      extractOne platform root destination archive earlier member
      extractAll archive (member :: earlier) members

def checkNames (disk : Disk) : List Member → Except ExtractError Unit
  | [] => .ok ⟨⟩
  | member :: members =>
      match disk.resolve platform.limit [] (joined destination member.name) with
      | none => .error .symlinkLoop
      | some target =>
          if root <+: target then checkNames disk members else .error (.unsafePath member.name)

def safeExtract (archive : List Member) : Extraction Unit := do
  let s ← get
  match checkNames platform root destination s.disk archive with
  | .error e => throw e
  | .ok _ => extractAll platform root destination archive [] archive

end Extraction

/-! ## Staying inside the destination -/

def extracted (platform : Platform) {disk : Disk}
    (destination : Destination platform.limit disk) (archive : List Member) : Progress :=
  (Eff.exec (safeExtract platform destination.root destination.path archive) ⟨disk, []⟩).2

/-- Everything that was touched lies inside the destination, every symbolic link in it leads inside at
the end, and the rest of the disk is unchanged; and nothing was extracted if a name resolves to
something outside. -/
structure Stays (platform : Platform) {disk : Disk}
    (destination : Destination platform.limit disk) (archive : List Member) : Prop where
  touched : ∀ m ∈ (extracted platform destination archive).made, ∀ l ∈ m.touched,
    destination.root <+: l
  links : ∀ loc, ∀ l ∈ Call.pointsTo (extracted platform destination archive).disk platform.limit
    (destination.root ++ loc), destination.root <+: l
  frame : ∀ l, ¬ destination.root <+: l →
    (extracted platform destination archive).disk l = disk l
  rejects : (∃ member ∈ archive, ∃ l,
      disk.resolve platform.limit [] (joined destination.path member.name) = some l ∧
        ¬ destination.root <+: l) →
    extracted platform destination archive = ⟨disk, []⟩

section Rejects

variable {platform : Platform} {disk : Disk} {destination : Destination platform.limit disk}
  {archive : List Member}

private theorem checkNames_error {root : Location} {path : List Part} {members : List Member}
    (h : ∃ member ∈ members, ∃ l,
      disk.resolve platform.limit [] (joined path member.name) = some l ∧ ¬ root <+: l) :
    ∃ e, checkNames platform root path disk members = .error e := by
  induction members with
  | nil =>
      obtain ⟨member, hmem, -⟩ := h
      cases hmem
  | cons first members ih =>
      rw [checkNames]
      split
      · exact ⟨_, rfl⟩
      · rename_i target htarget
        split
        · rename_i hin
          apply ih
          obtain ⟨member, hmem, l, hl, hout⟩ := h
          rcases List.mem_cons.1 hmem with rfl | hmem
          · rw [htarget] at hl
            cases hl
            exact absurd hin hout
          · exact ⟨member, hmem, l, hl, hout⟩
        · exact ⟨_, rfl⟩

theorem extracted_of_error {e : ExtractError}
    (h : checkNames platform destination.root destination.path disk archive = .error e) :
    extracted platform destination archive = ⟨disk, []⟩ := by
  rw [extracted, safeExtract, Eff.exec_bind, Eff.exec_get]
  simp only [h, Eff.exec_throw]

theorem extracted_of_outside
    (h : ∃ member ∈ archive, ∃ l,
      disk.resolve platform.limit [] (joined destination.path member.name) = some l ∧
        ¬ destination.root <+: l) :
    extracted platform destination archive = ⟨disk, []⟩ := by
  obtain ⟨e, he⟩ := checkNames_error h
  exact extracted_of_error he

end Rejects

/-! ## Three ways out -/

def twoDirectories : Disk := fun l =>
  if l = [] ∨ l = ["d".toList] ∨ l = ["o".toList] then some .directory else none

def directoryD (limit : Nat) (h : 0 < limit) : Destination limit twoDirectories where
  path := [.name "d".toList]
  root := ["d".toList]
  resolves := by
    obtain ⟨limit, rfl⟩ := Nat.exists_eq_add_one.2 h
    simp [Disk.resolve, twoDirectories]
  isDirectory := by decide
  isEmpty := by
    intro n l
    simp [twoDirectories]

/-- The filter that accepts whatever stays inside. -/
def strictFilter (limit : Nat) : DataFilter limit where
  accepts := fun root destination disk member =>
    (member.leads destination).all fun path =>
      (disk.resolve limit [] path).all fun l => root.isPrefixOf l
  inside := by
    intro root destination disk member haccept path hpath l hl
    have hall := List.all_eq_true.1 haccept path hpath
    rw [hl] at hall
    exact List.isPrefixOf_iff_prefix.1 hall

def withoutFilter : Platform where
  limit := 40
  recursion := 8
  refuses := fun _ _ => none
  dataFilter := none
  followsLinks := false
  replacesEntries := false
  keepsEntries := true

def withFilter : Platform where
  limit := 40
  recursion := 8
  refuses := fun _ _ => none
  dataFilter := some (strictFilter 40)
  followsLinks := false
  replacesEntries := true
  keepsEntries := false

def linkArchive : List Member :=
  [⟨"a".toList, .symlink "/o".toList⟩, ⟨"a/x".toList, .file⟩]

/-- A name that leaves the destination by a missing directory and comes back. -/
def upArchive : List Member :=
  [⟨"../n/../d/x".toList, .file⟩]

/-- A link whose way the next one changes. -/
def turningArchive : List Member :=
  [⟨"a".toList, .symlink "b/..".toList⟩, ⟨"b".toList, .symlink ".".toList⟩]

private theorem not_stays_of_touched {platform : Platform} {disk : Disk}
    {destination : Destination platform.limit disk} {archive : List Member}
    (h : ((extracted platform destination archive).made.all fun m =>
      m.touched.all fun l => destination.root.isPrefixOf l) = false) :
    ¬ Stays platform destination archive := by
  intro hstays
  have hall : ((extracted platform destination archive).made.all fun m =>
      m.touched.all fun l => destination.root.isPrefixOf l) = true :=
    List.all_eq_true.2 fun m hm => List.all_eq_true.2 fun l hl =>
      List.isPrefixOf_iff_prefix.2 (hstays.touched m hm l hl)
  rw [h] at hall
  cases hall

end SingBoxPython.Sync
