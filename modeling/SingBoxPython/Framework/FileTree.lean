import SingBoxPython.Framework.Text

/-!
# A file tree with symbolic links

Locations, the two ways in which a path is followed (by the operating system, which needs every
directory on the way, and by a resolver, which goes on by name where something is missing), and the
system calls that change the tree, each with the locations that it touches.
-/

namespace SingBoxPython.Framework

/-- The names from the root down, without any symbolic link among them. -/
abbrev Location := List Text

inductive Part
  | up
  | name (text : Text)
  deriving DecidableEq

structure Path where
  absolute : Bool
  parts : List Part
  deriving DecidableEq

/-- The parts of a text; empty parts and the part for the directory itself are dropped. -/
def Path.ofText (t : Text) : Path where
  absolute := t.head? == some '/'
  parts := (t.splitOn '/').filterMap fun part =>
    if part = [] ∨ part = ['.'] then none
    else if part = ['.', '.'] then some .up
    else some (.name part)

/-- The parts that are left when each part upwards takes away the name before it; `acc` are the parts
so far, the last one first. -/
def collapse (absolute : Bool) (acc : List Part) : List Part → List Part
  | [] => acc.reverse
  | .name n :: rest => collapse absolute (.name n :: acc) rest
  | .up :: rest =>
      match acc with
      | .name _ :: acc => collapse absolute acc rest
      | acc => collapse absolute (if absolute then acc else .up :: acc) rest

/-- `os.path.normpath`. -/
def Path.normal (p : Path) : Path where
  absolute := p.absolute
  parts := collapse p.absolute [] p.parts

def Path.start (p : Path) (cur : Location) : Location :=
  if p.absolute then [] else cur

inductive Node
  | directory
  | file
  | symlink (target : Path)
  deriving DecidableEq

abbrev Disk := Location → Option Node

namespace Disk

def set (disk : Disk) (l : Location) (node : Option Node) : Disk :=
  fun l' => if l' = l then node else disk l'

/-- The location to which the operating system comes.  Only the last part may be missing; `limit`
bounds the steps. -/
def walk (disk : Disk) : Nat → Location → List Part → Option Location
  | _, cur, [] => some cur
  | 0, _, _ :: _ => none
  | limit + 1, cur, .up :: rest => walk disk limit cur.dropLast rest
  | limit + 1, cur, .name n :: rest =>
      match disk (cur ++ [n]) with
      | some .directory => walk disk limit (cur ++ [n]) rest
      | some (.symlink target) => walk disk limit (target.start cur) (target.parts ++ rest)
      | _ => if rest.isEmpty then some (cur ++ [n]) else none

/-- The location to which a resolver comes that takes missing parts by their names. -/
def resolve (disk : Disk) : Nat → Location → List Part → Option Location
  | _, cur, [] => some cur
  | 0, _, _ :: _ => none
  | limit + 1, cur, .up :: rest => resolve disk limit cur.dropLast rest
  | limit + 1, cur, .name n :: rest =>
      match disk (cur ++ [n]) with
      | some (.symlink target) => resolve disk limit (target.start cur) (target.parts ++ rest)
      | _ => resolve disk limit (cur ++ [n]) rest

/-- `os.path.exists`. -/
def pathExists (disk : Disk) (limit : Nat) (path : List Part) : Bool :=
  match disk.walk limit [] path with
  | some l => (disk l).isSome
  | none => false

/-- The location of a directory entry, whatever the entry itself is: its directory has to exist, and
a symbolic link in the last part is not followed. -/
def place (disk : Disk) (limit : Nat) (path : List Part) : Option Location :=
  match path.getLast? with
  | some (.name n) =>
      match disk.walk limit [] path.dropLast with
      | some dir => if disk dir = some .directory then some (dir ++ [n]) else none
      | none => none
  | _ => none

/-- `os.path.lexists`. -/
def entryExists (disk : Disk) (limit : Nat) (path : List Part) : Bool :=
  match disk.place limit path with
  | some l => (disk l).isSome
  | none => disk.pathExists limit path

/-- `os.path.isdir`. -/
def isDirectory (disk : Disk) (limit : Nat) (path : List Part) : Bool :=
  match disk.walk limit [] path with
  | some l => decide (disk l = some .directory)
  | none => false

/-- Where the operating system arrives, the resolver arrives as well. -/
theorem resolve_of_walk {disk : Disk} {limit : Nat} {cur l : Location} {parts : List Part}
    (h : disk.walk limit cur parts = some l) : disk.resolve limit cur parts = some l := by
  induction limit generalizing cur parts with
  | zero =>
      cases parts with
      | nil => exact h
      | cons part rest => cases h
  | succ limit ih =>
      cases parts with
      | nil => exact h
      | cons part rest =>
          cases part with
          | up =>
              rw [walk] at h
              rw [resolve]
              exact ih h
          | name n =>
              rw [walk] at h
              rw [resolve]
              cases hnode : disk (cur ++ [n]) with
              | none =>
                  simp only [hnode] at h ⊢
                  cases rest with
                  | nil => simpa [resolve] using h
                  | cons part rest => simp at h
              | some node =>
                  cases node with
                  | directory =>
                      simp only [hnode] at h ⊢
                      exact ih h
                  | symlink target =>
                      simp only [hnode] at h ⊢
                      exact ih h
                  | file =>
                      simp only [hnode] at h ⊢
                      cases rest with
                      | nil => simpa [resolve] using h
                      | cons part rest => simp at h

section Walk

variable {disk disk' : Disk} {limit : Nat} {cur l : Location}

theorem walk_append {m : Location} {p q : List Part} (hp : disk.walk limit cur p = some m)
    (h : disk.walk limit cur (p ++ q) = some l) : ∃ rest, disk.walk rest m q = some l := by
  induction limit generalizing cur p with
  | zero =>
      cases p with
      | nil =>
          cases hp
          exact ⟨0, h⟩
      | cons part p => cases hp
  | succ limit ih =>
      cases p with
      | nil =>
          cases hp
          exact ⟨limit + 1, h⟩
      | cons part p =>
          cases part with
          | up => exact ih hp h
          | name n =>
              rw [List.cons_append] at h
              rw [walk] at hp h
              cases hnode : disk (cur ++ [n]) with
              | none =>
                  simp only [hnode] at hp h
                  cases p with
                  | nil =>
                      cases hp
                      cases q with
                      | nil => exact ⟨0, h⟩
                      | cons part q => cases h
                  | cons part p => cases hp
              | some node =>
                  cases node with
                  | directory =>
                      simp only [hnode] at hp h
                      exact ih hp h
                  | symlink target =>
                      simp only [hnode] at hp h
                      rw [← List.append_assoc] at h
                      exact ih hp h
                  | file =>
                      simp only [hnode] at hp h
                      cases p with
                      | nil =>
                          cases hp
                          cases q with
                          | nil => exact ⟨0, h⟩
                          | cons part q => cases h
                      | cons part p => cases hp

/-- What is added to a disk does not change a walk to something that was there, nor any first part of
this walk. -/
theorem walk_congr {p q : List Part} (hadded : ∀ l node, disk l = some node → disk' l = some node)
    (h : disk.walk limit cur (p ++ q) = some l) (hl : disk l ≠ none) :
    disk'.walk limit cur p = disk.walk limit cur p := by
  induction limit generalizing cur p with
  | zero => cases p <;> rfl
  | succ limit ih =>
      cases p with
      | nil => rfl
      | cons part p =>
          cases part with
          | up => exact ih h
          | name n =>
              rw [List.cons_append, walk] at h
              rw [walk, walk]
              cases hnode : disk (cur ++ [n]) with
              | none =>
                  simp only [hnode] at h
                  split at h
                  · cases h
                    exact absurd hnode hl
                  · cases h
              | some node =>
                  rw [hadded _ _ hnode]
                  simp only [hnode] at h
                  cases node with
                  | directory => exact ih h
                  | symlink target =>
                      change disk.walk limit (target.start cur) (target.parts ++ (p ++ q)) = some l at h
                      rw [← List.append_assoc] at h
                      exact ih h
                  | file => rfl

theorem place_concat_eq_some {p : List Part} {part : Part}
    (h : disk.place limit (p ++ [part]) = some l) :
    ∃ n dir, part = .name n ∧ disk.walk limit [] p = some dir ∧ disk dir = some .directory ∧
      l = dir ++ [n] := by
  rw [place, List.getLast?_concat, List.dropLast_concat] at h
  cases part with
  | up => cases h
  | name n =>
      dsimp only at h
      split at h
      · rename_i dir hwalk
        split at h
        · rename_i hdir
          cases h
          exact ⟨n, dir, rfl, hwalk, hdir, rfl⟩
        · cases h
      · cases h

end Walk

end Disk

/-- The system calls that change the tree.  With `follow` a hard link to a symbolic link becomes one to
the file that it leads to, and otherwise one to the symbolic link itself. -/
inductive Call
  | mkdir (path : List Part)
  | write (path : List Part)
  | unlink (path : List Part)
  | symlink (target : Path) (path : List Part)
  | link (follow : Bool) (source path : List Part)

namespace Call

def pointsTo (disk : Disk) (limit : Nat) (l : Location) : List Location :=
  match disk l with
  | some (.symlink target) => (disk.resolve limit (target.start l.dropLast) target.parts).toList
  | _ => []

/-- What a call touches (creates, overwrites, removes or links to) and the disk that it leaves;
`none` where it fails. -/
def effect (limit : Nat) (disk : Disk) : Call → Option (List Location × Disk)
  | .mkdir path =>
      match disk.place limit path with
      | some l => if disk l = none then some ([l], disk.set l (some .directory)) else none
      | none => none
  | .write path =>
      match disk.walk limit [] path with
      | some l =>
          if disk l = none ∨ disk l = some .file then some ([l], disk.set l (some .file)) else none
      | none => none
  | .unlink path =>
      match disk.place limit path with
      | some l =>
          if disk l = none ∨ disk l = some .directory then none
          else some ([l], disk.set l none)
      | none => none
  | .symlink target path =>
      match disk.place limit path with
      | some l =>
          if disk l = none then
            some (l :: pointsTo (disk.set l (some (.symlink target))) limit l,
              disk.set l (some (.symlink target)))
          else none
      | none => none
  | .link true source path =>
      match disk.walk limit [] source, disk.place limit path with
      | some s, some l =>
          if disk s = some .file ∧ disk l = none then some ([s, l], disk.set l (some .file))
          else none
      | _, _ => none
  | .link false source path =>
      match disk.place limit source, disk.place limit path with
      | some s, some l =>
          if disk s = none ∨ disk s = some .directory ∨ disk l ≠ none then none
          else some (s :: l :: pointsTo (disk.set l (disk s)) limit l, disk.set l (disk s))
      | _, _ => none

end Call

end SingBoxPython.Framework
