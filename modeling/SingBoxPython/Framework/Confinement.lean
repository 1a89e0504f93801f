import SingBoxPython.Framework.FileTree

/-!
# Paths that stay below a directory

Locations below a directory are given relative to it.  A table lists the symbolic links that may come
to stand there.  A path is tame when its text never climbs above the directory and only goes down once
it has come to the place of a link.  Where the targets of all links are tame, a tame path ends below
the directory, whichever links of the table are on the disk.
-/

namespace SingBoxPython.Framework

/-- The path, read from `cur`, does not climb above the directory, and only goes down once it has come
to one of the spots. -/
def tame (spots : List Location) : Location → List Part → Bool
  | _, [] => true
  | cur, .up :: rest => decide (cur ≠ []) && tame spots cur.dropLast rest
  | cur, .name n :: rest =>
      if cur ++ [n] ∈ spots then decide (Part.up ∉ rest) else tame spots (cur ++ [n]) rest

/-- The location of a path that comes to none of the spots. -/
def plainWalk (spots : List Location) : Location → List Part → Option Location
  | cur, [] => some cur
  | cur, .up :: rest => if cur = [] then none else plainWalk spots cur.dropLast rest
  | cur, .name n :: rest =>
      if cur ++ [n] ∈ spots then none else plainWalk spots (cur ++ [n]) rest

/-- The location of a directory entry, where the path to its directory comes to none of the spots. -/
def plainEntry (spots : List Location) (parts : List Part) : Option Location :=
  match parts.getLast? with
  | some (.name n) => (plainWalk spots [] parts.dropLast).map fun dir => dir ++ [n]
  | _ => none

theorem plainEntry_concat_eq_some {spots : List Location} {p : List Part} {part : Part}
    {loc : Location} (h : plainEntry spots (p ++ [part]) = some loc) :
    ∃ n dir, part = .name n ∧ plainWalk spots [] p = some dir ∧ loc = dir ++ [n] := by
  rw [plainEntry, List.getLast?_concat, List.dropLast_concat] at h
  cases part with
  | up => cases h
  | name n =>
      obtain ⟨dir, hdir, rfl⟩ := Option.map_eq_some_iff.1 h
      exact ⟨n, dir, rfl, hdir, rfl⟩

section Tame

variable {spots : List Location} {cur : Location} {p q : List Part}

private theorem tame_of_noUp (h : Part.up ∉ p) : tame spots cur p = true := by
  induction p generalizing cur with
  | nil => rfl
  | cons part p ih =>
      rw [List.mem_cons, not_or] at h
      cases part with
      | up => exact absurd rfl h.1
      | name n =>
          rw [tame]
          split
          · exact decide_eq_true h.2
          · exact ih h.2

private theorem tame_append (hp : tame spots cur p = true) (hq : Part.up ∉ q) :
    tame spots cur (p ++ q) = true := by
  induction p generalizing cur with
  | nil => exact tame_of_noUp hq
  | cons part p ih =>
      cases part with
      | up =>
          rw [tame, Bool.and_eq_true] at hp
          rw [List.cons_append, tame, Bool.and_eq_true]
          exact ⟨hp.1, ih hp.2⟩
      | name n =>
          rw [tame] at hp
          rw [List.cons_append, tame]
          split
          · rename_i hspot
            rw [if_pos hspot, decide_eq_true_eq] at hp
            rw [decide_eq_true_eq, List.mem_append, not_or]
            exact ⟨hp, hq⟩
          · rename_i hspot
            rw [if_neg hspot] at hp
            exact ih hp

theorem tame_of_append (h : tame spots cur (p ++ q) = true) : tame spots cur p = true := by
  induction p generalizing cur with
  | nil => rfl
  | cons part p ih =>
      cases part with
      | up =>
          rw [List.cons_append, tame, Bool.and_eq_true] at h
          rw [tame, Bool.and_eq_true]
          exact ⟨h.1, ih h.2⟩
      | name n =>
          rw [List.cons_append, tame] at h
          rw [tame]
          split
          · rename_i hspot
            rw [if_pos hspot, decide_eq_true_eq, List.mem_append, not_or] at h
            exact decide_eq_true h.1
          · rename_i hspot
            rw [if_neg hspot] at h
            exact ih h

end Tame

/-- Links by their locations, each with a relative target that is tame in the directory of the link. -/
structure LinkTable where
  links : List (Location × Path)
  relative : ∀ e ∈ links, e.2.absolute = false
  tame : ∀ e ∈ links, tame (links.map Prod.fst) e.1.dropLast e.2.parts = true

namespace LinkTable

def spots (table : LinkTable) : List Location :=
  table.links.map Prod.fst

def Covers (table : LinkTable) (root : Location) (disk : Disk) : Prop :=
  ∀ loc target, disk (root ++ loc) = some (.symlink target) → (loc, target) ∈ table.links

variable {table : LinkTable} {root cur l : Location} {disk : Disk} {limit : Nat} {parts : List Part}

private theorem mem_spots {loc : Location} {target : Path} (h : (loc, target) ∈ table.links) :
    loc ∈ table.spots :=
  List.mem_map_of_mem (f := Prod.fst) h

/-- A tame path ends below the directory.  The induction is on the steps: a link puts the path of its
target, which is tame, before a rest that only goes down. -/
theorem Covers.resolve (hcovers : table.Covers root disk)
    (htame : Framework.tame table.spots cur parts = true)
    (h : disk.resolve limit (root ++ cur) parts = some l) : root <+: l := by
  induction limit generalizing cur parts with
  | zero =>
      cases parts with
      | nil =>
          cases h
          exact List.prefix_append root cur
      | cons part rest => cases h
  | succ limit ih =>
      cases parts with
      | nil =>
          cases h
          exact List.prefix_append root cur
      | cons part rest =>
          cases part with
          | up =>
              rw [Framework.tame, Bool.and_eq_true, decide_eq_true_eq] at htame
              rw [Disk.resolve, List.dropLast_append_of_ne_nil htame.1] at h
              exact ih htame.2 h
          | name n =>
              rw [Framework.tame] at htame
              rw [Disk.resolve, List.append_assoc] at h
              split at h
              · rename_i target hlink
                have hmem := hcovers _ _ hlink
                rw [if_pos (mem_spots hmem), decide_eq_true_eq] at htame
                have htarget := table.tame _ hmem
                rw [List.dropLast_concat] at htarget
                rw [Path.start, table.relative _ hmem] at h
                exact ih (tame_append htarget htame) h
              · split at htame
                · rw [decide_eq_true_eq] at htame
                  exact ih (tame_of_noUp htame) h
                · exact ih htame h

theorem Covers.walk (hcovers : table.Covers root disk)
    (htame : Framework.tame table.spots cur parts = true)
    (h : disk.walk limit (root ++ cur) parts = some l) : root <+: l :=
  hcovers.resolve htame (Disk.resolve_of_walk h)

theorem Covers.pointsTo (hcovers : table.Covers root disk) {loc : Location} (hloc : loc ≠ [])
    (h : l ∈ Call.pointsTo disk limit (root ++ loc)) : root <+: l := by
  rw [Call.pointsTo] at h
  split at h
  · rename_i target hlink
    have hmem := hcovers _ _ hlink
    rw [Option.mem_toList, Path.start, table.relative _ hmem,
      List.dropLast_append_of_ne_nil hloc] at h
    exact hcovers.resolve (table.tame _ hmem) h
  · exact absurd h List.not_mem_nil

theorem Covers.set (hcovers : table.Covers root disk) {node : Option Node}
    (h : ∀ loc target, l = root ++ loc → node = some (.symlink target) →
      (loc, target) ∈ table.links) : table.Covers root (disk.set l node) := by
  intro loc target hlink
  rw [Disk.set] at hlink
  split at hlink
  · rename_i hl
    exact h loc target hl.symm hlink
  · exact hcovers loc target hlink

theorem Covers.walk_plain (hcovers : table.Covers root disk) {loc : Location}
    (hplain : plainWalk table.spots cur parts = some loc)
    (h : disk.walk limit (root ++ cur) parts = some l) : l = root ++ loc := by
  induction limit generalizing cur parts with
  | zero =>
      cases parts with
      | nil =>
          cases h
          cases hplain
          rfl
      | cons part rest => cases h
  | succ limit ih =>
      cases parts with
      | nil =>
          cases h
          cases hplain
          rfl
      | cons part rest =>
          cases part with
          | up =>
              rw [plainWalk] at hplain
              split at hplain
              · cases hplain
              · rename_i hcur
                rw [Disk.walk, List.dropLast_append_of_ne_nil hcur] at h
                exact ih hplain h
          | name n =>
              rw [plainWalk] at hplain
              split at hplain
              · cases hplain
              · rename_i hspot
                rw [Disk.walk, List.append_assoc] at h
                split at h
                · exact ih hplain h
                · rename_i target hlink
                  exact absurd (mem_spots (hcovers _ _ hlink)) hspot
                · cases rest with
                  | nil =>
                      cases h
                      cases hplain
                      rfl
                  | cons part rest => cases h

end LinkTable

end SingBoxPython.Framework
