import SingBoxPython.Framework.Delimiter
import SingBoxPython.Framework.Fallible
import SingBoxPython.Framework.Text

/-!
# The upstream tree

A git tree as `git ls-tree -rz` prints it, and `upstream_tree` of `scripts/sync-sing-box.py`, which
reads it.
-/

namespace SingBoxPython.Sync
open Framework

abbrev Bytes := List UInt8

/-- What a command of the script raises: a `SyncError` with its message, the `SyncError` of a
command that failed (the rest of its message is the command's own), or another exception. -/
inductive Failure
  | syncError (message : Text)
  | commandFailed (command : List Text)
  | valueError
  | fileNotFound (path : Text)
  | fileExists (path : Text)
  | unicodeError
  | interrupted
  deriving DecidableEq

inductive BlobMode
  | regular
  | executable
  | symlink
  deriving DecidableEq

def BlobMode.text : BlobMode → Text
  | .regular => "100644".toList
  | .executable => "100755".toList
  | .symlink => "120000".toList

inductive TreeEntry
  | blob (path : Text) (mode : BlobMode) (content : Bytes)
  | gitlink (path commit : Text)
  deriving DecidableEq

def TreeEntry.path : TreeEntry → Text
  | .blob path _ _ => path
  | .gitlink path _ => path

def isHex (c : Char) : Bool :=
  "0123456789abcdef".toList.contains c

def IsHash (h : Text) : Prop :=
  h ≠ [] ∧ h.all isHex = true

/-- The ids that git gives to contents. -/
structure BlobIds where
  id : Bytes → Text
  isHash : ∀ content, IsHash (id content)

/-- A tree: its entries have different paths, which may hold any character but NUL. -/
structure Tree where
  entries : List TreeEntry
  nodup : (entries.map TreeEntry.path).Nodup
  noNul : ∀ e ∈ entries, '\x00' ∉ e.path
  isHash : ∀ path commit, .gitlink path commit ∈ entries → IsHash commit

def TreeEntry.metadata (ids : BlobIds) : TreeEntry → Text
  | .blob _ mode content => mode.text ++ ' ' :: ("blob".toList ++ ' ' :: ids.id content)
  | .gitlink _ commit => "160000".toList ++ ' ' :: ("commit".toList ++ ' ' :: commit)

/-- The output of `git ls-tree -rz`. -/
def lsTree (ids : BlobIds) (tree : Tree) : Text :=
  tree.entries.flatMap fun e => (e.metadata ids ++ '\t' :: e.path) ++ ['\x00']

/-- The dictionary of the blobs, path to mode and id, and the paths of the gitlinks. -/
structure Listing where
  blobs : List (Text × Text × Text) := []
  gitlinks : List Text := []
  deriving DecidableEq

def Listing.setBlob (l : Listing) (path : Text) (value : Text × Text) : Listing :=
  { l with blobs := (l.blobs.filter fun b => b.1 ≠ path) ++ [(path, value)] }

def Listing.addGitlink (l : Listing) (path : Text) : Listing :=
  { l with gitlinks := (l.gitlinks.filter (· ≠ path)) ++ [path] }

/-- The body of the loop of `upstream_tree` for one non-empty entry. -/
def readEntry (l : Listing) (rawEntry : Text) : Except Failure Listing :=
  match splitAtFirst ['\t'] rawEntry with
  | none => .error .valueError
  | some (metadata, path) =>
      match Text.words metadata with
      | [mode, objectType, objectHash] =>
          if objectType = "blob".toList then .ok (l.setBlob path (mode, objectHash))
          else if mode = "160000".toList ∧ objectType = "commit".toList then
            .ok (l.addGitlink path)
          else .error (.syncError ("Unsupported upstream tree entry ".toList ++ mode ++ ' ' ::
            objectType ++ " at ".toList ++ path))
      | _ => .error .valueError

def upstreamTree (output : Text) : Except Failure Listing :=
  (Text.fields '\x00' output).foldlM readEntry {}

/-! ## Reading back the printed tree -/

def TreeEntry.listed (ids : BlobIds) : TreeEntry → Option (Text × Text × Text)
  | .blob path mode content => some (path, mode.text, ids.id content)
  | .gitlink _ _ => none

def TreeEntry.gitlink? : TreeEntry → Option Text
  | .blob _ _ _ => none
  | .gitlink path _ => some path

def Tree.listing (ids : BlobIds) (tree : Tree) : Listing where
  blobs := tree.entries.filterMap (TreeEntry.listed ids)
  gitlinks := tree.entries.filterMap TreeEntry.gitlink?

/-- A word of the metadata: not empty, without white space and NUL. -/
def IsWord (w : Text) : Prop :=
  w ≠ [] ∧ (w.all fun c => !Text.isSpace c && c != '\x00') = true

instance (w : Text) : Decidable (IsWord w) :=
  inferInstanceAs (Decidable (_ ∧ _))

theorem IsWord.noSpace {w : Text} (h : IsWord w) {c : Char} (hc : c ∈ w) :
    Text.isSpace c = false ∧ c ≠ '\x00' := by
  have hall := List.all_eq_true.1 h.2 c hc
  rw [Bool.and_eq_true, Bool.not_eq_true', bne_iff_ne] at hall
  exact hall

theorem IsHash.isWord {h : Text} (hh : IsHash h) : IsWord h := by
  have hhex : ("0123456789abcdef".toList.all fun c => !Text.isSpace c && c != '\x00') = true := by
    decide
  refine ⟨hh.1, List.all_eq_true.2 fun c hc => ?_⟩
  exact List.all_eq_true.1 hhex c (List.contains_iff_mem.1 (List.all_eq_true.1 hh.2 c hc))

theorem BlobMode.isWord (mode : BlobMode) : IsWord mode.text := by
  cases mode <;> decide

def TreeEntry.words (ids : BlobIds) : TreeEntry → Text × Text × Text
  | .blob _ mode content => (mode.text, "blob".toList, ids.id content)
  | .gitlink _ commit => ("160000".toList, "commit".toList, commit)

structure TreeEntry.WellFormed (ids : BlobIds) (e : TreeEntry) : Prop where
  mode : IsWord (e.words ids).1
  type : IsWord (e.words ids).2.1
  hash : IsWord (e.words ids).2.2

private theorem Tree.wellFormed (ids : BlobIds) (tree : Tree) {e : TreeEntry}
    (he : e ∈ tree.entries) : e.WellFormed ids := by
  have hblob : IsWord "blob".toList := by decide
  have hmode : IsWord "160000".toList := by decide
  have hcommit : IsWord "commit".toList := by decide
  cases e with
  | blob path mode content => exact ⟨mode.isWord, hblob, (ids.isHash content).isWord⟩
  | gitlink path commit => exact ⟨hmode, hcommit, (tree.isHash path commit he).isWord⟩

private theorem TreeEntry.metadata_eq (ids : BlobIds) (e : TreeEntry) :
    e.metadata ids =
      (e.words ids).1 ++ ' ' :: ((e.words ids).2.1 ++ ' ' :: (e.words ids).2.2) := by
  cases e <;> rfl

private theorem TreeEntry.WellFormed.words_metadata {ids : BlobIds} {e : TreeEntry}
    (h : e.WellFormed ids) :
    Text.words (e.metadata ids) =
      [(e.words ids).1, (e.words ids).2.1, (e.words ids).2.2] := by
  rw [e.metadata_eq, Text.words_append (fun c hc => (h.mode.noSpace hc).1) h.mode.1,
    Text.words_append (fun c hc => (h.type.noSpace hc).1) h.type.1,
    Text.words_eq_singleton (fun c hc => (h.hash.noSpace hc).1) h.hash.1]

private theorem TreeEntry.WellFormed.of_mem_metadata {ids : BlobIds} {e : TreeEntry}
    (h : e.WellFormed ids) {c : Char} (hc : c ∈ e.metadata ids) : c ≠ '\t' ∧ c ≠ '\x00' := by
  have hword : ∀ {w : Text}, IsWord w → c ∈ w → c ≠ '\t' ∧ c ≠ '\x00' := by
    intro w hw hc
    refine ⟨?_, (hw.noSpace hc).2⟩
    rintro rfl
    exact absurd (hw.noSpace hc).1 (by decide)
  rw [e.metadata_eq] at hc
  simp only [List.mem_append, List.mem_cons] at hc
  rcases hc with hc | rfl | hc | rfl | hc
  · exact hword h.mode hc
  · decide
  · exact hword h.type hc
  · decide
  · exact hword h.hash hc

private theorem splitAtFirst_tab {a b : Text} (h : '\t' ∉ a) :
    splitAtFirst ['\t'] (a ++ '\t' :: b) = some (a, b) := by
  apply splitAtFirst_append (p := ['\t'])
  intro u hne hu hp
  obtain ⟨c, u, rfl⟩ := List.exists_cons_of_ne_nil hne
  rw [List.cons_append, List.cons_prefix_cons] at hp
  exact h (hp.1 ▸ hu.subset List.mem_cons_self)

def Listing.add (ids : BlobIds) (l : Listing) : TreeEntry → Listing
  | .blob path mode content => l.setBlob path (mode.text, ids.id content)
  | .gitlink path _ => l.addGitlink path

private theorem readEntry_printed {ids : BlobIds} {e : TreeEntry} (h : e.WellFormed ids)
    (l : Listing) : readEntry l (e.metadata ids ++ '\t' :: e.path) = .ok (l.add ids e) := by
  have htab : '\t' ∉ e.metadata ids := fun hmem => (h.of_mem_metadata hmem).1 rfl
  rw [readEntry, splitAtFirst_tab htab]
  simp only [h.words_metadata]
  cases e with
  | blob path mode content => rfl
  | gitlink path commit => rfl

private theorem fields_lsTree {ids : BlobIds} {entries : List TreeEntry}
    (hword : ∀ e ∈ entries, e.WellFormed ids) (hnul : ∀ e ∈ entries, '\x00' ∉ e.path) :
    Text.fields '\x00'
        (entries.flatMap fun e => (e.metadata ids ++ '\t' :: e.path) ++ ['\x00']) =
      entries.map fun e => e.metadata ids ++ '\t' :: e.path := by
  induction entries with
  | nil => rfl
  | cons e entries ih =>
      have hno : '\x00' ∉ e.metadata ids ++ '\t' :: e.path := by
        intro hmem
        rcases List.mem_append.1 hmem with hmem | hmem
        · exact ((hword e List.mem_cons_self).of_mem_metadata hmem).2 rfl
        · rcases List.mem_cons.1 hmem with heq | hmem
          · exact absurd heq (by decide)
          · exact hnul e List.mem_cons_self hmem
      rw [List.flatMap_cons, List.append_assoc, List.singleton_append,
        Text.fields_append hno (by simp), ih (fun e he => hword e (List.mem_cons_of_mem _ he))
          (fun e he => hnul e (List.mem_cons_of_mem _ he)), List.map_cons]

private theorem foldlM_readEntry {ids : BlobIds} {entries : List TreeEntry}
    (hword : ∀ e ∈ entries, e.WellFormed ids) (hnodup : (entries.map TreeEntry.path).Nodup)
    (l : Listing) (hnew : ∀ e ∈ entries, e.path ∉ l.blobs.map Prod.fst ∧ e.path ∉ l.gitlinks) :
    (entries.map fun e => e.metadata ids ++ '\t' :: e.path).foldlM readEntry l =
      .ok ⟨l.blobs ++ entries.filterMap (TreeEntry.listed ids),
        l.gitlinks ++ entries.filterMap TreeEntry.gitlink?⟩ := by
  induction entries generalizing l with
  | nil => simp [pure, Except.pure]
  | cons e entries ih =>
      rw [List.map_cons, List.nodup_cons] at hnodup
      obtain ⟨hfirst, hnodup⟩ := hnodup
      have hadd : l.add ids e = ⟨l.blobs ++ (e.listed ids).toList,
          l.gitlinks ++ e.gitlink?.toList⟩ := by
        obtain ⟨hblobs, hlinks⟩ := hnew e List.mem_cons_self
        cases e with
        | blob path mode content =>
            have hkeep : (l.blobs.filter fun b => decide (b.1 ≠ path)) = l.blobs := by
              rw [List.filter_eq_self]
              intro b hb
              exact decide_eq_true fun heq => hblobs (heq ▸ List.mem_map_of_mem hb)
            rw [Listing.add, Listing.setBlob, hkeep]
            simp [TreeEntry.listed, TreeEntry.gitlink?]
        | gitlink path commit =>
            have hkeep : (l.gitlinks.filter fun g => decide (g ≠ path)) = l.gitlinks := by
              rw [List.filter_eq_self]
              intro g hg
              exact decide_eq_true fun heq => hlinks (heq ▸ hg)
            rw [Listing.add, Listing.addGitlink, hkeep]
            simp [TreeEntry.listed, TreeEntry.gitlink?]
      have hrest : ∀ e' ∈ entries, e'.path ∉ (l.add ids e).blobs.map Prod.fst ∧
          e'.path ∉ (l.add ids e).gitlinks := by
        intro e' he'
        obtain ⟨hblobs, hlinks⟩ := hnew e' (List.mem_cons_of_mem _ he')
        have hne : e'.path ≠ e.path := fun heq => hfirst (heq ▸ List.mem_map_of_mem he')
        rw [hadd]
        cases e with
        | blob path mode content =>
            simp only [TreeEntry.listed, TreeEntry.gitlink?, Option.toList_some,
              Option.toList_none, List.append_nil, List.map_append, List.map_cons, List.map_nil,
              List.mem_append, List.mem_singleton, not_or]
            exact ⟨⟨hblobs, hne⟩, hlinks⟩
        | gitlink path commit =>
            simp only [TreeEntry.listed, TreeEntry.gitlink?, Option.toList_some,
              Option.toList_none, List.append_nil, List.mem_append, List.mem_singleton, not_or]
            exact ⟨hblobs, hlinks, hne⟩
      have hfold := ih (fun e he => hword e (List.mem_cons_of_mem _ he)) hnodup _ hrest
      rw [List.map_cons, List.foldlM_cons, readEntry_printed (hword e List.mem_cons_self)]
      refine Eq.trans hfold ?_
      rw [hadd]
      cases e <;> simp [List.filterMap_cons, TreeEntry.listed, TreeEntry.gitlink?]

/-- `upstream_tree` reads what git prints. -/
theorem upstreamTree_lsTree (ids : BlobIds) (tree : Tree) :
    upstreamTree (lsTree ids tree) = .ok (tree.listing ids) := by
  rw [upstreamTree, lsTree, fields_lsTree (fun e => tree.wellFormed ids) tree.noNul,
    foldlM_readEntry (fun e => tree.wellFormed ids) tree.nodup {} (by simp)]
  rfl

end SingBoxPython.Sync
