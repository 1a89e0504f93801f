import SingBoxPython.Framework.Confinement
import SingBoxPython.Sync.Extract

/-!
# Archives that stay inside their destination

A condition on the archive, the disk before the extraction and the platform: there is a table of tame
links that holds each link which extracting a member can make, and the names are tame with respect to
it.  The invariant of the extraction is that all symbolic links below the destination are links of the
table.
-/

namespace SingBoxPython.Sync
open Framework

/-! ## The condition -/

/-- The parts of a path after it has last come to the destination. -/
def beyond (limit : Nat) (disk : Disk) (root : Location) (path : List Part) : Option (List Part) :=
  (path.inits.reverse.find? fun outer => disk.walk limit [] outer = some root).map fun outer =>
    path.drop outer.length

/-- The members that may be extracted in the place of a member: itself, and what links refer to. -/
def Member.standIns (archive : List Member) : Nat → Member → List Member
  | 0, _ => []
  | fuel + 1, member =>
      member :: (archive.filter fun target =>
        member.refers = some (Path.ofText target.name).normal).flatMap (standIns archive fuel)

section Condition

variable (platform : Platform) {disk : Disk} (destination : Destination platform.limit disk)

/-- The path comes to the destination and is tame from there on.  Where it ends there, it is the
destination's own directory entry. -/
structure Enters (table : LinkTable) (path inner : List Part) : Prop where
  beyond : beyond platform.limit disk destination.root path = some inner
  tame : tame table.spots [] inner = true
  entry : inner = [] → disk.place platform.limit path = some destination.root

/-- Making an object of this kind behind the path `inner` leaves only links of the table. -/
def Leaves (table : LinkTable) (inner : List Part) : Kind → Prop
  | .directory => True
  | .file => True
  | .symlink linkname =>
      ∃ loc, plainEntry table.spots inner = some loc ∧ (loc, Path.ofText linkname) ∈ table.links
  | .hardLink linkname =>
      ∃ behind source, Enters platform destination table (joined destination.path linkname) behind ∧
        plainEntry table.spots behind = some source ∧
        ∀ target, (source, target) ∈ table.links →
          ∃ loc, plainEntry table.spots inner = some loc ∧ (loc, target) ∈ table.links

/-- The member and all that may be extracted in its place agree with the table. -/
def Admits (table : LinkTable) (archive : List Member) (member : Member) : Prop :=
  ∃ inner, Enters platform destination table (joined destination.path member.name) inner ∧
    ∀ other ∈ member.standIns archive platform.recursion,
      Leaves platform destination table inner other.kind

/-- The filter refuses the member, whatever the destination holds. -/
def Refused (member : Member) : Prop :=
  platform.dataFilter ≠ none ∧
    ∀ disk' : Disk, (∀ l, (∀ n rest, l ≠ destination.root ++ n :: rest) → disk' l = disk l) →
      ∃ path ∈ member.leads destination.path, ∃ l,
        disk'.resolve platform.limit [] path = some l ∧ ¬ destination.root <+: l

/-- If the names pass the check, the members agree with a table, or do up to one that the filter
refuses. -/
def Confined (archive : List Member) : Prop :=
  checkNames platform destination.root destination.path disk archive = .ok ⟨⟩ →
    ∃ table front back, archive = front ++ back ∧
      (∀ member ∈ front, Admits platform destination table archive member) ∧
      ∀ member ∈ back.head?, Refused platform destination member

end Condition

/-! ## What an extraction keeps -/

/-- What was touched lies inside, the disk has changed only below the destination, and the symbolic
links there are links of the table. -/
structure Within (root : Location) (disk : Disk) (table : LinkTable) (s : Progress) : Prop where
  touched : ∀ m ∈ s.made, ∀ l ∈ m.touched, root <+: l
  frame : ∀ l, (∀ n rest, l ≠ root ++ n :: rest) → s.disk l = disk l
  covers : table.Covers root s.disk

section Within

variable {platform : Platform} {disk : Disk} {destination : Destination platform.limit disk}
  {table : LinkTable} {s : Progress} {path inner : List Part} {l : Location}

private theorem exists_outer_of_beyond {limit : Nat} {root : Location}
    (h : beyond limit disk root path = some inner) :
    ∃ outer, path = outer ++ inner ∧ disk.walk limit [] outer = some root := by
  obtain ⟨outer, hfind, rfl⟩ := Option.map_eq_some_iff.1 h
  have hmem := List.mem_of_find?_eq_some hfind
  have hwalk := List.find?_some hfind
  rw [List.mem_reverse, List.mem_inits] at hmem
  rw [decide_eq_true_eq] at hwalk
  obtain ⟨rest, rfl⟩ := hmem
  exact ⟨outer, by rw [List.drop_left], hwalk⟩

private theorem Destination.root_ne_none (destination : Destination platform.limit disk) :
    disk destination.root ≠ none := by
  rw [destination.isDirectory]
  exact Option.some_ne_none _

private theorem Within.root_directory (hs : Within destination.root disk table s) :
    s.disk destination.root = some .directory := by
  rw [hs.frame, destination.isDirectory]
  intro n rest h
  exact absurd (List.self_eq_append_right.1 h) (List.cons_ne_nil n rest)

/-- The destination was empty, so nothing that was there has changed. -/
theorem Within.added (hs : Within destination.root disk table s) (l : Location) (node : Node)
    (h : disk l = some node) : s.disk l = some node := by
  rw [hs.frame, h]
  intro n rest hl
  rw [hl, destination.isEmpty] at h
  cases h

private theorem Within.walk_outer (hs : Within destination.root disk table s) {outer : List Part}
    (h : disk.walk platform.limit [] outer = some destination.root) :
    s.disk.walk platform.limit [] outer = some destination.root := by
  have happend : disk.walk platform.limit [] (outer ++ []) = some destination.root := by
    rw [List.append_nil, h]
  rw [Disk.walk_congr hs.added happend destination.root_ne_none, h]

private theorem Within.exists_outer (hs : Within destination.root disk table s)
    (h : beyond platform.limit disk destination.root path = some inner) :
    ∃ outer, path = outer ++ inner ∧ disk.walk platform.limit [] outer = some destination.root ∧
      s.disk.walk platform.limit [] outer = some destination.root := by
  obtain ⟨outer, hpath, houter⟩ := exists_outer_of_beyond h
  exact ⟨outer, hpath, houter, hs.walk_outer houter⟩

private theorem Within.walk_inside (hs : Within destination.root disk table s) {outer : List Part}
    (houter : s.disk.walk platform.limit [] outer = some destination.root)
    (htame : tame table.spots [] inner = true)
    (h : s.disk.walk platform.limit [] (outer ++ inner) = some l) : destination.root <+: l := by
  obtain ⟨rest, hrest⟩ := Disk.walk_append houter h
  rw [← List.append_nil destination.root] at hrest
  exact hs.covers.walk htame hrest

private theorem Within.place_below (hs : Within destination.root disk table s) {outer : List Part}
    {part : Part} (houter : s.disk.walk platform.limit [] outer = some destination.root)
    (htame : tame table.spots [] (inner ++ [part]) = true)
    (h : s.disk.place platform.limit (outer ++ (inner ++ [part])) = some l) :
    destination.root <+: l := by
  rw [← List.append_assoc] at h
  obtain ⟨n, dir, -, hwalk, -, rfl⟩ := Disk.place_concat_eq_some h
  exact (hs.walk_inside houter (tame_of_append htame) hwalk).trans (List.prefix_append dir [n])

private theorem Within.place_root (hs : Within destination.root disk table s)
    (hwalk : disk.walk platform.limit [] path = some destination.root)
    (hplace : disk.place platform.limit path = some destination.root)
    (h : s.disk.place platform.limit path = some l) : l = destination.root := by
  rcases List.eq_nil_or_concat path with rfl | ⟨front, part, rfl⟩
  · cases h
  · rw [List.concat_eq_append] at hwalk hplace h
    obtain ⟨n, dir, rfl, hdir, -, hroot⟩ := Disk.place_concat_eq_some hplace
    obtain ⟨n', dir', hn, hdir', -, rfl⟩ := Disk.place_concat_eq_some h
    rw [Disk.walk_congr hs.added hwalk destination.root_ne_none, hdir] at hdir'
    cases hdir'
    cases hn
    exact hroot.symm

private theorem Within.place_inside (hs : Within destination.root disk table s)
    (henters : Enters platform destination table path inner)
    (h : s.disk.place platform.limit path = some l) : destination.root <+: l := by
  obtain ⟨outer, rfl, hbefore, houter⟩ := hs.exists_outer henters.beyond
  rcases List.eq_nil_or_concat inner with rfl | ⟨front, part, rfl⟩
  · have hplace := henters.entry rfl
    rw [List.append_nil] at hplace h
    rw [hs.place_root hbefore hplace h]
  · rw [List.concat_eq_append] at h henters
    exact hs.place_below houter henters.tame h

private theorem Within.place_plain (hs : Within destination.root disk table s) {loc : Location}
    (hbeyond : beyond platform.limit disk destination.root path = some inner)
    (hplain : plainEntry table.spots inner = some loc)
    (h : s.disk.place platform.limit path = some l) :
    loc ≠ [] ∧ l = destination.root ++ loc := by
  obtain ⟨outer, rfl, -, houter⟩ := hs.exists_outer hbeyond
  rcases List.eq_nil_or_concat inner with rfl | ⟨front, part, rfl⟩
  · cases hplain
  · rw [List.concat_eq_append] at h hplain
    rw [← List.append_assoc] at h
    obtain ⟨n, dir, rfl, hdir, rfl⟩ := plainEntry_concat_eq_some hplain
    obtain ⟨n', dir', hn, hwalk, -, rfl⟩ := Disk.place_concat_eq_some h
    cases hn
    obtain ⟨rest, hrest⟩ := Disk.walk_append houter hwalk
    rw [← List.append_nil destination.root] at hrest
    rw [hs.covers.walk_plain hdir hrest, List.append_assoc]
    exact ⟨List.concat_ne_nil n dir, rfl⟩

theorem Within.call (hs : Within destination.root disk table s) {call : Call}
    {touched : List Location} {node : Option Node} (hl : destination.root <+: l)
    (hnode : s.disk l ≠ some .directory) (htouched : ∀ t ∈ touched, destination.root <+: t)
    (hcovers : table.Covers destination.root (s.disk.set l node)) :
    Within destination.root disk table ⟨s.disk.set l node, s.made ++ [⟨call, touched⟩]⟩ where
  touched := by
    intro m hm t ht
    rcases List.mem_append.1 hm with hm | hm
    · exact hs.touched m hm t ht
    · rw [List.mem_singleton.1 hm] at ht
      exact htouched t ht
  frame := by
    intro l' hl'
    have hne : l' ≠ l := by
      rintro rfl
      obtain ⟨loc, rfl⟩ := hl
      cases loc with
      | nil =>
          rw [List.append_nil] at hnode
          exact hnode hs.root_directory
      | cons n rest => exact hl' n rest rfl
    show s.disk.set l node l' = disk l'
    rw [Disk.set, if_neg hne, hs.frame l' hl']
  covers := hcovers

private theorem keeps_perform {call : Call}
    (h : ∀ s touched disk', Within destination.root disk table s →
      call.effect platform.limit s.disk = some (touched, disk') →
      Within destination.root disk table ⟨disk', s.made ++ [⟨call, touched⟩]⟩) :
    Eff.Keeps (Within destination.root disk table) (perform platform call) := by
  refine Eff.triple_bind Eff.triple_get fun s => ?_
  cases heffect : call.effect platform.limit s.disk with
  | none => exact Eff.triple_throw fun _ ht => ht.2
  | some result =>
      dsimp only
      split
      · exact Eff.triple_throw fun _ ht => ht.2
      · refine Eff.triple_modify fun t ht => ?_
        obtain ⟨rfl, ht⟩ := ht
        exact h s _ _ ht heffect

private theorem keeps_perform_mkdir
    (h : ∀ s l, Within destination.root disk table s → s.disk.place platform.limit path = some l →
      destination.root <+: l) :
    Eff.Keeps (Within destination.root disk table) (perform platform (.mkdir path)) := by
  refine keeps_perform fun s touched disk' hs heffect => ?_
  rw [Call.effect] at heffect
  split at heffect
  · rename_i l hplace
    split at heffect
    · rename_i hnone
      cases heffect
      have hl := h s l hs hplace
      refine hs.call hl ?_ ?_ (hs.covers.set fun _ _ _ hlink => ?_)
      · rw [hnone]
        exact (Option.some_ne_none _).symm
      · intro t ht
        rw [List.mem_singleton.1 ht]
        exact hl
      · cases hlink
    · cases heffect
  · cases heffect

private theorem keeps_perform_write (henters : Enters platform destination table path inner) :
    Eff.Keeps (Within destination.root disk table) (perform platform (.write path)) := by
  refine keeps_perform fun s touched disk' hs heffect => ?_
  rw [Call.effect] at heffect
  split at heffect
  · rename_i l hwalk
    split at heffect
    · rename_i hnode
      cases heffect
      obtain ⟨outer, rfl, -, houter⟩ := hs.exists_outer henters.beyond
      have hl := hs.walk_inside houter henters.tame hwalk
      refine hs.call hl ?_ ?_ (hs.covers.set fun _ _ _ hlink => ?_)
      · rcases hnode with hnode | hnode <;> simp [hnode]
      · intro t ht
        rw [List.mem_singleton.1 ht]
        exact hl
      · cases hlink
    · cases heffect
  · cases heffect

private theorem keeps_perform_unlink (henters : Enters platform destination table path inner) :
    Eff.Keeps (Within destination.root disk table) (perform platform (.unlink path)) := by
  refine keeps_perform fun s touched disk' hs heffect => ?_
  rw [Call.effect] at heffect
  split at heffect
  · rename_i l hplace
    split at heffect
    · cases heffect
    · rename_i hnode
      cases heffect
      have hl := hs.place_inside henters hplace
      refine hs.call hl (fun h => hnode (.inr h)) ?_ (hs.covers.set fun _ _ _ hlink => ?_)
      · intro t ht
        rw [List.mem_singleton.1 ht]
        exact hl
      · cases hlink
  · cases heffect

theorem Within.link (hs : Within destination.root disk table s) {call : Call} {loc : Location}
    {target : Path} (hloc : loc ≠ []) (hmem : (loc, target) ∈ table.links)
    (hnode : s.disk (destination.root ++ loc) = none) {touched : List Location}
    (htouched : ∀ t ∈ touched, destination.root <+: t) :
    Within destination.root disk table
      ⟨s.disk.set (destination.root ++ loc) (some (.symlink target)),
        s.made ++ [⟨call, touched ++ (destination.root ++ loc) ::
          Call.pointsTo (s.disk.set (destination.root ++ loc) (some (.symlink target)))
            platform.limit (destination.root ++ loc)⟩]⟩ := by
  have hcovers : table.Covers destination.root
      (s.disk.set (destination.root ++ loc) (some (.symlink target))) := by
    refine hs.covers.set fun loc' target' hloc' htarget => ?_
    cases htarget
    rw [← List.append_cancel_left hloc']
    exact hmem
  refine hs.call (List.prefix_append _ _) ?_ ?_ hcovers
  · rw [hnode]
    exact (Option.some_ne_none _).symm
  · intro t ht
    rcases List.mem_append.1 ht with ht | ht
    · exact htouched t ht
    · rcases List.mem_cons.1 ht with rfl | ht
      · exact List.prefix_append _ _
      · exact hcovers.pointsTo hloc ht

private theorem keeps_perform_symlink {linkname : Text}
    (henters : Enters platform destination table path inner)
    (hleaves : Leaves platform destination table inner (.symlink linkname)) :
    Eff.Keeps (Within destination.root disk table)
      (perform platform (.symlink (Path.ofText linkname) path)) := by
  refine keeps_perform fun s touched disk' hs heffect => ?_
  rw [Call.effect] at heffect
  split at heffect
  · rename_i l hplace
    split at heffect
    · rename_i hnone
      cases heffect
      obtain ⟨loc, hplain, hmem⟩ := hleaves
      obtain ⟨hloc, rfl⟩ := hs.place_plain henters.beyond hplain hplace
      exact hs.link hloc hmem hnone (List.forall_mem_nil _)
    · cases heffect
  · cases heffect

private theorem keeps_perform_link {linkname : Text} (follow : Bool)
    (henters : Enters platform destination table path inner)
    (hleaves : Leaves platform destination table inner (.hardLink linkname)) :
    Eff.Keeps (Within destination.root disk table)
      (perform platform (.link follow (joined destination.path linkname) path)) := by
  refine keeps_perform fun s touched disk' hs heffect => ?_
  obtain ⟨behind, source, hsource, hplain, hlinks⟩ := hleaves
  cases follow with
  | true =>
      rw [Call.effect] at heffect
      split at heffect
      · rename_i f l hwalk hplace
        split at heffect
        · rename_i hnode
          cases heffect
          have hl := hs.place_inside henters hplace
          have hf : destination.root <+: f := by
            obtain ⟨outer, hpath, -, houter⟩ := hs.exists_outer hsource.beyond
            rw [hpath] at hwalk
            exact hs.walk_inside houter hsource.tame hwalk
          refine hs.call hl ?_ ?_ (hs.covers.set fun _ _ _ hlink => ?_)
          · rw [hnode.2]
            exact (Option.some_ne_none _).symm
          · intro t ht
            rcases List.mem_cons.1 ht with rfl | ht
            · exact hf
            · rw [List.mem_singleton.1 ht]
              exact hl
          · cases hlink
        · cases heffect
      · cases heffect
  | false =>
      rw [Call.effect] at heffect
      split at heffect
      · rename_i f l hfrom hplace
        split at heffect
        · cases heffect
        · rename_i hnode
          cases heffect
          obtain ⟨-, rfl⟩ := hs.place_plain hsource.beyond hplain hfrom
          have hl := hs.place_inside henters hplace
          have hsourceInside := List.prefix_append destination.root source
          rw [not_or, not_or, not_not] at hnode
          obtain ⟨hnone, hdirectory, hfree⟩ := hnode
          cases hobject : s.disk (destination.root ++ source) with
          | none => exact absurd hobject hnone
          | some node =>
              cases node with
              | directory => exact absurd hobject hdirectory
              | file =>
                  refine hs.call hl ?_ ?_ (hs.covers.set fun _ _ _ hlink => ?_)
                  · rw [hfree]
                    exact (Option.some_ne_none _).symm
                  · intro t ht
                    rw [Call.pointsTo, Disk.set, if_pos rfl, List.mem_cons, List.mem_singleton] at ht
                    rcases ht with rfl | rfl
                    · exact hsourceInside
                    · exact hl
                  · cases hlink
              | symlink target =>
                  obtain ⟨loc, hentry, hmem⟩ := hlinks target (hs.covers source target hobject)
                  obtain ⟨hloc, rfl⟩ := hs.place_plain henters.beyond hentry hplace
                  have htouched : ∀ t ∈ [destination.root ++ source], destination.root <+: t :=
                    List.forall_mem_singleton.2 hsourceInside
                  exact hs.link hloc hmem hfree htouched
      · cases heffect

/-! ### The functions -/

private theorem keeps_excepting {inv : Progress → Prop} {p : ExtractError → Bool}
    {x handler : Extraction Unit} (hx : Eff.Keeps inv x) (hhandler : Eff.Keeps inv handler) :
    Eff.Keeps inv (excepting p x handler) := by
  refine Eff.keeps_tryCatch hx fun e => ?_
  split
  · exact hhandler
  · exact Eff.keeps_throw e

private theorem keeps_mkdir
    (h : ∀ s l, Within destination.root disk table s → s.disk.place platform.limit path = some l →
      destination.root <+: l) :
    Eff.Keeps (Within destination.root disk table) (mkdir platform path) := by
  refine Eff.keeps_get_bind fun s _ => ?_
  split
  · exact Eff.keeps_throw _
  · exact keeps_perform_mkdir h

private theorem Within.pathExists_outer (hs : Within destination.root disk table s)
    {outer : List Part} (houter : disk.walk platform.limit [] outer = some destination.root) :
    s.disk.pathExists platform.limit outer = true := by
  rw [Disk.pathExists, hs.walk_outer houter]
  dsimp only
  rw [hs.root_directory]
  rfl

private theorem Within.pathExists_dropLast (hs : Within destination.root disk table s)
    (hwalk : disk.walk platform.limit [] path = some destination.root)
    (hplace : disk.place platform.limit path = some destination.root) :
    s.disk.pathExists platform.limit path.dropLast = true := by
  rcases List.eq_nil_or_concat path with rfl | ⟨front, part, rfl⟩
  · cases hplace
  · rw [List.concat_eq_append] at hwalk hplace ⊢
    obtain ⟨n, dir, -, hdir, hdirectory, -⟩ := Disk.place_concat_eq_some hplace
    rw [List.dropLast_concat, Disk.pathExists,
      Disk.walk_congr hs.added hwalk destination.root_ne_none, hdir]
    dsimp only
    rw [hs.added dir .directory hdirectory]
    rfl

/-- The missing directories behind the destination.  The recursion ends there, because the destination
exists. -/
private theorem keeps_makedirs {outer : List Part} {part : Part}
    (houter : disk.walk platform.limit [] outer = some destination.root)
    (htame : tame table.spots [] (inner ++ [part]) = true) :
    Eff.Keeps (Within destination.root disk table)
      (makedirs platform (part :: (outer ++ inner).reverse)) := by
  have hmkdir : ∀ s l, Within destination.root disk table s →
      s.disk.place platform.limit (part :: (outer ++ inner).reverse).reverse = some l →
        destination.root <+: l := by
    intro s l hs h
    rw [List.reverse_cons, List.reverse_reverse, List.append_assoc] at h
    exact hs.place_below (hs.walk_outer houter) htame h
  induction inner using List.reverseRecOn generalizing part with
  | nil =>
      rw [makedirs]
      refine Eff.keeps_get_bind fun s hs => Eff.keeps_bind ?_ fun _ => keeps_mkdir hmkdir
      rw [List.append_nil, List.reverse_reverse, hs.pathExists_outer houter]
      exact Eff.keeps_pure _
  | append_singleton inner last ih =>
      have hlast := tame_of_append htame
      rw [makedirs]
      refine Eff.keeps_get_bind fun s hs => Eff.keeps_bind ?_ fun _ => keeps_mkdir hmkdir
      split
      · exact Eff.keeps_pure _
      · refine keeps_excepting ?_ (Eff.keeps_pure _)
        rw [← List.append_assoc, List.reverse_append]
        refine ih hlast fun s l hs h => ?_
        rw [List.reverse_cons, List.reverse_reverse, List.append_assoc] at h
        exact hs.place_below (hs.walk_outer houter) hlast h

private theorem keeps_makeUpperdirs (henters : Enters platform destination table path inner) :
    Eff.Keeps (Within destination.root disk table) (makeUpperdirs platform path.dropLast) := by
  refine Eff.keeps_get_bind fun s hs => ?_
  obtain ⟨outer, rfl, houter, -⟩ := hs.exists_outer henters.beyond
  split
  · exact Eff.keeps_pure _
  · rename_i hmissing
    rcases List.eq_nil_or_concat inner with rfl | ⟨front, part, rfl⟩
    · have hplace := henters.entry rfl
      rw [List.append_nil] at hplace hmissing
      exact absurd (hs.pathExists_dropLast houter hplace) hmissing
    · rw [List.concat_eq_append] at henters hmissing ⊢
      rw [← List.append_assoc, List.dropLast_concat] at hmissing ⊢
      have hfront := tame_of_append henters.tame
      rcases List.eq_nil_or_concat front with rfl | ⟨front, last, rfl⟩
      · rw [List.append_nil] at hmissing
        exact absurd (hs.pathExists_outer houter) hmissing
      · rw [List.concat_eq_append] at hfront ⊢
        rw [← List.append_assoc, List.reverse_append]
        exact keeps_makedirs houter hfront

private theorem keeps_makedir (henters : Enters platform destination table path inner) :
    Eff.Keeps (Within destination.root disk table) (makedir platform path) := by
  refine keeps_excepting (keeps_mkdir fun s l hs h => hs.place_inside henters h) ?_
  refine Eff.keeps_get_bind fun s _ => ?_
  split
  · exact Eff.keeps_pure _
  · exact Eff.keeps_throw _

private theorem keeps_removeEntry (henters : Enters platform destination table path inner) :
    Eff.Keeps (Within destination.root disk table) (removeEntry platform path) := by
  refine Eff.keeps_get_bind fun s _ => ?_
  split
  · exact keeps_perform_unlink henters
  · exact Eff.keeps_pure _

private theorem keeps_makeLink {linkname : Text} {target : Extraction Unit}
    (henters : Enters platform destination table path inner)
    (hleaves : Leaves platform destination table inner (.hardLink linkname))
    (htarget : Eff.Keeps (Within destination.root disk table) target) :
    Eff.Keeps (Within destination.root disk table)
      (makeLink platform destination.path linkname path target) := by
  refine Eff.keeps_get_bind fun s _ => ?_
  split
  · split
    · exact Eff.keeps_bind (keeps_removeEntry henters) fun _ => keeps_perform_link _ henters hleaves
    · exact keeps_perform_link _ henters hleaves
  · exact htarget

private theorem keeps_referenced {inv : Progress → Prop}
    {extract : Member → List Member → Extraction Unit} {found : Option (Member × List Member)}
    (h : ∀ target before, found = some (target, before) → Eff.Keeps inv (extract target before)) :
    Eff.Keeps inv (referenced extract found) := by
  cases found with
  | none => exact Eff.keeps_throw _
  | some found => exact h found.1 found.2 rfl

private theorem findMember_eq_some {name : Path} {members before : List Member} {target : Member}
    (h : findMember name members = some (target, before)) :
    target ∈ members ∧ before ⊆ members ∧ (Path.ofText target.name).normal = name := by
  induction members with
  | nil => cases h
  | cons member members ih =>
      rw [findMember] at h
      split at h
      · rename_i hname
        cases h
        exact ⟨List.mem_cons_self, List.subset_cons_self _ _, hname⟩
      · obtain ⟨hmem, hsub, hname⟩ := ih h
        exact ⟨List.mem_cons_of_mem _ hmem, List.subset_cons_of_subset _ hsub, hname⟩

private theorem linkTarget_eq_some {archive earlier before : List Member} {member target : Member}
    (hearlier : earlier ⊆ archive)
    (h : member.linkTarget archive earlier = some (target, before)) :
    target ∈ archive ∧ before ⊆ archive ∧
      member.refers = some (Path.ofText target.name).normal := by
  obtain ⟨name, hname, h⟩ := Option.bind_eq_some_iff.1 h
  rw [hname]
  split at h
  · obtain ⟨hmem, hsub, hnormal⟩ := findMember_eq_some h
    exact ⟨hearlier hmem, List.Subset.trans hsub hearlier, congrArg some hnormal.symm⟩
  · obtain ⟨hmem, hsub, hnormal⟩ := findMember_eq_some h
    exact ⟨List.mem_reverse.1 hmem, fun m hm => List.mem_reverse.1 (hsub hm),
      congrArg some hnormal.symm⟩

private theorem mem_standIns_of_refers {archive : List Member} {fuel : Nat}
    {member target other : Member}
    (hmem : target ∈ archive) (hrefers : member.refers = some (Path.ofText target.name).normal)
    (h : other ∈ target.standIns archive fuel) : other ∈ member.standIns archive (fuel + 1) := by
  rw [Member.standIns]
  refine List.mem_cons_of_mem _ (List.mem_flatMap.2 ⟨target, ?_, h⟩)
  exact List.mem_filter.2 ⟨hmem, decide_eq_true hrefers⟩

/-- The induction is on the nesting of the calls: a member that is extracted in the place of another
one stands in for it. -/
private theorem keeps_extractMember {archive : List Member}
    (henters : Enters platform destination table path inner) (fuel : Nat) (direct : Bool)
    (member : Member) (earlier : List Member) (hearlier : earlier ⊆ archive)
    (hleaves : ∀ other ∈ member.standIns archive fuel,
      Leaves platform destination table inner other.kind) :
    Eff.Keeps (Within destination.root disk table)
      (extractMember platform destination.path archive fuel direct member earlier path) := by
  induction fuel generalizing direct member earlier with
  | zero => exact Eff.keeps_throw _
  | succ fuel ih =>
      have htarget : Eff.Keeps (Within destination.root disk table) (referenced
          (fun target before =>
            extractMember platform destination.path archive fuel false target before path)
          (member.linkTarget archive earlier)) := by
        refine keeps_referenced fun target before hfound => ?_
        obtain ⟨hmem, hbefore, hrefers⟩ := linkTarget_eq_some hearlier hfound
        exact ih false target before hbefore fun other hother =>
          hleaves other (mem_standIns_of_refers hmem hrefers hother)
      have hcopy := keeps_excepting (p := fun e => e = .keyError) htarget
        (Eff.keeps_throw .extractError)
      have hkind := hleaves member List.mem_cons_self
      rw [extractMember]
      refine Eff.keeps_bind (keeps_makeUpperdirs henters) fun _ => ?_
      split
      · exact keeps_makedir henters
      · exact keeps_perform_write henters
      · rename_i linkname hlink
        rw [hlink] at hkind
        exact keeps_excepting (Eff.keeps_bind (keeps_removeEntry henters) fun _ =>
          keeps_perform_symlink henters hkind) hcopy
      · rename_i linkname hlink
        rw [hlink] at hkind
        split
        · exact keeps_excepting (keeps_makeLink henters hkind htarget) hcopy
        · exact hcopy

private theorem keeps_extractOne {archive earlier : List Member} {member : Member}
    (hearlier : earlier ⊆ archive) (hadmits : Admits platform destination table archive member) :
    Eff.Keeps (Within destination.root disk table)
      (extractOne platform destination.root destination.path archive earlier member) := by
  obtain ⟨inner, henters, hleaves⟩ := hadmits
  refine Eff.keeps_get_bind fun s _ => ?_
  split
  · exact keeps_excepting (keeps_extractMember henters _ _ _ _ hearlier hleaves) (Eff.keeps_pure _)
  · exact Eff.keeps_throw _

/-- Whatever is in the destination by then, the filter refuses the member. -/
private theorem Within.not_accepts (hs : Within destination.root disk table s) {member : Member}
    (h : Refused platform destination member) :
    platform.accepts destination.root destination.path s.disk member = false := by
  obtain ⟨hfilter, hrefused⟩ := h
  obtain ⟨filter, hsome⟩ := Option.ne_none_iff_exists'.1 hfilter
  obtain ⟨path, hpath, l, hl, hout⟩ := hrefused s.disk hs.frame
  rw [Platform.accepts, hsome, ← Bool.not_eq_true]
  intro haccepts
  exact hout (filter.inside _ _ _ _ haccepts path hpath l hl)

private theorem triple_extractOne_refused {archive earlier : List Member} {member : Member}
    (h : Refused platform destination member) :
    Eff.Triple (Within destination.root disk table)
      (extractOne platform destination.root destination.path archive earlier member)
      (fun _ _ => False) (fun _ => Within destination.root disk table) := by
  intro s hs
  rw [extractOne, Eff.exec_bind, Eff.exec_get]
  dsimp only
  rw [hs.not_accepts h]
  exact hs

private theorem keeps_extractAll {archive earlier front back : List Member}
    (hearlier : earlier ⊆ archive) (hsub : front ⊆ archive)
    (hadmits : ∀ member ∈ front, Admits platform destination table archive member)
    (hrefused : ∀ member ∈ back.head?, Refused platform destination member) :
    Eff.Keeps (Within destination.root disk table)
      (extractAll platform destination.root destination.path archive earlier (front ++ back)) := by
  induction front generalizing earlier with
  | nil =>
      cases back with
      | nil => exact Eff.keeps_pure _
      | cons member rest =>
          rw [List.nil_append, extractAll]
          exact Eff.triple_bind (triple_extractOne_refused (hrefused member rfl)) fun _ _ h =>
            absurd h id
  | cons member front ih =>
      rw [List.cons_append, extractAll]
      refine Eff.keeps_bind (keeps_extractOne hearlier (hadmits member List.mem_cons_self)) fun _ => ?_
      exact ih (List.cons_subset.2 ⟨hsub List.mem_cons_self, hearlier⟩)
        (fun m hm => hsub (List.mem_cons_of_mem _ hm))
        (fun m hm => hadmits m (List.mem_cons_of_mem _ hm))

private theorem within_start : Within destination.root disk table ⟨disk, []⟩ where
  touched := List.forall_mem_nil _
  frame := fun _ _ => rfl
  covers := by
    intro loc target h
    change disk (destination.root ++ loc) = _ at h
    cases loc with
    | nil =>
        rw [List.append_nil, destination.isDirectory] at h
        cases h
    | cons n rest =>
        rw [destination.isEmpty] at h
        cases h

private theorem Within.stays {archive : List Member}
    (hs : Within destination.root disk table (extracted platform destination archive)) :
    Stays platform destination archive where
  touched := hs.touched
  links := by
    intro loc l hl
    cases loc with
    | nil =>
        rw [List.append_nil, Call.pointsTo, hs.root_directory] at hl
        exact absurd hl List.not_mem_nil
    | cons n rest => exact hs.covers.pointsTo (List.cons_ne_nil n rest) hl
  frame := by
    intro l hout
    refine hs.frame l fun n rest hl => hout ?_
    rw [hl]
    exact List.prefix_append _ _
  rejects := extracted_of_outside

end Within

def innerArchive : List Member :=
  [⟨"g".toList, .directory⟩, ⟨"a/l".toList, .symlink "../g".toList⟩,
    ⟨"a/h".toList, .hardLink "a/l".toList⟩, ⟨"a/h/x".toList, .file⟩]

def outerMember : Member :=
  ⟨"b".toList, .symlink "/o".toList⟩

def innerTable : LinkTable where
  links := [(["a".toList, "l".toList], Path.ofText "../g".toList),
    (["a".toList, "h".toList], Path.ofText "../g".toList)]
  relative := by decide
  tame := by decide

private theorem innerTable_leaves {n : Text} (hn : n = "l".toList ∨ n = "h".toList) :
    Leaves withFilter (directoryD 40 (by decide)) innerTable [.name "a".toList, .name n]
      (.symlink "../g".toList) := by
  rcases hn with rfl | rfl
  · exact ⟨["a".toList, "l".toList], by decide, by decide⟩
  · exact ⟨["a".toList, "h".toList], by decide, by decide⟩

private theorem innerArchive_admits :
    ∀ member ∈ innerArchive, Admits withFilter (directoryD 40 (by decide)) innerTable
      (innerArchive ++ [outerMember]) member := by
  intro member hmember
  simp only [innerArchive, List.mem_cons, List.not_mem_nil, or_false] at hmember
  rcases hmember with rfl | rfl | rfl | rfl
  · refine ⟨[.name "g".toList], ⟨by decide +kernel, by decide, by decide⟩, ?_⟩
    have hself : Member.standIns (innerArchive ++ [outerMember]) withFilter.recursion
        ⟨"g".toList, .directory⟩ = [⟨"g".toList, .directory⟩] := by decide +kernel
    rw [hself, List.forall_mem_singleton]
    trivial
  · refine ⟨[.name "a".toList, .name "l".toList], ⟨by decide +kernel, by decide, by decide⟩, ?_⟩
    have hself : Member.standIns (innerArchive ++ [outerMember]) withFilter.recursion
        ⟨"a/l".toList, .symlink "../g".toList⟩ =
          [⟨"a/l".toList, .symlink "../g".toList⟩, ⟨"g".toList, .directory⟩] := by decide +kernel
    rw [hself, List.forall_mem_cons, List.forall_mem_singleton]
    exact ⟨innerTable_leaves (.inl rfl), trivial⟩
  · refine ⟨[.name "a".toList, .name "h".toList], ⟨by decide +kernel, by decide, by decide⟩, ?_⟩
    have hself : Member.standIns (innerArchive ++ [outerMember]) withFilter.recursion
        ⟨"a/h".toList, .hardLink "a/l".toList⟩ =
          [⟨"a/h".toList, .hardLink "a/l".toList⟩, ⟨"a/l".toList, .symlink "../g".toList⟩,
            ⟨"g".toList, .directory⟩] := by decide +kernel
    rw [hself, List.forall_mem_cons, List.forall_mem_cons, List.forall_mem_singleton]
    refine ⟨?_, innerTable_leaves (.inr rfl), trivial⟩
    refine ⟨[.name "a".toList, .name "l".toList], ["a".toList, "l".toList],
      ⟨by decide +kernel, by decide, by decide⟩, by decide, ?_⟩
    intro target htarget
    have hg : target = Path.ofText "../g".toList := by
      simpa [innerTable] using htarget
    rw [hg]
    exact ⟨["a".toList, "h".toList], by decide, by decide⟩
  · refine ⟨[.name "a".toList, .name "h".toList, .name "x".toList],
      ⟨by decide +kernel, by decide, by decide⟩, ?_⟩
    have hself : Member.standIns (innerArchive ++ [outerMember]) withFilter.recursion
        ⟨"a/h/x".toList, .file⟩ = [⟨"a/h/x".toList, .file⟩] := by decide +kernel
    rw [hself, List.forall_mem_singleton]
    trivial

private theorem outerMember_refused :
    Refused withFilter (directoryD 40 (by decide)) outerMember := by
  refine ⟨Option.some_ne_none _, ?_⟩
  intro disk' hsame
  refine ⟨[.name "o".toList], by decide +kernel, ["o".toList], ?_, by decide⟩
  have hnode : disk' ["o".toList] = some .directory := by
    rw [hsame]
    · decide
    · intro n rest h
      exact absurd (List.cons.inj h).1 (by decide)
  show disk'.resolve 40 [] [.name "o".toList] = _
  rw [Disk.resolve, List.nil_append, hnode]
  rfl

end SingBoxPython.Sync
