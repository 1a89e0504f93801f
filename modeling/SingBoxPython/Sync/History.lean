import SingBoxPython.Framework.Transition
import SingBoxPython.Sync.Rollback

/-!
# Histories of synchronizations

Runs of the command follow each other on one project.  Upstream tags may move between them, each may
raise, and each may be killed between two changes of the file system.  The checks at the beginning of
a run and at the end of an import do not rely on the runs before.
-/

namespace SingBoxPython.Sync
open Framework

/-! ## Consistent states -/

def Repo.text (repo : Repo) (file : ProjectFile) : Option Text :=
  (repo.files file).bind strippedText

theorem readProjectFile_eq_ok_iff {env : Env} {repo : Repo} {file : ProjectFile} {t : Text} :
    readProjectFile env repo file = .ok t ↔ repo.text file = some t := by
  rw [readProjectFile, Repo.text]
  cases repo.files file with
  | none => simp
  | some bytes =>
      dsimp only
      rw [Option.bind_some]
      split
      · rename_i hnone
        simp [hnone]
      · rename_i u hsome
        simp [hsome]

structure Source where
  tree : Tree
  workflow : Option Text

def IsCommit (commit : Text) : Prop :=
  commit.length = 40 ∧ commit.all isHex = true

theorem IsCommit.isHash {commit : Text} (h : IsCommit commit) : IsHash commit := by
  refine ⟨?_, h.2⟩
  intro hnil
  rw [hnil] at h
  exact absurd h.1 (by decide)

/-- What stays the same over a history: the interpreter, and the commits with their contents. -/
structure Site where
  py : Python
  objects : Text → Option Source
  isCommit : ∀ commit source, objects commit = some source → IsCommit commit

structure ConsistentWith (site : Site) (repo : Repo) (commit : Text) (source : Source) : Prop where
  pinned : repo.text .commit = some commit
  object : site.objects commit = some source
  tree : SameTree source.tree repo.tree
  go : ∃ workflow go, source.workflow = some workflow ∧
    goVersionFromWorkflow site.py workflow = .ok go ∧ repo.text .goVersion = some go

/-- The vendored tree and the Go version are those of the pinned commit. -/
def Consistent (site : Site) (repo : Repo) : Prop :=
  ∃ commit source, ConsistentWith site repo commit source

/-- The run is on the site: tags lead to its commits, ids tell contents apart, and the export of a
commit has no paths of its own. -/
structure Fits (site : Site) (env : Env) : Prop where
  py : env.py = site.py
  injective : Function.Injective env.machine.ids.id
  addressed : ∀ tag checkout, env.upstream tag = .ok checkout →
    site.objects checkout.commit = some ⟨checkout.tree, checkout.workflow⟩
  exported : ∀ checkout, ∀ path ∈ (env.exports checkout).paths,
    ∃ mode content, .blob path mode content ∈ checkout.tree.entries

section Checks

variable {site : Site} {env : Env} {repo : Repo} {checkout : Checkout}

private theorem verifyGoVersion_eq_ok (h : verifyGoVersion env checkout repo = .ok ⟨⟩) :
    ∃ workflow go, checkout.workflow = some workflow ∧
      goVersionFromWorkflow env.py workflow = .ok go ∧ repo.text .goVersion = some go := by
  obtain ⟨expected, hofficial, h⟩ := bind_eq_ok_iff.1 h
  obtain ⟨actual, hactual, h⟩ := bind_eq_ok_iff.1 h
  obtain ⟨hsame, -⟩ := raiseIf_bind_eq_ok_iff.1 h
  obtain ⟨t, hread, h⟩ := bind_eq_ok_iff.1 hactual
  obtain ⟨-, -, h⟩ := bind_eq_ok_iff.1 h
  cases h
  rw [not_not.1 hsame, readProjectFile_eq_ok_iff] at hread
  rw [officialGoVersion] at hofficial
  cases hworkflow : checkout.workflow with
  | none =>
      rw [hworkflow] at hofficial
      cases hofficial
  | some workflow =>
      rw [hworkflow] at hofficial
      exact ⟨workflow, expected, rfl, hofficial, hread⟩

structure Checked (env : Env) (repo : Repo) (checkout : Checkout) : Prop where
  upstream : ∃ tag, env.upstream tag = .ok checkout
  pinned : repo.text .commit = some checkout.commit
  vendor : verifyVendor env.machine checkout repo.tree = .ok ⟨⟩
  goPin : verifyGoVersion env checkout repo = .ok ⟨⟩

theorem Checked.object (h : Checked env repo checkout) (hfits : Fits site env) :
    site.objects checkout.commit = some ⟨checkout.tree, checkout.workflow⟩ := by
  obtain ⟨tag, hupstream⟩ := h.upstream
  exact hfits.addressed tag checkout hupstream

private theorem Checked.consistentWith (h : Checked env repo checkout) (hfits : Fits site env)
    (hattr : Attributed checkout.tree repo.tree) :
    ConsistentWith site repo checkout.commit ⟨checkout.tree, checkout.workflow⟩ where
  pinned := h.pinned
  object := h.object hfits
  tree := sameTree_of_attributed hfits.injective ⟨_, h.vendor⟩ hattr
  go := by
    rw [← hfits.py]
    exact verifyGoVersion_eq_ok h.goPin

theorem Accepted.checked {tag : Text} {current : Current} (h : Accepted env tag repo current) :
    Checked env repo current.checkout where
  upstream := ⟨_, h.upstream⟩
  pinned := readProjectFile_eq_ok_iff.1 (h.read .commit)
  vendor := h.vendor
  goPin := h.goPin

end Checks

/-! ## What an import that returns has done -/

section Import

variable {env : Env} {repo : Repo} {target : Checkout}

/-- Each addition of the staged tree comes from the export or is a copy from the project. -/
def Mixed (env : Env) (repo : Repo) (target : Checkout) (staged : Vendor) : Prop :=
  ∀ path ∈ projectAdditions, staged.lookup path = copied env repo.tree path ∨
    staged.lookup path = (env.exports target).lookup path

private theorem lookup_put (vendor : Vendor) (path : Text) (object : VendorObject) (q : Text) :
    (vendor.put path object).lookup q = if q = path then some object else vendor.lookup q := by
  apply Option.ext
  intro found
  rw [Vendor.lookup, lookup_eq_some_iff (vendor.put path object).nodup, Vendor.put, List.mem_append,
    List.mem_filter, List.mem_singleton, decide_eq_true_eq]
  by_cases hq : q = path
  · simp [hq, eq_comm]
  · rw [if_neg hq, Vendor.lookup, lookup_eq_some_iff vendor.nodup]
    simp [hq]

def Staging (env : Env) (repo : Repo) (target : Checkout) (s : Workspace) : Prop :=
  s.repo = repo ∧ ∃ staged, s.staged = some staged ∧ Mixed env repo target staged

private theorem keeps_copyAddition_staging (relative : Text) :
    Eff.Keeps (Staging env repo target) (copyAddition env relative) := by
  refine Eff.triple_bind (keeps_attempt _) fun _ => Eff.triple_bind Eff.triple_get fun s => ?_
  split
  · exact Eff.triple_throw fun _ hs => hs.2
  · rename_i staged hstaged
    split
    · exact Eff.triple_throw fun _ hs => hs.2
    · refine Eff.triple_bind (triple_liftExcept _ fun _ _ hs => hs.2) fun after => ?_
      refine Eff.triple_modify fun t ht => ?_
      obtain ⟨hafter, rfl, hrepo, staged', hstaged', hmixed⟩ := ht
      rw [hstaged] at hstaged'
      cases hstaged'
      refine ⟨hrepo, after, rfl, ?_⟩
      intro path hpath
      rw [env.throughLink_lookup _ _ _ hafter path hpath]
      exact hmixed path hpath
    · split
      · exact Eff.triple_throw fun _ hs => hs.2
      · rename_i object hobject
        refine Eff.triple_modify fun t ht => ?_
        obtain ⟨rfl, hrepo, staged', hstaged', hmixed⟩ := ht
        rw [hstaged] at hstaged'
        cases hstaged'
        refine ⟨hrepo, _, rfl, ?_⟩
        intro path hmem
        rw [lookup_put]
        by_cases hpath : path = relative
        · rw [if_pos hpath, hpath, ← hobject, hrepo]
          exact .inl rfl
        · rw [if_neg hpath]
          exact hmixed path hmem

private theorem keeps_copyAdditions_staging (additions : List Text) :
    Eff.Keeps (Staging env repo target) (copyAdditions env additions) := by
  induction additions with
  | nil => exact Eff.keeps_pure _
  | cons relative rest ih =>
      rw [copyAdditions]
      exact Eff.keeps_bind (keeps_copyAddition_staging relative) fun _ => ih

private theorem triple_renameAway_staging :
    Eff.Triple (Staging env repo target) renameAway
      (fun _ s => ∃ staged, s.staged = some staged ∧ Mixed env repo target staged)
      (fun _ _ => True) := by
  refine Eff.triple_bind Eff.triple_get fun s => ?_
  split
  · exact Eff.triple_throw fun _ _ => trivial
  · intro t ht
    exact ht.2.2

private theorem triple_prepare_staging (env : Env) (repo : Repo) (tag : Text) :
    Eff.Triple (fun s => s.repo = repo) (prepare env tag)
      (fun r s => env.upstream tag = .ok r.1 ∧
        ∃ staged, s.staged = some staged ∧ Mixed env repo r.1 staged)
      (fun _ _ => True) := by
  refine Eff.triple_bind (triple_attempt _ fun _ _ _ => trivial) fun _ => ?_
  refine Eff.triple_bind (triple_liftExcept _ fun _ _ _ => trivial) fun target => ?_
  refine Eff.triple_of_fact fun hupstream => ?_
  refine Eff.triple_bind (triple_attempt _ fun _ _ _ => trivial) fun _ => ?_
  refine Eff.triple_bind (triple_liftExcept _ fun _ _ _ => trivial) fun go => ?_
  refine Eff.triple_of_fact fun _ => ?_
  refine Eff.triple_bind (triple_attempt _ fun _ _ _ => trivial) fun _ => ?_
  refine Eff.triple_bind (R := fun _ => Staging env repo target)
    (Eff.triple_modify fun s hs => ⟨hs, _, rfl, fun _ _ => .inr rfl⟩) fun _ => ?_
  refine Eff.triple_bind (Eff.triple_mono (keeps_copyAdditions_staging _) (fun _ hs => hs)
    (fun _ _ hs => hs) fun _ _ _ => trivial) fun _ => ?_
  refine Eff.triple_bind (triple_attempt _ fun _ _ _ => trivial) fun _ => ?_
  exact Eff.triple_bind triple_renameAway_staging fun _ => Eff.triple_pure fun _ hs => ⟨hupstream, hs⟩

private theorem setFile_setFile (r : Repo) (file : ProjectFile) (x y : Option Bytes) :
    (r.setFile file x).setFile file y = r.setFile file y := by
  have hfiles : ∀ f, (if f = file then y else if f = file then x else r.files f) =
      if f = file then y else r.files f := by
    intro f
    by_cases hf : f = file
    · rw [if_pos hf, if_pos hf]
    · rw [if_neg hf, if_neg hf, if_neg hf]
  exact congrArg (Repo.mk r.vendor) (funext hfiles)

private theorem triple_writeText {P Q : Repo → Prop} {file : ProjectFile} {text : Text}
    (h : ∀ r, P r → Q (r.setFile file (some (utf8 (text ++ ['\n']))))) :
    Eff.Triple (fun s => P s.repo) (writeText env file text) (fun _ s => Q s.repo)
      (fun _ _ => True) := by
  rw [writeText]
  split
  · exact Eff.triple_bind (R := fun _ _ => True) (fun _ _ => trivial) fun _ =>
      Eff.triple_throw fun _ _ => trivial
  · intro s hs
    show Q ((s.repo.setFile file (some [])).setFile file _)
    rw [setFile_setFile]
    exact h s.repo hs

structure Installed (env : Env) (tag : Text) (target : Checkout) (staged : Vendor) (repo : Repo) :
    Prop where
  vendor : repo.vendor = some staged
  version : repo.files .version = some (utf8 (tag ++ ['\n']))
  commit : repo.files .commit = some (utf8 (target.commit ++ ['\n']))
  verified : verifyVendor env.machine target repo.tree = .ok ⟨⟩
  goVerified : verifyGoVersion env target repo = .ok ⟨⟩

def Tagged (tag : Text) (staged : Vendor) (repo : Repo) : Prop :=
  repo.vendor = some staged ∧ repo.files .version = some (utf8 (tag ++ ['\n']))

def Pinned (tag commit : Text) (staged : Vendor) (repo : Repo) : Prop :=
  Tagged tag staged repo ∧ repo.files .commit = some (utf8 (commit ++ ['\n']))

private theorem triple_verify {P : Workspace → Prop} (operation : Operation)
    (check : Repo → Except Failure Unit) :
    Eff.Triple P
      (attempt env operation >>= fun _ => get >>= fun s => liftExcept (check s.repo) : SyncM Unit)
      (fun _ s => check s.repo = .ok ⟨⟩ ∧ P s) (fun _ _ => True) := by
  refine Eff.triple_bind (triple_attempt _ fun _ _ _ => trivial) fun _ => ?_
  refine Eff.triple_bind Eff.triple_get fun s => ?_
  refine Eff.triple_mono (triple_liftExcept _ fun _ _ _ => trivial) (fun _ ht => ht) ?_
    (fun _ _ h => h)
  intro _ t ht
  obtain ⟨hverified, rfl, hp⟩ := ht
  exact ⟨hverified, hp⟩

private theorem triple_install (env : Env) (tag : Text) (target : Checkout) (go : Text)
    (staged : Vendor) : Eff.Triple (fun s => s.staged = some staged) (install env tag target go)
      (fun _ s => Installed env tag target staged s.repo) (fun _ _ => True) := by
  refine Eff.triple_bind (triple_attempt _ fun _ _ _ => trivial) fun _ => ?_
  have hrename : Eff.Triple (fun s : Workspace => s.staged = some staged) renameIn
      (fun _ s => s.repo.vendor = some staged) (fun _ _ => True) := by
    intro s hs
    obtain ⟨repo, _, backup, history⟩ := s
    cases hs
    rfl
  refine Eff.triple_bind hrename fun _ => ?_
  have hversion : Eff.Triple (fun s => s.repo.vendor = some staged) (writeText env .version tag)
      (fun _ s => Tagged tag staged s.repo) (fun _ _ => True) :=
    triple_writeText (P := fun r => r.vendor = some staged) (Q := Tagged tag staged)
      fun r hr => ⟨hr, rfl⟩
  have hcommit : Eff.Triple (fun s => Tagged tag staged s.repo)
      (writeText env .commit target.commit)
      (fun _ s => Pinned tag target.commit staged s.repo) (fun _ _ => True) :=
    triple_writeText (P := Tagged tag staged) (Q := Pinned tag target.commit staged)
      fun r hr => ⟨hr, rfl⟩
  have hgo : Eff.Triple (fun s => Pinned tag target.commit staged s.repo)
      (writeText env .goVersion go)
      (fun _ s => Pinned tag target.commit staged s.repo) (fun _ _ => True) :=
    triple_writeText (P := Pinned tag target.commit staged) (Q := Pinned tag target.commit staged)
      fun r hr => hr
  refine Eff.triple_bind hversion fun _ => Eff.triple_bind hcommit fun _ => ?_
  refine Eff.triple_bind hgo fun _ => ?_
  refine Eff.triple_bind (triple_verify .verifyVendor fun r => verifyVendor env.machine target r.tree)
    fun _ => ?_
  refine Eff.triple_mono (triple_verify .verifyGo fun r => verifyGoVersion env target r)
    (fun _ hs => hs) ?_ (fun _ _ h => h)
  intro _ s hs
  obtain ⟨hgoVerified, hverified, ⟨hvendor, hversion⟩, hcommit⟩ := hs
  exact ⟨hvendor, hversion, hcommit, hverified, hgoVerified⟩

/-- A run that returns found the target synchronized, or has installed it. -/
theorem syncRun_returns {tag : Text} {s : Workspace} (h : syncRun env tag repo = (.ok ⟨⟩, s)) :
    (initialChecks env tag repo = .ok none ∧ s.repo = repo) ∨
      ∃ current target staged, initialChecks env tag repo = .ok (some current) ∧
        env.upstream tag = .ok target ∧ Mixed env repo target staged ∧
        Installed env tag target staged s.repo := by
  rw [syncRun_eq] at h
  cases hchecked : env.raises .initialChecks with
  | some failure =>
      rw [hchecked] at h
      cases h
  | none =>
      rw [hchecked] at h
      rcases haccepted : initialChecks env tag repo with failure | _ | current
      · rw [haccepted] at h
        cases h
      · rw [haccepted] at h
        cases h
        exact .inl ⟨rfl, rfl⟩
      · rw [haccepted] at h
        change Eff.exec (importTarget env tag current) _ = _ at h
        have hstaged := triple_prepare_staging env repo tag ⟨repo, none, none, []⟩ rfl
        rcases hprepare : Eff.exec (prepare env tag) ⟨repo, none, none, []⟩ with
          ⟨failure | ⟨target, go⟩, t⟩
        · rw [importTarget, Eff.exec_bind, hprepare] at h
          cases h
        · rw [hprepare] at hstaged
          obtain ⟨hupstream, staged, hstaged, hmixed⟩ := hstaged
          have hinstalled := triple_install env tag target go staged t hstaged
          rw [exec_importTarget hprepare] at h
          rcases hinstall : Eff.exec (install env tag target go) t with ⟨failure | _, u⟩
          · rw [hinstall] at h
            cases h
          · rw [hinstall] at h hinstalled
            cases h
            exact .inr ⟨current, target, staged, rfl, hupstream, hmixed, hinstalled⟩

end Import

/-! ## One run -/

def Machine.bytes (machine : Machine) (vendor : Vendor) (path : Text) : Option Bytes :=
  match vendor.lookup path with
  | none => none
  | some (.file content _) => some content
  | some (.symlink _) => machine.opens vendor path

private theorem copied_eq_some {env : Env} {vendor : Vendor} {path : Text} {object : VendorObject}
    (h : copied env vendor path = some object) :
    ∃ content executable, object = .file content executable ∧
      env.machine.bytes vendor path = some content := by
  rw [copied] at h
  rw [Machine.bytes]
  cases hlookup : vendor.lookup path with
  | none =>
      rw [hlookup] at h
      cases h
  | some original =>
      rw [hlookup] at h
      cases original with
      | file content executable =>
          cases h
          exact ⟨content, executable, rfl, rfl⟩
      | symlink target =>
          obtain ⟨content, hopens, rfl⟩ := Option.map_eq_some_iff.1 h
          exact ⟨content, false, rfl, hopens⟩

/-- The target has the version that the project has, and nothing changed. -/
structure Unmoved (env : Env) (tag : Text) (before after : Repo) : Prop where
  same : after = before
  version : ∃ current version, currentTag env before = .ok current ∧
    parseVersion env.py current = .ok version ∧ parseVersion env.py tag = .ok version

structure Moved (env : Env) (tag : Text) (before after : Repo) : Prop where
  upwards : ∃ current version target, currentTag env before = .ok current ∧
    parseVersion env.py current = .ok version ∧ parseVersion env.py tag = .ok target ∧
      versionLt version target = true
  version : after.files .version = some (utf8 (tag ++ ['\n']))
  commit : ∃ target, env.upstream tag = .ok target ∧
    after.files .commit = some (utf8 (target.commit ++ ['\n']))
  additions : ∀ path ∈ projectAdditions,
    env.machine.bytes after.tree path = env.machine.bytes before.tree path

/-- A run that returns ends in a consistent state, which is the old one or the one of the target.  A
run that raises leaves the tree and the texts of the files. -/
structure RunSound (site : Site) (env : Env) (tag : Text) (repo : Repo) : Prop where
  returned : ∀ s, syncRun env tag repo = (.ok ⟨⟩, s) →
    Consistent site s.repo ∧ (Unmoved env tag repo s.repo ∨ Moved env tag repo s.repo)
  raised : ∀ e s, syncRun env tag repo = (.error e, s) →
    s.repo.vendor = repo.vendor ∧ ∀ file, s.repo.text file = repo.text file

/-- Where the run returns, the objects of the tree have the modes and targets of the commit. -/
def Faithful (site : Site) (env : Env) (tag : Text) (repo : Repo) : Prop :=
  ∀ s, syncRun env tag repo = (.ok ⟨⟩, s) → ∀ commit source, s.repo.text .commit = some commit →
    site.objects commit = some source → Attributed source.tree s.repo.tree

/-- A file that a link could lead to holds these bytes: one of the commit, an addition of the project,
or one outside of the tree. -/
def Held (env : Env) (repo : Repo) (tree : Tree) (content : Bytes) : Prop :=
  (∃ path mode, mode ≠ .symlink ∧ .blob path mode content ∈ tree.entries) ∨
    (∃ path ∈ projectAdditions, env.machine.bytes repo.tree path = some content) ∨
      ∃ line, env.machine.elsewhere line = some content

/-- `verify_vendor` compares the modes of the commit, and no file holds the text of one of its links,
which following the link could read. -/
structure Legible (env : Env) (repo : Repo) (checkout : Checkout) : Prop where
  commit : checkout.commit ≠ legacyNormalizedModeCommit
  links : ∀ path content, .blob path .symlink content ∈ checkout.tree.entries →
    ¬ Held env repo checkout.tree content

/-- The commits that the run can look at are legible: that of the tag in the project and that of the
target. -/
structure LegibleRun (env : Env) (tag : Text) (repo : Repo) : Prop where
  posix : env.machine.windows = false
  commits : ∀ name checkout, currentTag env repo = .ok name ∨ name = tag →
    env.upstream name = .ok checkout → Legible env repo checkout

/-- Opening a symbolic link reads a file of the tree, or one outside of it. -/
def Machine.OpensFiles (machine : Machine) : Prop :=
  ∀ vendor path content, machine.opens vendor path = some content →
    (∃ file executable, vendor.lookup file = some (.file content executable)) ∨
      ∃ line, machine.elsewhere line = some content

section Run

variable {site : Site} {env : Env} {tag : Text} {repo : Repo}

private theorem raised_keeps {e : Failure} {s : Workspace}
    (h : syncRun env tag repo = (.error e, s)) :
    s.repo.vendor = repo.vendor ∧ ∀ file, s.repo.text file = repo.text file := by
  rcases repo_eq_or_failsInTry h with hsame | ⟨current, hfails⟩
  · rw [hsame]
    exact ⟨rfl, fun _ => rfl⟩
  · obtain ⟨e', s', hrun, hrepo⟩ := hfails.syncRun
    rw [h] at hrun
    cases hrun
    rw [hrepo]
    refine ⟨rfl, ?_⟩
    intro file
    have hread := readProjectFile_eq_ok_iff.1 ((initialChecks_some hfails.accepted).read file)
    obtain ⟨bytes, -, hbytes⟩ := Option.bind_eq_some_iff.1 hread
    rw [hread]
    exact strippedText_rewritten hbytes

theorem Installed.pinned {target : Checkout} {staged : Vendor}
    (h : Installed env tag target staged repo) (hhash : IsHash target.commit) :
    repo.text .commit = some target.commit := by
  have hspace : ∀ c ∈ target.commit, Text.isSpace c = false := fun c hc =>
    (hhash.isWord.noSpace hc).1
  have hreturn : '\r' ∉ target.commit := by
    intro hmem
    exact absurd (hspace _ hmem) (by decide)
  rw [Repo.text, h.commit]
  exact strippedText_line hreturn (fun c hc => hspace c (List.mem_of_mem_head? hc))
    (fun c hc => hspace c (List.mem_of_getLast? hc))

theorem Installed.checked {target : Checkout} {staged : Vendor}
    (h : Installed env tag target staged repo) (hfits : Fits site env)
    (hupstream : env.upstream tag = .ok target) : Checked env repo target where
  upstream := ⟨tag, hupstream⟩
  pinned := h.pinned (site.isCommit _ _ (hfits.addressed _ _ hupstream)).isHash
  vendor := h.verified
  goPin := h.goVerified

private theorem unmoved_of_checks (h : initialChecks env tag repo = .ok none) :
    Unmoved env tag repo repo ∧ ∃ current, Accepted env tag repo current := by
  obtain ⟨current, currentVersion, targetVersion, hacc, hcurrent, htarget, -, hresult⟩ :=
    initialChecks_eq_ok h
  have hversion : targetVersion = currentVersion := by
    by_contra hne
    rw [if_neg hne] at hresult
    cases hresult
  subst hversion
  exact ⟨⟨rfl, _, _, hacc.tag, hcurrent, htarget⟩, _, hacc⟩

private theorem Fits.returned_checked (hfits : Fits site env) {s : Workspace}
    (h : syncRun env tag repo = (.ok ⟨⟩, s)) : ∃ checkout, Checked env s.repo checkout := by
  rcases syncRun_returns h with ⟨hchecks, hsame⟩ | ⟨_, target, _, _, hupstream, _, hinstalled⟩
  · obtain ⟨-, current, hacc⟩ := unmoved_of_checks hchecks
    rw [hsame]
    exact ⟨_, hacc.checked⟩
  · exact ⟨target, hinstalled.checked hfits hupstream⟩

private theorem Fits.additions_kept {target : Checkout} {staged : Vendor} {before : Repo}
    (hfits : Fits site env) (hmixed : Mixed env before target staged)
    (htree : Comparable target.tree staged) {path : Text} (hpath : path ∈ projectAdditions) :
    env.machine.bytes staged path = env.machine.bytes before.tree path := by
  have hmem : path ∈ staged.paths := (htree.paths path).2 (.inr hpath)
  obtain ⟨⟨p, object⟩, hentry, hp⟩ := List.mem_map.1 hmem
  obtain rfl : path = p := hp.symm
  have hlookup : staged.lookup path = some object := (lookup_eq_some_iff staged.nodup).2 hentry
  have hcopied : copied env before.tree path = some object := by
    rcases hmixed path hpath with hcopy | hexport
    · rw [← hcopy, hlookup]
    · -- An export with this path would make it a path of the upstream tree.
      rw [hlookup] at hexport
      have hexported : path ∈ (env.exports target).paths :=
        List.mem_map_of_mem (f := Prod.fst)
          ((lookup_eq_some_iff (env.exports target).nodup).1 hexport.symm)
      obtain ⟨mode, content, hblob⟩ := hfits.exported target path hexported
      exact absurd hblob (htree.additions path hpath mode content)
  obtain ⟨content, executable, rfl, hbytes⟩ := copied_eq_some hcopied
  rw [hbytes, Machine.bytes, hlookup]

theorem Fits.moved (hfits : Fits site env) {current : Current} {target : Checkout}
    {staged : Vendor} {after : Repo} (hchecks : initialChecks env tag repo = .ok (some current))
    (hupstream : env.upstream tag = .ok target) (hmixed : Mixed env repo target staged)
    (hinstalled : Installed env tag target staged after)
    (hattr : Attributed target.tree after.tree) : Moved env tag repo after := by
  have htree : after.tree = staged := by rw [Repo.tree, hinstalled.vendor, Option.getD_some]
  have hsame := ((hinstalled.checked hfits hupstream).consistentWith hfits hattr).tree
  obtain ⟨found, currentVersion, targetVersion, hacc, hcurrent, htarget, hlt, hresult⟩ :=
    initialChecks_eq_ok hchecks
  have hne : targetVersion ≠ currentVersion := by
    intro heq
    rw [if_pos heq] at hresult
    cases hresult
  refine ⟨⟨_, _, _, hacc.tag, hcurrent, htarget, versionLt_of_not_lt hlt hne⟩, hinstalled.version,
    ⟨target, hupstream, hinstalled.commit⟩, ?_⟩
  intro path hpath
  rw [htree] at hsame ⊢
  exact hfits.additions_kept hmixed hsame.toComparable hpath

/-- One run is sound exactly when it is faithful. -/
private theorem runSound_iff (hfits : Fits site env) :
    RunSound site env tag repo ↔ Faithful site env tag repo := by
  constructor
  · intro h s hrun commit source hcommit hsource
    obtain ⟨commit', source', hconsistent⟩ := (h.returned s hrun).1
    have hpinned := hconsistent.pinned
    rw [hcommit] at hpinned
    cases hpinned
    have hobject := hconsistent.object
    rw [hsource] at hobject
    cases hobject
    exact hconsistent.tree.attributed
  · intro h
    refine ⟨?_, fun _ _ => raised_keeps⟩
    intro s hrun
    obtain ⟨checkout, hchecked⟩ := hfits.returned_checked hrun
    have hattr := h s hrun _ _ hchecked.pinned (hchecked.object hfits)
    refine ⟨⟨_, _, hchecked.consistentWith hfits hattr⟩, ?_⟩
    rcases syncRun_returns hrun with ⟨hchecks, hsame⟩ |
      ⟨current, target, staged, hchecks, hupstream, hmixed, hinstalled⟩
    · rw [hsame]
      exact .inl (unmoved_of_checks hchecks).1
    · have hinstall := hinstalled.checked hfits hupstream
      exact .inr (hfits.moved hchecks hupstream hmixed hinstalled
        (h s hrun _ _ hinstall.pinned (hinstall.object hfits)))

/-- A file of a verified tree holds what the commit or an addition holds. -/
private theorem held_of_file {tree : Tree} {vendor : Vendor} {file : Text} {content : Bytes}
    {executable : Bool} (hcomp : Comparable tree vendor)
    (hkept : ∀ path ∈ projectAdditions,
      env.machine.bytes vendor path = env.machine.bytes repo.tree path)
    (hfile : vendor.lookup file = some (.file content executable)) : Held env repo tree content := by
  have hmem : file ∈ vendor.paths :=
    List.mem_map_of_mem (f := Prod.fst) ((lookup_eq_some_iff vendor.nodup).1 hfile)
  rcases (hcomp.paths file).1 hmem with ⟨mode, blob, hblob⟩ | haddition
  · cases mode with
    | regular =>
        have hsame := hcomp.regular file blob hblob
        rw [hfile] at hsame
        cases hsame
        exact .inl ⟨file, .regular, BlobMode.noConfusion, hblob⟩
    | executable =>
        have hsame := hcomp.executable file blob hblob
        rw [hfile] at hsame
        cases hsame
        exact .inl ⟨file, .executable, BlobMode.noConfusion, hblob⟩
    | symlink =>
        obtain ⟨target, hlink⟩ := hcomp.symlink file blob hblob
        rw [hfile] at hlink
        cases hlink
  · refine .inr (.inl ⟨file, haddition, ?_⟩)
    rw [← hkept file haddition, Machine.bytes, hfile]

/-- A tree that is verified against a legible commit is the tree of the commit: git would have read the
text of each link from a file that holds it. -/
theorem Legible.attributed {checkout : Checkout} {vendor : Vendor}
    (h : Legible env repo checkout) (hposix : env.machine.windows = false)
    (hopens : env.machine.OpensFiles) (hids : Function.Injective env.machine.ids.id)
    (hverified : verifyVendor env.machine checkout vendor = .ok ⟨⟩)
    (hkept : Comparable checkout.tree vendor → ∀ path ∈ projectAdditions,
      env.machine.bytes vendor path = env.machine.bytes repo.tree path) :
    Attributed checkout.tree vendor := by
  obtain ⟨hcomp, hread⟩ := (verifyVendor_returns_iff hids h.commit hposix).1 ⟨_, hverified⟩
  have hsame : SameTree checkout.tree vendor := by
    refine ⟨hcomp, ?_⟩
    intro path content hlink
    rcases hopens vendor path content (hread.opened path content hlink) with
      ⟨file, executable, hfile⟩ | houtside
    · exact absurd (held_of_file hcomp (hkept hcomp) hfile) (h.links path content hlink)
    · exact absurd (.inr (.inr houtside)) (h.links path content hlink)
  exact hsame.attributed

/-- Runs on legible commits are faithful. -/
private theorem Fits.faithful_of_legible (hfits : Fits site env) (hopens : env.machine.OpensFiles)
    (h : LegibleRun env tag repo) : Faithful site env tag repo := by
  intro s hrun commit source hcommit hsource
  have hattr : ∃ checkout, Checked env s.repo checkout ∧
      Attributed checkout.tree s.repo.tree := by
    rcases syncRun_returns hrun with ⟨hchecks, hsame⟩ |
      ⟨_, target, staged, _, hupstream, hmixed, hinstalled⟩
    · obtain ⟨-, current, hacc⟩ := unmoved_of_checks hchecks
      rw [hsame]
      exact ⟨_, hacc.checked, (h.commits _ _ (.inl hacc.tag) hacc.upstream).attributed h.posix hopens
        hfits.injective hacc.vendor fun _ _ _ => rfl⟩
    · have htree : s.repo.tree = staged := by
        rw [Repo.tree, hinstalled.vendor, Option.getD_some]
      refine ⟨_, hinstalled.checked hfits hupstream, (h.commits _ _ (.inr rfl) hupstream).attributed
        h.posix hopens hfits.injective hinstalled.verified ?_⟩
      intro hcomp path hpath
      rw [htree] at hcomp ⊢
      exact hfits.additions_kept hmixed hcomp hpath
  obtain ⟨checkout, hchecked, hattr⟩ := hattr
  have hpinned := hchecked.pinned
  rw [hcommit] at hpinned
  cases hpinned
  have hobject := hchecked.object hfits
  rw [hsource] at hobject
  cases hobject
  exact hattr

end Run

/-! ## Whole histories -/

/-- How a run ends: by itself, or killed after so many changes of the file system. -/
inductive Ending
  | finished
  | killed (changes : Nat)
  deriving DecidableEq

structure Run (site : Site) where
  env : Env
  tag : Text
  ending : Ending
  fits : Fits site env
  opens : env.machine.OpensFiles

section History

variable {site : Site}

def Run.after (run : Run site) (repo : Repo) : Repo :=
  match run.ending with
  | .finished => (syncRun run.env run.tag repo).2.repo
  | .killed changes =>
      (repo :: (syncRun run.env run.tag repo).2.history).getD changes
        (syncRun run.env run.tag repo).2.repo

def historyStep (repo : Repo) (run : Run site) : Option Repo :=
  some (run.after repo)

/-- Every run that finishes is sound, and the state stays consistent as long as no run is killed. -/
structure HistorySound (start : Repo) (runs : List (Run site)) : Prop where
  sound : Along (fun repo run => run.ending = .finished → RunSound site run.env run.tag repo)
    historyStep start runs
  consistent : (∀ run ∈ runs, run.ending = .finished) → ∀ repo,
    exec historyStep start runs = some repo → Consistent site repo

private theorem RunSound.consistent {run : Run site} {repo : Repo} (hrepo : Consistent site repo)
    (hfinished : run.ending = .finished) (h : RunSound site run.env run.tag repo) :
    Consistent site (run.after repo) := by
  rw [Run.after, hfinished]
  rcases hrun : syncRun run.env run.tag repo with ⟨e | _, s⟩
  · obtain ⟨hvendor, htext⟩ := h.raised e s hrun
    obtain ⟨commit, source, hconsistent⟩ := hrepo
    refine ⟨commit, source, ?_, hconsistent.object, ?_, ?_⟩
    · rw [htext]
      exact hconsistent.pinned
    · rw [Repo.tree, hvendor]
      exact hconsistent.tree
    · rw [htext]
      exact hconsistent.go
  · exact (h.returned s hrun).1

private theorem RunSound.consistent_of_returned {env : Env} {tag : Text} {repo : Repo}
    (h : RunSound site env tag repo) (hreturned : (syncRun env tag repo).1 = .ok ⟨⟩) :
    Consistent site (syncRun env tag repo).2.repo :=
  (h.returned (syncRun env tag repo).2 (Prod.ext hreturned rfl)).1

/-- A history from a consistent state is sound exactly when each of its runs that finishes is
faithful. -/
private theorem historySound_iff {start : Repo} (hstart : Consistent site start)
    (runs : List (Run site)) : HistorySound start runs ↔
      Along (fun repo run => run.ending = .finished → Faithful site run.env run.tag repo)
        historyStep start runs := by
  constructor
  · intro h
    exact h.sound.imp fun repo run _ hsound hfinished =>
      (runSound_iff run.fits).1 (hsound hfinished)
  · intro h
    refine ⟨h.imp fun repo run _ hfaithful hfinished =>
      (runSound_iff run.fits).2 (hfaithful hfinished), ?_⟩
    intro hfinished repo hexec
    have hsound : Along (fun repo run => run.ending = .finished ∧
        RunSound site run.env run.tag repo) historyStep start runs :=
      h.imp fun repo run hrun hfaithful =>
        ⟨hfinished run hrun, (runSound_iff run.fits).2 (hfaithful (hfinished run hrun))⟩
    refine exec_invariant_along ?_ hstart hsound hexec
    intro repo run after hrepo hok hstep
    cases hstep
    exact hok.2.consistent hrepo hok.1

end History

/-! ## Two releases -/

def TreeEntry.object : TreeEntry → Option (Text × VendorObject)
  | .blob path .regular content => some (path, .file content false)
  | .blob path .executable content => some (path, .file content true)
  | .blob path .symlink content => some (path, .symlink content)
  | .gitlink _ _ => none

def Tree.directory (tree : Tree) : Vendor where
  entries := tree.entries.filterMap TreeEntry.object
  nodup := by
    refine tree.nodup.sublist ?_
    induction tree.entries with
    | nil => exact .slnil
    | cons e entries ih =>
        cases e with
        | blob path mode content => cases mode <;> exact ih.cons_cons path
        | gitlink path commit => exact ih.cons path

private theorem mem_directory {tree : Tree} {path : Text} (h : path ∈ tree.directory.paths) :
    ∃ mode content, .blob path mode content ∈ tree.entries := by
  obtain ⟨⟨p, object⟩, hmem, hp⟩ := List.mem_map.1 h
  obtain rfl : path = p := hp.symm
  obtain ⟨e, he, hobject⟩ := List.mem_filterMap.1 hmem
  cases e with
  | blob q mode content => cases mode <;> (cases hobject; exact ⟨_, _, he⟩)
  | gitlink q commit => cases hobject

def pinWorkflow : Option Text :=
  some "go-version: 1.24.0".toList

/-- Two upstream releases, `v1.0.0` and one for all other tags. -/
def releaseSite (old new : Tree) : Site where
  py := python311
  objects := fun commit =>
    if commit = List.replicate 40 'a' then some ⟨old, pinWorkflow⟩
    else if commit = List.replicate 40 'b' then some ⟨new, pinWorkflow⟩
    else none
  isCommit := by
    intro commit source h
    by_cases ha : commit = List.replicate 40 'a'
    · rw [ha]
      exact ⟨by decide, by decide⟩
    · rw [if_neg ha] at h
      by_cases hb : commit = List.replicate 40 'b'
      · rw [hb]
        exact ⟨by decide, by decide⟩
      · rw [if_neg hb] at h
        cases h

def releaseEnv (old new : Tree) : Env where
  py := python311
  machine := linux
  root := "/project".toList
  status := fun _ => []
  upstream := fun tag =>
    .ok (if tag = "v1.0.0".toList
      then ⟨"FETCH_HEAD".toList, List.replicate 40 'a', old, pinWorkflow⟩
      else ⟨"FETCH_HEAD".toList, List.replicate 40 'b', new, pinWorkflow⟩)
  exports := fun checkout => checkout.tree.directory
  raises := fun _ => none
  leaves := fun _ => none
  scans := Vendor.paths
  throughLink := danglingLink
  throughLink_lookup := danglingLink_lookup

theorem releaseEnv_fits (old new : Tree) : Fits (releaseSite old new) (releaseEnv old new) where
  py := rfl
  injective := unaryId_injective
  addressed := by
    intro tag checkout h
    cases h
    by_cases htag : tag = "v1.0.0".toList
    · rw [if_pos htag]
      rfl
    · rw [if_neg htag]
      rfl
  exported := fun _ _ h => mem_directory h

private theorem linux_opensFiles : linux.OpensFiles := by
  intro vendor path content h
  change openBeside vendor path = some content at h
  rw [openBeside] at h
  split at h
  · split at h
    · rename_i executable hfile
      cases h
      exact .inl ⟨_, _, hfile⟩
    · cases h
  · cases h

def releaseRepo (vendor : Vendor) : Repo where
  vendor := some vendor
  files
    | .version => some (utf8 ("v1.0.0".toList ++ ['\n']))
    | .commit => some (utf8 (List.replicate 40 'a' ++ ['\n']))
    | .goVersion => some (utf8 ("1.24.0".toList ++ ['\n']))

private theorem releaseEnv_legible {old new : Tree}
    (hold : ∀ path content, .blob path .symlink content ∉ old.entries)
    (hnew : ∀ path content, .blob path .symlink content ∉ new.entries) (tag : Text) (repo : Repo) :
    LegibleRun (releaseEnv old new) tag repo where
  posix := rfl
  commits := by
    intro name checkout _ h
    cases h
    by_cases hname : name = "v1.0.0".toList
    · rw [if_pos hname]
      have hcommit : List.replicate 40 'a' ≠ legacyNormalizedModeCommit := by decide
      exact ⟨hcommit, fun path content hlink => absurd hlink (hold path content)⟩
    · rw [if_neg hname]
      have hcommit : List.replicate 40 'b' ≠ legacyNormalizedModeCommit := by decide
      exact ⟨hcommit, fun path content hlink => absurd hlink (hnew path content)⟩

/-! ## An upgrade in three runs -/

def oneFileTree (content : Bytes) : Tree where
  entries := [.blob "f".toList .regular content]
  nodup := List.nodup_singleton _
  noNul := by simp [TreeEntry.path]
  isHash := by simp

private theorem oneFileTree_noLink (content : Bytes) (path : Text) (target : Bytes) :
    .blob path .symlink target ∉ (oneFileTree content).entries := by
  simp [oneFileTree]

def oneFileRepo : Repo :=
  releaseRepo {
    entries := [("binding/cronet_purego.go".toList, .file [1] false),
      ("binding/main.go".toList, .file [2] false), ("f".toList, .file [97] false)]
    nodup := by
      show ["binding/cronet_purego.go".toList, "binding/main.go".toList, "f".toList].Nodup
      decide }

/-- An import that returns, one that is killed when the new tree is in place, and another attempt. -/
def upgradeRuns : List (Run (releaseSite (oneFileTree [97]) (oneFileTree [98]))) :=
  [⟨releaseEnv _ _, "v1.1.0".toList, .finished, releaseEnv_fits _ _, linux_opensFiles⟩,
    ⟨releaseEnv _ _, "v1.2.0".toList, .killed 2, releaseEnv_fits _ _, linux_opensFiles⟩,
    ⟨releaseEnv _ _, "v1.2.0".toList, .finished, releaseEnv_fits _ _, linux_opensFiles⟩]

private theorem oneFileRepo_consistent :
    Consistent (releaseSite (oneFileTree [97]) (oneFileTree [98])) oneFileRepo := by
  refine ⟨List.replicate 40 'a', ⟨oneFileTree [97], pinWorkflow⟩, by decide +kernel, rfl, ?_, ?_⟩
  · have hvendor : verifyVendor linux ⟨[], [], oneFileTree [97], none⟩ oneFileRepo.tree = .ok ⟨⟩ := by
      decide +kernel
    have hlegible : Legible (releaseEnv (oneFileTree [97]) (oneFileTree [98])) oneFileRepo
        ⟨[], [], oneFileTree [97], none⟩ :=
      ⟨by decide, fun path target hlink => absurd hlink (oneFileTree_noLink [97] path target)⟩
    exact sameTree_of_attributed unaryId_injective ⟨_, hvendor⟩
      (hlegible.attributed rfl linux_opensFiles unaryId_injective hvendor fun _ _ _ => rfl)
  · exact ⟨_, "1.24.0".toList, rfl, by decide +kernel, by decide +kernel⟩

def relinkedTree : Tree where
  entries := [.blob "f".toList .regular [102], .blob "g".toList .regular [102],
    .blob "l".toList .symlink [103]]
  nodup := by decide
  noNul := by decide
  isHash := by simp

def linkEnv : Env :=
  releaseEnv linkTree relinkedTree

def linkRepo : Repo :=
  releaseRepo (linkVendor [102])

/-- An import that is killed when the new tree is in place, and a run for the old version. -/
def killedRuns : List (Run (releaseSite linkTree relinkedTree)) :=
  [⟨linkEnv, "v1.1.0".toList, .killed 2, releaseEnv_fits _ _, linux_opensFiles⟩,
    ⟨linkEnv, "v1.0.0".toList, .finished, releaseEnv_fits _ _, linux_opensFiles⟩]

def killedState : Repo :=
  (⟨linkEnv, "v1.1.0".toList, .killed 2, releaseEnv_fits _ _, linux_opensFiles⟩ :
    Run (releaseSite linkTree relinkedTree)).after linkRepo

private theorem linkRepo_attributed : Attributed linkTree linkRepo.tree := by
  refine ⟨?_, ?_⟩
  · intro path mode content he
    simp only [linkTree, List.mem_cons, TreeEntry.blob.injEq, List.not_mem_nil, or_false] at he
    obtain ⟨rfl, rfl, -⟩ | ⟨rfl, rfl, -⟩ | ⟨rfl, rfl, -⟩ := he
    · exact ⟨.file [102] false, by decide, rfl⟩
    · exact ⟨.file [102] false, by decide, rfl⟩
    · exact ⟨.symlink [102], by decide, rfl⟩
  · intro path content he
    simp only [linkTree, List.mem_cons, TreeEntry.blob.injEq, List.not_mem_nil, or_false,
      reduceCtorEq, false_and, and_false, false_or] at he
    obtain ⟨rfl, -, rfl⟩ := he
    decide

private theorem linkRepo_consistent : Consistent (releaseSite linkTree relinkedTree) linkRepo := by
  refine ⟨List.replicate 40 'a', ⟨linkTree, pinWorkflow⟩, by decide +kernel, rfl, ?_, ?_⟩
  · have hvendor : verifyVendor linux (linkCheckout [] none) linkRepo.tree = .ok ⟨⟩ := by
      decide +kernel
    exact sameTree_of_attributed unaryId_injective ⟨_, hvendor⟩ linkRepo_attributed
  · exact ⟨_, "1.24.0".toList, rfl, by decide +kernel, by decide +kernel⟩

end SingBoxPython.Sync
