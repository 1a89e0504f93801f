import SingBoxPython.Sync.Gitignore
import SingBoxPython.Sync.History

/-!
# Committing an import

The synchronization workflow commits with `git add --all` what `sync_command` has left, and the
release is built from a checkout of that commit.
-/

namespace SingBoxPython.Sync
open Framework

/-! ## The commit -/

/-- The rules in force in a directory below the project root: those of the root file, and those of the
files of the vendored tree.  Git does not follow a link there. -/
def rulesInForce (root : Bytes) (vendor : Vendor) : List Text → List Rule
  | [] => parseRules root
  | name :: directory =>
      if name = "singbox-go".toList then
        match vendor.lookup (Text.join ['/'] (directory ++ [".gitignore".toList])) with
        | some (.file content _) => parseRules content
        | _ => []
      else []

def ignored (root : Bytes) (vendor : Vendor) (path : Text) : Bool :=
  ignoredPath (rulesInForce root vendor) ("singbox-go".toList :: path.splitOn '/')

/-- `git add --all -- singbox-go`: of the working tree, the tracked paths as they are now and the
others that are not ignored. -/
def gitAddAll (root : Bytes) (tracked work : Vendor) : Vendor where
  entries := work.entries.filter fun e => tracked.paths.contains e.1 || !ignored root work e.1
  nodup := work.nodup.sublist (List.filter_sublist.map _)

/-- A checkout of the commit that is made after an import.  Before it everything was committed. -/
def committed (root : Bytes) (before after : Repo) : Repo where
  vendor := some (gitAddAll root before.tree after.tree)
  files := after.files

def verifyPinned (env : Env) (tag : Text) (checkout : Checkout) (repo : Repo) :
    Except Failure Unit :=
  currentTag env repo >>= fun current =>
    if tag = current then
      currentCommit env repo >>= fun commit =>
        raiseIf (checkout.commit ≠ commit)
          (.syncError ("Upstream tag ".toList ++ tag ++ " resolved to ".toList ++
            checkout.commit ++ ", not pinned commit ".toList ++ commit))
    else pure ⟨⟩

def verifyCommand (env : Env) (tag : Text) (repo : Repo) : Except Failure Unit :=
  env.upstream tag >>= fun checkout =>
  verifyPinned env tag checkout repo >>= fun _ =>
  verifyVendor env.machine checkout repo.tree >>= fun _ =>
  verifyGoVersion env checkout repo

def Imports (env : Env) (tag : Text) (before after : Repo) : Prop :=
  ∃ current s, initialChecks env tag before = .ok (some current) ∧
    syncRun env tag before = (.ok ⟨⟩, s) ∧ s.repo = after

def CommitsVerified (env : Env) (tag : Text) (root : Bytes) (before : Repo) : Prop :=
  ∀ after, Imports env tag before after →
    (committed root before after).tree = after.tree ∧
      verifyCommand env tag (committed root before after) = .ok ⟨⟩

/-! ## What the import has left -/

section Import

variable {site : Site} {env : Env} {tag : Text} {root : Bytes} {before after : Repo}

private theorem imports_of_returned {current : Current}
    (hchecks : initialChecks env tag before = .ok (some current))
    (hreturned : (syncRun env tag before).1 = .ok ⟨⟩) :
    Imports env tag before (syncRun env tag before).2.repo :=
  ⟨current, (syncRun env tag before).2, hchecks, Prod.ext hreturned rfl, rfl⟩

private theorem Imports.installed (h : Imports env tag before after) :
    ∃ target staged version, env.upstream tag = .ok target ∧
      parseVersion env.py tag = .ok version ∧ Installed env tag target staged after := by
  obtain ⟨current, s, hchecks, hrun, rfl⟩ := h
  obtain ⟨_, _, version, _, _, hversion, _, _⟩ := initialChecks_eq_ok hchecks
  rcases syncRun_returns hrun with ⟨hnone, -⟩ | ⟨_, target, staged, _, hupstream, _, hinstalled⟩
  · rw [hchecks] at hnone
    cases hnone
  · exact ⟨target, staged, version, hupstream, hversion, hinstalled⟩

theorem Installed.currentTag {target : Checkout} {staged : Vendor} {version : List Nat}
    (h : Installed env tag target staged after) (hversion : parseVersion env.py tag = .ok version) :
    currentTag env after = .ok tag := by
  have hspace := isSpace_of_parseVersion hversion
  have hreturn : '\r' ∉ tag := fun hmem => absurd (hspace _ hmem) (by decide)
  have hread : after.text .version = some tag := by
    rw [Repo.text, h.version]
    exact strippedText_line hreturn (fun c hc => hspace c (List.mem_of_mem_head? hc))
      (fun c hc => hspace c (List.mem_of_getLast? hc))
  rw [Sync.currentTag, readProjectFile_eq_ok_iff.2 hread]
  show (parseVersion env.py tag >>= fun _ => pure tag) = _
  rw [hversion]
  rfl

theorem Installed.currentCommit {target : Checkout} {staged : Vendor}
    (h : Installed env tag target staged after) (hcommit : IsCommit target.commit) :
    currentCommit env after = .ok target.commit := by
  rw [Sync.currentCommit, readProjectFile_eq_ok_iff.2 (h.pinned hcommit.isHash)]
  refine raiseIf_bind_eq_ok_iff.2 ⟨?_, rfl⟩
  rw [not_or, not_not, hcommit.2]
  exact ⟨hcommit.1, by decide⟩

/-- The state that an import leaves passes `verify`. -/
private theorem Fits.verifyCommand_imported (hfits : Fits site env)
    (h : Imports env tag before after) : verifyCommand env tag after = .ok ⟨⟩ := by
  obtain ⟨target, staged, version, hupstream, hversion, hinstalled⟩ := h.installed
  have hcommit := site.isCommit _ _ (hfits.addressed _ _ hupstream)
  have hpinned : verifyPinned env tag target after = .ok ⟨⟩ := by
    rw [verifyPinned, hinstalled.currentTag hversion]
    show (if tag = tag then _ else _) = _
    rw [if_pos rfl, hinstalled.currentCommit hcommit]
    show raiseIf _ _ = _
    rw [raiseIf, if_neg (not_not.2 rfl)]
    rfl
  rw [verifyCommand, hupstream]
  show (verifyPinned env tag target after >>= fun _ => _) = _
  rw [hpinned]
  show (verifyVendor env.machine target after.tree >>= fun _ => _) = _
  rw [hinstalled.verified]
  exact hinstalled.goVerified

private theorem gitAddAll_eq_iff {tracked work : Vendor} :
    gitAddAll root tracked work = work ↔
      ∀ path ∈ work.paths, path ∈ tracked.paths ∨ ignored root work path = false := by
  have hpaths : work.paths = work.entries.map Prod.fst := rfl
  rw [gitAddAll, Vendor.mk.injEq, List.filter_eq_self, hpaths, List.forall_mem_map]
  simp only [Bool.or_eq_true, List.contains_iff_mem, Bool.not_eq_true']

/-- What is committed is what was verified exactly when every path of the import was tracked before or
is not ignored. -/
theorem commitsVerified_iff (hfits : Fits site env) :
    CommitsVerified env tag root before ↔
      ∀ after, Imports env tag before after → ∀ path ∈ after.tree.paths,
        path ∈ before.tree.paths ∨ ignored root after.tree path = false := by
  have htree : ∀ after, (committed root before after).tree = gitAddAll root before.tree after.tree :=
    fun _ => rfl
  constructor
  · intro h after himports
    have hsame := (h after himports).1
    rw [htree] at hsame
    exact gitAddAll_eq_iff.1 hsame
  · intro h after himports
    have hsame := gitAddAll_eq_iff.2 (h after himports)
    refine ⟨hsame, ?_⟩
    obtain ⟨target, staged, version, -, -, hinstalled⟩ := himports.installed
    have hrepo : committed root before after = after := by
      have hvendor : some after.tree = after.vendor := by
        rw [Repo.tree, hinstalled.vendor, Option.getD_some]
      rw [committed, hsame, hvendor]
    rw [hrepo]
    exact hfits.verifyCommand_imported himports

end Import

/-! ## The ignore file of the project -/

/-- The lines of the root `.gitignore` that are neither comments nor empty. -/
def rootPatterns : List String :=
  [".idea/", "cmake-build-*/", "build/", "*.lib", "*.a", "*.pyd", "*.so", "*.dylib",
    "__pycache__/", "*.py[cod]", "*$py.class", "*.so", ".Python", "build/", "develop-eggs/",
    "dist/", "downloads/", "eggs/", ".eggs/", "lib/", "lib64/", "parts/", "sdist/", "var/",
    "wheels/", "share/python-wheels/", "*.egg-info/", ".installed.cfg", "*.egg", "MANIFEST",
    "*.manifest", "*.spec", "pip-log.txt", "pip-delete-this-directory.txt", "htmlcov/", ".tox/",
    ".nox/", ".coverage", ".coverage.*", ".cache", "nosetests.xml", "coverage.xml", "*.cover",
    "*.py,cover", ".hypothesis/", ".pytest_cache/", "cover/", "*.mo", "*.pot", "*.log",
    "local_settings.py", "db.sqlite3", "db.sqlite3-journal", "instance/", ".webassets-cache",
    ".scrapy", "docs/_build/", ".pybuilder/", "target/", ".ipynb_checkpoints", "profile_default/",
    "ipython_config.py", ".pdm.toml", "__pypackages__/", "celerybeat-schedule", "celerybeat.pid",
    "*.sage.py", ".env", ".venv", "env/", "venv/", "ENV/", "env.bak/", "venv.bak/",
    ".spyderproject", ".spyproject", ".ropeproject", "/site", ".mypy_cache/", ".dmypy.json",
    "dmypy.json", ".pyre/", ".pytype/", "cython_debug/", "CMakeBuildCache", "gobuild/*.h",
    ".codegraph/", "wheelhouse/", "gobuild/"]

def rootGitignore : Bytes :=
  asciiBytes (Text.unlines (rootPatterns.map String.toList))

/-- Directories that it ignores by their names, and that are not special to Python or Go. -/
def genericDirectories : List Text :=
  ["build".toList, "dist".toList, "downloads".toList, "eggs".toList, "lib".toList, "lib64".toList,
    "parts".toList, "var".toList, "wheels".toList, "cover".toList, "instance".toList,
    "target".toList, "env".toList]

private theorem rootPatterns_plain : ∀ line ∈ rootPatterns.map String.toList,
    (∀ c ∈ line, c.toNat < 128 ∧ c ≠ '\n' ∧ c ≠ '\r') ∧ line ≠ [] ∧ line.head? ≠ some '#' ∧
      line.head? ≠ some '!' := by
  have hall : ((rootPatterns.map String.toList).all fun line =>
      (line.all fun c => decide (c.toNat < 128 ∧ c ≠ '\n' ∧ c ≠ '\r')) &&
        decide (line ≠ [] ∧ line.head? ≠ some '#' ∧ line.head? ≠ some '!')) = true := by
    decide +kernel
  intro line hline
  have h := List.all_eq_true.1 hall line hline
  rw [Bool.and_eq_true, List.all_eq_true, decide_eq_true_eq] at h
  exact ⟨fun c hc => of_decide_eq_true (h.1 c hc), h.2⟩

private theorem parseRules_rootGitignore :
    parseRules rootGitignore =
      (rootPatterns.map String.toList).map fun line => parseRule (trimSpaces line) :=
  parseRules_unlines (fun line hline => (rootPatterns_plain line hline).1)
    fun line hline => ⟨(rootPatterns_plain line hline).2.1, (rootPatterns_plain line hline).2.2.1⟩

private theorem rootGitignore_not_negated :
    ∀ rule ∈ parseRules rootGitignore, rule.negated = false := by
  intro rule hrule
  rw [parseRules_rootGitignore] at hrule
  obtain ⟨line, hline, rfl⟩ := List.mem_map.1 hrule
  show ((trimSpaces line).head? == some '!') = false
  rw [beq_eq_false_iff_ne]
  exact fun h => (rootPatterns_plain line hline).2.2.2 (head?_trimSpaces h)

private theorem mem_rootGitignore {name : Text} (h : name ∈ genericDirectories) :
    ⟨false, true, true, name.map .char⟩ ∈ parseRules rootGitignore ∧
      globMatch (name.map .char) (octets (utf8 name)) = true := by
  have hall : (genericDirectories.all fun name =>
      (rootPatterns.map String.toList).contains (name ++ ['/']) &&
        decide (parseRule (trimSpaces (name ++ ['/'])) = ⟨false, true, true, name.map .char⟩ ∧
          globMatch (name.map .char) (octets (utf8 name)) = true)) = true := by decide +kernel
  have hname := List.all_eq_true.1 hall name h
  rw [Bool.and_eq_true, List.contains_iff_mem, decide_eq_true_eq] at hname
  refine ⟨?_, hname.2.2⟩
  rw [parseRules_rootGitignore, ← hname.2.1]
  exact List.mem_map_of_mem hname.1

def NoNegatedRules (vendor : Vendor) : Prop :=
  ∀ directory content executable,
    vendor.lookup (Text.join ['/'] (directory ++ [".gitignore".toList])) =
      some (.file content executable) →
    ∀ rule ∈ parseRules content, rule.negated = false

private theorem NoNegatedRules.rulesInForce {vendor : Vendor} (h : NoNegatedRules vendor) :
    ∀ directory, ∀ rule ∈ rulesInForce rootGitignore vendor directory, rule.negated = false := by
  intro directory rule hrule
  cases directory with
  | nil => exact rootGitignore_not_negated rule hrule
  | cons name directory =>
      rw [Sync.rulesInForce] at hrule
      split at hrule
      · split at hrule
        · rename_i content executable hlookup
          exact h directory content executable hlookup rule hrule
        · cases hrule
      · cases hrule

private theorem ignored_of_genericDirectory {vendor : Vendor} (hplain : NoNegatedRules vendor)
    {path : Text} {above below : List Text} {name : Text} (hname : name ∈ genericDirectories)
    (hbelow : below ≠ []) (hpath : path.splitOn '/' = above ++ name :: below) :
    ignored rootGitignore vendor path = true := by
  obtain ⟨hrule, hmatch⟩ := mem_rootGitignore hname
  rw [ignored, hpath, ← List.cons_append]
  refine ignoredPath_of_rootRule hplain.rulesInForce hbelow hrule ?_
  have hlast : (("singbox-go".toList :: above) ++ [name]).getLastD [] = name := List.getLastD_concat
  rw [Rule.matches, if_pos rfl, hlast]
  exact hmatch

private theorem noNegatedRules_of_paths {vendor : Vendor}
    (h : ∀ path ∈ vendor.paths, ¬ ".gitignore".toList <:+ path) : NoNegatedRules vendor := by
  intro directory content executable hlookup
  have hmem : Text.join ['/'] (directory ++ [".gitignore".toList]) ∈ vendor.paths :=
    List.mem_map_of_mem (f := Prod.fst) ((lookup_eq_some_iff vendor.nodup).1 hlookup)
  exact absurd (Text.suffix_join _ _ _) (h _ hmem)

/-! ## An import with a generic directory -/

def plainTree : Tree where
  entries := [.blob "f".toList .regular [102]]
  nodup := by decide
  noNul := by decide
  isHash := by simp

def libTree : Tree where
  entries := [.blob "f".toList .regular [102], .blob "lib/x.go".toList .regular []]
  nodup := by decide
  noNul := by decide
  isHash := by simp

def plainRepo : Repo :=
  releaseRepo
    { entries := [("binding/cronet_purego.go".toList, .file [] false),
        ("binding/main.go".toList, .file [] false), ("f".toList, .file [102] false)]
      nodup := by
        show ["binding/cronet_purego.go".toList, "binding/main.go".toList, "f".toList].Nodup
        decide }

def libRun : Except Failure Unit × Workspace :=
  syncRun (releaseEnv plainTree libTree) "v1.1.0".toList plainRepo

theorem commitsVerified_iff_at_libTree :
    CommitsVerified (releaseEnv plainTree libTree) "v1.1.0".toList rootGitignore plainRepo ↔
      ∀ after, Imports (releaseEnv plainTree libTree) "v1.1.0".toList plainRepo after →
        ∀ path ∈ after.tree.paths,
          path ∈ plainRepo.tree.paths ∨ ignored rootGitignore after.tree path = false :=
  commitsVerified_iff (releaseEnv_fits plainTree libTree)

theorem libRun_imports :
    Imports (releaseEnv plainTree libTree) "v1.1.0".toList plainRepo libRun.2.repo := by
  have hchecks : ((initialChecks (releaseEnv plainTree libTree) "v1.1.0".toList
      plainRepo).toOption.bind id).isSome = true := by decide +kernel
  have hrun : libRun.1 = .ok ⟨⟩ := by decide +kernel
  rcases hinit : initialChecks (releaseEnv plainTree libTree) "v1.1.0".toList plainRepo with
    e | _ | current
  · rw [hinit] at hchecks
    cases hchecks
  · rw [hinit] at hchecks
    cases hchecks
  · rw [libRun] at hrun ⊢
    exact imports_of_returned hinit hrun

/-- The new file is imported and verified, and left out of the commit. -/
theorem lib_not_committed :
    ¬ CommitsVerified (releaseEnv plainTree libTree) "v1.1.0".toList rootGitignore plainRepo := by
  have hpaths : "lib/x.go".toList ∈ libRun.2.repo.tree.paths ∧
      "lib/x.go".toList ∉ plainRepo.tree.paths ∧
      ∀ path ∈ libRun.2.repo.tree.paths, ¬ ".gitignore".toList <:+ path := by decide +kernel
  intro h
  have hsame : gitAddAll rootGitignore plainRepo.tree libRun.2.repo.tree = libRun.2.repo.tree :=
    (h _ libRun_imports).1
  have hsplit : "lib/x.go".toList.splitOn '/' = [] ++ "lib".toList :: ["x.go".toList] := by decide
  have hignored : ignored rootGitignore libRun.2.repo.tree "lib/x.go".toList = true :=
    ignored_of_genericDirectory (noNegatedRules_of_paths hpaths.2.2) (by decide)
      (List.cons_ne_nil _ _) hsplit
  rcases gitAddAll_eq_iff.1 hsame _ hpaths.1 with htracked | hkept
  · exact hpaths.2.1 htracked
  · rw [hignored] at hkept
    cases hkept

end SingBoxPython.Sync
