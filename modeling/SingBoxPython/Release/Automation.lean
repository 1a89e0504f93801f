import SingBoxPython.Release.Provenance
import SingBoxPython.Release.Synchronization

/-!
# What the automation guarantees

Synchronization runs, publishing runs and people act on the project in any order, and runs may end
at any time.  What is published keeps its provenance, `main` only goes forward, nothing is added to
a version of which something exists, and a version of which nothing exists can be published.
-/

namespace SingBoxPython.Release
open Framework

section Automation

variable {Commit : Type} {py : Sync.Python} {isZero : Text → Bool} {commits : Commits Commit}

/-! ## Histories of commits -/

namespace Commits

private theorem contains_self (c : Commit) : commits.contains c c = true :=
  (commits.contains_iff c c).2 (.inl rfl)

private theorem contains_parent {c p : Commit}
    (h : p ∈ commits.parents c) : commits.contains c p = true :=
  (commits.contains_iff c p).2 (.inr ⟨p, h, contains_self p⟩)

private theorem eq_or_generation_lt {c d : Commit} (h : commits.contains c d = true) :
    c = d ∨ commits.generation d < commits.generation c := by
  induction hn : commits.generation c using Nat.strong_induction_on generalizing c with
  | _ n ih =>
      subst hn
      rcases (commits.contains_iff c d).1 h with heq | ⟨p, hp, hcontains⟩
      · exact .inl heq
      · have hlt := commits.generation_lt c p hp
        rcases ih _ hlt hcontains rfl with rfl | hlater
        · exact .inr hlt
        · exact .inr (hlater.trans hlt)

private theorem contains_trans {a b c : Commit} (hab : commits.contains a b = true)
    (hbc : commits.contains b c = true) : commits.contains a c = true := by
  induction hn : commits.generation a using Nat.strong_induction_on generalizing a with
  | _ n ih =>
      subst hn
      rcases (commits.contains_iff a b).1 hab with rfl | ⟨p, hp, hcontains⟩
      · exact hbc
      · have hrest := ih _ (commits.generation_lt a p hp) hcontains rfl
        exact (commits.contains_iff a c).2 (.inr ⟨p, hp, hrest⟩)

private theorem contains_antisymm {a b : Commit} (hab : commits.contains a b = true)
    (hba : commits.contains b a = true) : a = b := by
  rcases eq_or_generation_lt hab with heq | hlt
  · exact heq
  · rcases eq_or_generation_lt hba with heq | hlt'
    · exact heq.symm
    · exact absurd (hlt.trans hlt') (lt_irrefl _)

end Commits

/-! ## Newer versions -/

def Newer (py : Sync.Python) (current tag : Text) : Prop :=
  ∃ v w, Sync.parseVersion py current = .ok v ∧ Sync.parseVersion py tag = .ok w ∧
    Sync.versionLt v w = true

private theorem versionLt_irrefl (v : List Nat) : Sync.versionLt v v = false := by
  rw [Bool.eq_false_iff, ne_eq, Sync.versionLt_iff]
  exact List.lt_irrefl v

private theorem versionLt_asymm {v w : List Nat} (h : Sync.versionLt v w = true) :
    Sync.versionLt w v = false := by
  rw [Sync.versionLt_iff] at h
  rw [Bool.eq_false_iff, ne_eq, Sync.versionLt_iff]
  exact fun hgt => List.lt_irrefl v (List.lt_trans h hgt)

theorem Newer.trans {a b c : Text} (hab : Newer py a b) (hbc : Newer py b c) : Newer py a c := by
  obtain ⟨u, v, hu, hv, huv⟩ := hab
  obtain ⟨v', w, hv', hw, hvw⟩ := hbc
  rw [hv] at hv'
  cases hv'
  refine ⟨u, w, hu, hw, ?_⟩
  rw [Sync.versionLt_iff] at huv hvw ⊢
  exact List.lt_trans huv hvw

private theorem of_checkRelease {current tag : Text} {state : Published} {outputs : Outputs}
    (h : checkRelease py current tag state = .ok outputs) :
    outputs.tag = tag ∧ (outputs.updateRequired = true → Newer py current tag) := by
  obtain ⟨decided, hdecided, h⟩ := bind_eq_ok_iff.1 h
  obtain ⟨_, -, h⟩ := bind_eq_ok_iff.1 h
  cases h
  obtain ⟨v, hv, h⟩ := bind_eq_ok_iff.1 hdecided
  obtain ⟨w, hw, h⟩ := bind_eq_ok_iff.1 h
  obtain ⟨-, h⟩ := raiseIf_bind_eq_ok_iff.1 h
  obtain ⟨-, h⟩ := raiseIf_bind_eq_ok_iff.1 h
  obtain ⟨-, h⟩ := raiseIf_bind_eq_ok_iff.1 h
  obtain ⟨_, -, h⟩ := bind_eq_ok_iff.1 h
  cases h
  exact ⟨rfl, fun hlt => ⟨v, w, hv, hw, hlt⟩⟩

private theorem text_of_currentTag {env : Sync.Env} {repo : Sync.Repo} {tag : Text}
    (h : Sync.currentTag env repo = .ok tag) : repo.text .version = some tag := by
  obtain ⟨t, hread, h⟩ := bind_eq_ok_iff.1 h
  obtain ⟨-, -, h⟩ := bind_eq_ok_iff.1 h
  cases h
  exact Sync.readProjectFile_eq_ok_iff.1 hread

private theorem version_of_text {c : Commit} {t : Text}
    (h : (commits.repo c).text .version = some t) : commits.project.version c = t := by
  show ((commits.repo c).text .version).getD [] = t
  rw [h, Option.getD_some]

private theorem version_of_imported {env : Sync.Env} {current tag : Text} {c new : Commit}
    (hcurrent : (commits.repo c).text .version = some current) (hnewer : Newer py current tag)
    (h : importedRepo py commits env tag c = some (commits.repo new)) :
    commits.project.version new = tag := by
  obtain ⟨v, w, hv, hw, hlt⟩ := hnewer
  rw [importedRepo] at h
  split at h
  · rename_i workspace hrun
    apply version_of_text
    rw [← Option.some.inj h]
    rcases Sync.syncRun_returns hrun with ⟨hnone, -⟩ | ⟨_, target, staged, -, -, -, hinstalled⟩
    · -- Nothing to do would mean that the version is current already.
      obtain ⟨accepted, v', w', haccepted, hv', hw', -, hsame⟩ := Sync.initialChecks_eq_ok hnone
      have hread := text_of_currentTag haccepted.tag
      rw [hcurrent] at hread
      cases hread
      rw [hv] at hv'
      rw [hw] at hw'
      cases hv'
      cases hw'
      split at hsame
      · rename_i heq
        rw [heq, versionLt_irrefl] at hlt
        cases hlt
      · cases hsame
    · exact text_of_currentTag (hinstalled.currentTag hw)
  · cases h

private theorem importedRepo_of_imports {env : Sync.Env} {tag : Text} {c : Commit}
    {after : Sync.Repo} (h : Sync.Imports { env with py := py } tag (commits.repo c) after) :
    importedRepo py commits env tag c =
      some (Sync.committed (commits.gitignore c) (commits.repo c) after) := by
  obtain ⟨current, s, -, hrun, rfl⟩ := h
  rw [importedRepo, hrun]

/-! ## What a synchronization step does -/

variable (py isZero commits) in
inductive SyncStep (s : Pipeline Commit) : SyncAction Commit → Pipeline Commit → Prop
  | checkout {c : Commit} (hidle : s.sync = none)
      (hmain : s.state.remote.branches mainBranch = some c) :
      SyncStep s .checkout ⟨s.state, some (.checkedOut c)⟩
  | stableRelease {requested : Option Text} {response : Json} {c : Commit} {tag : Text}
      (hsync : s.sync = some (.checkedOut c))
      (htag : stableRelease py isZero requested response = .ok tag) :
      SyncStep s (.stableRelease requested response) ⟨s.state, some (.targeted c tag)⟩
  | readTag {c : Commit} {tag : Text} (hsync : s.sync = some (.targeted c tag)) :
      SyncStep s .readTag ⟨s.state, some (.tagRead c tag (s.state.remote.tags tag).isSome)⟩
  | readRelease {c : Commit} {tag : Text} {tagExists : Bool}
      (hsync : s.sync = some (.tagRead c tag tagExists)) :
      SyncStep s .readRelease
        ⟨s.state, some (.releaseRead c tag tagExists (s.state.remote.releases tag).isSome)⟩
  | readPypi {c : Commit} {tag current : Text} {tagExists releaseExists : Bool}
      {state : Published} {outputs : Outputs}
      (hsync : s.sync = some (.releaseRead c tag tagExists releaseExists))
      (hcurrent : (commits.repo c).text .version = some current)
      (hcheck : checkRelease py current tag state = .ok outputs) :
      SyncStep s .readPypi ⟨s.state, some (.checked c outputs)⟩
  | verify {env : Sync.Env} {c : Commit} {outputs : Outputs}
      (hsync : s.sync = some (.checked c outputs)) :
      SyncStep s (.verify env) ⟨s.state, some (.ready c outputs)⟩
  | importRelease {env : Sync.Env} {c new : Commit} {outputs : Outputs}
      (hsync : s.sync = some (.checked c outputs)) (hupdate : outputs.updateRequired = true)
      (hparents : commits.parents new = [c])
      (hrepo : importedRepo py commits env outputs.tag c = some (commits.repo new)) :
      SyncStep s (.importRelease env new) ⟨s.state, some (.committed c new outputs)⟩
  | push {c new head : Commit} {outputs : Outputs}
      (hsync : s.sync = some (.committed c new outputs))
      (hmain : s.state.remote.branches mainBranch = some head)
      (hforward : commits.contains new head = true) :
      SyncStep s .push ⟨s.state.move mainBranch new, some (.ready new outputs)⟩
  | dispatch {run : Nat} {head : Commit} {outputs : Outputs}
      (hsync : s.sync = some (.ready head outputs)) :
      SyncStep s (.dispatch run)
        ⟨s.state.setRun run { trigger := .dispatch outputs.tag (.commit head) }, none⟩

theorem syncStep_spec [DecidableEq Commit] {s t : Pipeline Commit} {a : SyncAction Commit}
    (h : syncStep py isZero commits s a = some t) : SyncStep py isZero commits s a t := by
  cases a with
  | checkout =>
      simp only [syncStep] at h
      split at h
      · rename_i c hidle hmain
        cases h
        exact .checkout hidle hmain
      · cases h
  | stableRelease requested response =>
      simp only [syncStep] at h
      split at h
      · rename_i c tag hsync htag
        cases h
        exact .stableRelease hsync htag
      · cases h
  | readTag =>
      simp only [syncStep] at h
      split at h
      · rename_i c tag hsync
        cases h
        exact .readTag hsync
      · cases h
  | readRelease =>
      simp only [syncStep] at h
      split at h
      · rename_i c tag tagExists hsync
        cases h
        exact .readRelease hsync
      · cases h
  | readPypi =>
      simp only [syncStep] at h
      split at h
      · rename_i c tag tagExists releaseExists hsync
        split at h
        · rename_i current hcurrent
          split at h
          · rename_i outputs hcheck
            cases h
            exact .readPypi hsync hcurrent hcheck
          · cases h
        · cases h
      · cases h
  | verify env =>
      simp only [syncStep] at h
      split at h
      · rename_i c outputs hsync
        split at h
        · cases h
          exact .verify hsync
        · cases h
      · cases h
  | importRelease env new =>
      simp only [syncStep] at h
      split at h
      · rename_i c outputs hsync
        split at h
        · rename_i hguard
          cases h
          exact .importRelease hsync hguard.1 hguard.2.1 hguard.2.2
        · cases h
      · cases h
  | push =>
      simp only [syncStep] at h
      split at h
      · rename_i c new outputs head hsync hmain
        split at h
        · rename_i hforward
          cases h
          exact .push hsync hmain hforward
        · cases h
      · cases h
  | dispatch run =>
      simp only [syncStep] at h
      split at h
      · rename_i head outputs hsync
        split at h
        · cases h
          exact .dispatch hsync
        · cases h
      · cases h

/-- On the project, a synchronization does what a person could do, or nothing. -/
theorem SyncStep.state_cases {s t : Pipeline Commit} {a : SyncAction Commit}
    (h : SyncStep py isZero commits s a t) :
    t.state = s.state ∨ (∃ new, t.state = s.state.move mainBranch new) ∨
      ∃ run head outputs, s.sync = some (.ready head outputs) ∧
        t.state = s.state.setRun run { trigger := .dispatch outputs.tag (.commit head) } := by
  cases h with
  | push => exact .inr (.inl ⟨_, rfl⟩)
  | dispatch hsync => exact .inr (.inr ⟨_, _, _, hsync, rfl⟩)
  | _ => exact .inl rfl

/-! ## A synchronization that nothing stops -/

private theorem branches_move (s : State Commit) (branch : Text) (c : Commit) :
    (s.move branch c).remote.branches branch = some c :=
  if_pos rfl

private theorem move_self {s : State Commit} {branch : Text} {c : Commit}
    (h : s.remote.branches branch = some c) : s.move branch c = s := by
  have hbranches : (s.move branch c).remote.branches = s.remote.branches := by
    funext b
    by_cases hb : b = branch <;> simp [State.move, hb, h]
  exact congrArg (fun f => { s with remote := { s.remote with branches := f } }) hbranches

variable (py) in
private theorem returns_writeGithubOutput {values : List (Text × Text)}
    (h : ∀ e ∈ values, ∀ c ∈ e.2, Text.isSpace c = false) : Returns (writeGithubOutput py values) := by
  induction values with
  | nil => exact returns_pure _
  | cons e values ih =>
      rw [List.forall_mem_cons] at h
      have hnewline : ¬ ('\n' ∈ e.2 ∨ '\r' ∈ e.2) := by
        rintro (hmem | hmem)
        · exact absurd (h.1 _ hmem) (by decide)
        · exact absurd (h.1 _ hmem) (by decide)
      rw [writeGithubOutput, returns_raiseIf, returns_bind]
      obtain ⟨rest, hrest⟩ := ih h.2
      exact ⟨hnewline, rest, hrest, returns_pure _⟩

private theorem checkRelease_free {current tag : Text} {v w : List Nat}
    (hcurrent : Sync.parseVersion py current = .ok v) (htag : Sync.parseVersion py tag = .ok w)
    (hold : Sync.versionLt w v = false) :
    checkRelease py current tag ⟨false, false, false⟩ =
      .ok ⟨current, tag, tag.drop 1, true, Sync.versionLt v w⟩ := by
  have hlower : ∀ b, ∀ c ∈ lowerText b, Text.isSpace c = false := by
    intro b c hc
    have hall : ((lowerText b).all fun d => !Text.isSpace d) = true := by cases b <;> rfl
    simpa using List.all_eq_true.1 hall c hc
  have hspace := Sync.isSpace_of_parseVersion htag
  have hvalues : ∀ e ∈ (Outputs.mk current tag (tag.drop 1) true (Sync.versionLt v w)).values,
      ∀ c ∈ e.2, Text.isSpace c = false := by
    simp only [Outputs.values, List.forall_mem_cons, List.not_mem_nil, false_implies, implies_true,
      and_true]
    exact ⟨Sync.isSpace_of_parseVersion hcurrent, hspace,
      fun c hc => hspace c (List.mem_of_mem_drop hc), hlower true, hlower _⟩
  obtain ⟨text, hwritten⟩ := returns_writeGithubOutput py hvalues
  have hdecided : decideRelease py current tag ⟨false, false, false⟩ =
      .ok ⟨current, tag, tag.drop 1, true, Sync.versionLt v w⟩ := by
    refine bind_eq_ok_iff.2 ⟨v, hcurrent, bind_eq_ok_iff.2 ⟨w, htag, ?_⟩⟩
    refine raiseIf_bind_eq_ok_iff.2 ⟨by rw [hold]; decide, ?_⟩
    refine raiseIf_bind_eq_ok_iff.2 ⟨fun hoccupied => hoccupied.2 rfl, ?_⟩
    refine raiseIf_bind_eq_ok_iff.2 ⟨fun hpartial => hpartial.2.1 rfl, ?_⟩
    refine bind_eq_ok_iff.2 ⟨tag.drop 1, by rw [Sync.packageVersion, htag]; rfl, ?_⟩
    show Except.ok (Outputs.mk _ _ _ (_ || true) _) = _
    rw [Bool.or_true]
  rw [checkRelease, hdecided]
  show (writeGithubOutput py _ >>= fun _ => _) = _
  rw [hwritten]
  rfl

variable (py commits) in
/-- The commit of which a synchronization on top of `c` may build the release: `c` itself, verified, or
the commit of an import. -/
inductive Releasable (c : Commit) (tag : Text) : Commit → Prop
  | current (env : Sync.Env) {version : List Nat}
      (htag : (commits.repo c).text .version = some tag)
      (hversion : Sync.parseVersion py tag = .ok version)
      (hverify : Sync.verifyCommand { env with py := py } tag (commits.repo c) = .ok ⟨⟩) :
      Releasable c tag c
  | newer (env : Sync.Env) {current : Text} {new : Commit}
      (hcurrent : (commits.repo c).text .version = some current) (hnewer : Newer py current tag)
      (hparents : commits.parents new = [c])
      (hrepo : importedRepo py commits env tag c = some (commits.repo new)) : Releasable c tag new

theorem Releasable.version {c head : Commit} {tag : Text} (h : Releasable py commits c tag head) :
    commits.project.version head = tag := by
  cases h with
  | current env htag => exact version_of_text htag
  | newer env hcurrent hnewer _ hrepo => exact version_of_imported hcurrent hnewer hrepo

/-- What happens without a person, and without a run that ends early. -/
def Automatic : PipelineAction Commit → Prop
  | .release (.advance _ _) => True
  | .sync _ => True
  | _ => False

/-- A synchronization that finds nothing of the version gets to the commit of the release, and to no
other change than the push of that commit. -/
theorem exec_synchronization [DecidableEq Commit] {s : Pipeline Commit} {c head : Commit} {tag : Text}
    {response : Json} (hidle : s.sync = none)
    (hmain : s.state.remote.branches mainBranch = some c)
    (hresponse : stableRelease py isZero none response = .ok tag)
    (hhead : Releasable py commits c tag head) (hnormal : commits.normalize tag = tag)
    (htags : s.state.remote.tags tag = none) (hreleases : s.state.remote.releases tag = none)
    (hpypi : ∀ d ∈ s.state.remote.pypi, d.version ≠ tag) :
    ∃ actions t outputs, (∀ a ∈ actions, Automatic a) ∧
      exec (pipelineStep py isZero commits) s actions = some t ∧
      t.sync = some (.ready head outputs) ∧ outputs.tag = tag ∧ outputs.releaseRequired = true ∧
      t.state = s.state.move mainBranch head := by
  have hany : (s.state.remote.pypi.any fun d => d.version == tag) = false := by simpa using hpypi
  have hchecked : ∀ {current : Text} {outputs : Outputs},
      (commits.repo c).text .version = some current →
      checkRelease py current tag ⟨false, false, false⟩ = .ok outputs →
      exec (pipelineStep py isZero commits) s [.sync .checkout, .sync (.stableRelease none response),
        .sync .readTag, .sync .readRelease, .sync .readPypi] =
          some ⟨s.state, some (.checked c outputs)⟩ := by
    intro current outputs hcurrent hcheck
    simp [exec, pipelineStep, syncStep, hidle, hmain, hresponse, htags, hreleases, hcurrent, hnormal,
      hany, hcheck]
  cases hhead with
  | current env htag hversion hverify =>
      have hcheck := checkRelease_free hversion hversion (versionLt_irrefl _)
      rw [versionLt_irrefl] at hcheck
      have hverified : ∀ {outputs : Outputs}, outputs.updateRequired = false →
          outputs.currentTag = tag → pipelineStep py isZero commits
            ⟨s.state, some (.checked c outputs)⟩ (.sync (.verify env)) =
              some ⟨s.state, some (.ready c outputs)⟩ := by
        intro outputs hupdate hcurrent
        simp [pipelineStep, syncStep, hupdate, hcurrent, hverify]
      refine ⟨_, _, _, ?_, exec_append.2 ⟨_, hchecked htag hcheck,
        exec_cons.2 ⟨_, hverified rfl rfl, exec_nil _⟩⟩, rfl, rfl, rfl, (move_self hmain).symm⟩
      simp [Automatic]
  | newer env hcurrent hnewer hparents hrepo =>
      obtain ⟨v, w, hv, hw, hlt⟩ := hnewer
      have hcheck := checkRelease_free hv hw (versionLt_asymm hlt)
      rw [hlt] at hcheck
      have himported : ∀ {outputs : Outputs}, outputs.updateRequired = true → outputs.tag = tag →
          pipelineStep py isZero commits ⟨s.state, some (.checked c outputs)⟩
            (.sync (.importRelease env head)) =
              some ⟨s.state, some (.committed c head outputs)⟩ := by
        intro outputs hupdate htag
        simp [pipelineStep, syncStep, hupdate, htag, hparents, hrepo]
      have hcontains : commits.contains head c = true :=
        Commits.contains_parent (by rw [hparents]; exact List.mem_singleton_self c)
      have hpushed : ∀ {outputs : Outputs}, pipelineStep py isZero commits
          ⟨s.state, some (.committed c head outputs)⟩ (.sync .push) =
            some ⟨s.state.move mainBranch head, some (.ready head outputs)⟩ := by
        intro outputs
        simp [pipelineStep, syncStep, hmain, hcontains]
      refine ⟨_, _, _, ?_, exec_append.2 ⟨_, hchecked hcurrent hcheck,
        exec_cons.2 ⟨_, himported rfl rfl, exec_cons.2 ⟨_, hpushed, exec_nil _⟩⟩⟩, rfl, rfl, rfl, rfl⟩
      simp [Automatic]

end Automation

/-! ## An import -/

section Example

def libCommits : Commits Nat where
  parents n := if n = 0 then [] else [n - 1]
  repo n :=
    if n = 0 then Sync.plainRepo
    else Sync.committed Sync.rootGitignore Sync.plainRepo Sync.libRun.2.repo
  gitignore _ := Sync.rootGitignore
  contains c d := decide (d ≤ c)
  generation n := n
  contains_iff c d := by
    cases c <;> simp <;> omega
  generation_lt c p hp := by
    cases c with
    | zero => simp at hp
    | succ c => simp at hp; omega
  normalize tag := tag
  files := twoCommits.files

def importEnv : Sync.Env := Sync.releaseEnv Sync.plainTree Sync.libTree

def libTag : Text := "v1.1.0".toList

def latestRelease : Json := .object [("tag_name".toList, .string libTag)]

def beforeImport : Pipeline Nat := ⟨unpublished, none⟩

theorem stableRelease_latest :
    stableRelease importEnv.py (fun _ => false) none latestRelease = .ok libTag := by
  decide +kernel

theorem releasable_libCommits : Releasable importEnv.py libCommits 0 libTag 1 := by
  have hcurrent : (libCommits.repo 0).text .version = some "v1.0.0".toList := by decide +kernel
  have hnewer : Newer importEnv.py "v1.0.0".toList libTag :=
    ⟨[1, 0, 0], [1, 1, 0], by decide +kernel, by decide +kernel, by decide⟩
  have himports : Sync.Imports { importEnv with py := importEnv.py } libTag (libCommits.repo 0)
      Sync.libRun.2.repo := Sync.libRun_imports
  exact .newer importEnv hcurrent hnewer rfl (importedRepo_of_imports himports)

private theorem exec_importLib : ∃ actions t, (∀ a ∈ actions, Automatic a) ∧
    exec (pipelineStep importEnv.py (fun _ => false) libCommits) beforeImport actions = some t ∧
    t.state = unpublished.move mainBranch 1 := by
  obtain ⟨actions, t, outputs, hautomatic, ht, -, -, -, hstate⟩ :=
    exec_synchronization (s := beforeImport) rfl rfl stableRelease_latest releasable_libCommits rfl rfl
      rfl nofun
  exact ⟨actions, t, hautomatic, ht, hstate⟩

end Example

section Automation

variable {Commit : Type} {py : Sync.Python} {isZero : Text → Bool} {commits : Commits Commit}

/-! ## Provenance -/

def Synchronize.tag? : Synchronize Commit → Option Text
  | .checkedOut _ => none
  | .targeted _ tag => some tag
  | .tagRead _ tag _ => some tag
  | .releaseRead _ tag _ _ => some tag
  | .checked _ outputs => some outputs.tag
  | .committed _ _ outputs => some outputs.tag
  | .ready _ outputs => some outputs.tag

/-- People start runs of exact commits or of tags only, and tags are in normal form. -/
def Regular (py : Sync.Python) (isZero : Text → Bool) (commits : Commits Commit) :
    PipelineAction Commit → Prop
  | .release (.start _ trigger) =>
      trigger.ref.mayMove = false ∧ commits.normalize trigger.releaseTag = trigger.releaseTag
  | .sync (.stableRelease requested response) =>
      ∀ tag, stableRelease py isZero requested response = .ok tag → commits.normalize tag = tag
  | _ => True

theorem Automatic.regular {a : PipelineAction Commit} (h : Automatic a)
    (hnormal : ∀ tag, commits.normalize tag = tag) : Regular py isZero commits a := by
  cases a with
  | release a =>
      cases a with
      | advance run action => trivial
      | _ => exact h.elim
  | sync a =>
      cases a with
      | stableRelease requested response => exact fun tag _ => hnormal tag
      | _ => trivial
  | stop run => trivial
  | stopSync => trivial

variable (commits) in
structure Orderly (s : Pipeline Commit) : Prop where
  inv : Inv commits.project s.state
  pinned : Pinned s.state
  normal : ∀ phase tag, s.sync = some phase → phase.tag? = some tag → commits.normalize tag = tag

theorem Orderly.release [DecidableEq Commit] {s : Pipeline Commit} {a : Action Commit} {state : State Commit}
    (hs : Orderly commits s) (hregular : Regular py isZero commits (.release a))
    (h : step commits.project s.state a = some state) : Orderly commits ⟨state, s.sync⟩ := by
  have hstart : ∀ run trigger, a = .start run trigger → trigger.ref.mayMove = false ∧
      commits.project.normalize trigger.releaseTag = trigger.releaseTag := by
    rintro run trigger rfl
    exact hregular
  have hsteady : Along (Steady commits.project) (step commits.project) s.state [a] := by
    apply hs.pinned.steady
    intro run trigger hmem
    exact hstart run trigger (List.mem_singleton.1 hmem).symm
  exact ⟨hs.inv.step hsteady.1 h, hs.pinned.step (fun run trigger ha => (hstart run trigger ha).1) h,
    hs.normal⟩

theorem Orderly.stop {s : Pipeline Commit} (hs : Orderly commits s) (run : Nat) :
    Orderly commits ⟨s.state.stop run, s.sync⟩ := by
  have hruns : ∀ r state, (s.state.stop run).runs r = some state → s.state.runs r = some state := by
    intro r state hstate
    by_cases hr : r = run
    · exact absurd ((if_pos hr).symm.trans hstate) nofun
    · exact (if_neg hr).symm.trans hstate
  exact ⟨⟨hs.inv.provenance, fun r state h => hs.inv.runs r state (hruns r state h)⟩,
    fun r state h => hs.pinned r state (hruns r state h), hs.normal⟩

theorem SyncStep.normal {s t : Pipeline Commit} {a : SyncAction Commit}
    (h : SyncStep py isZero commits s a t) (hregular : Regular py isZero commits (.sync a))
    (hs : ∀ phase tag, s.sync = some phase → phase.tag? = some tag → commits.normalize tag = tag)
    {phase : Synchronize Commit} {tag : Text} (hphase : t.sync = some phase)
    (htag : phase.tag? = some tag) : commits.normalize tag = tag := by
  cases h with
  | checkout =>
      cases hphase
      cases htag
  | stableRelease _ hfound =>
      cases hphase
      cases htag
      exact hregular tag hfound
  | readPypi hsync _ hcheck =>
      cases hphase
      cases htag
      rw [(of_checkRelease hcheck).1]
      exact hs _ _ hsync rfl
  | readTag hsync | readRelease hsync | verify hsync | importRelease hsync | push hsync =>
      cases hphase
      cases htag
      exact hs _ _ hsync rfl
  | dispatch => cases hphase

theorem Orderly.sync [DecidableEq Commit] {s t : Pipeline Commit} {a : SyncAction Commit} (hs : Orderly commits s)
    (hregular : Regular py isZero commits (.sync a)) (h : SyncStep py isZero commits s a t) :
    Orderly commits t := by
  have hnormal : ∀ phase tag, t.sync = some phase → phase.tag? = some tag →
      commits.normalize tag = tag := fun _ _ => h.normal hregular hs.normal
  rcases h.state_cases with heq | ⟨new, heq⟩ | ⟨run, head, outputs, hsync, heq⟩
  · exact ⟨heq ▸ hs.inv, heq ▸ hs.pinned, hnormal⟩
  · have hmove : Regular py isZero commits (.release (.move mainBranch new)) := trivial
    have hmoved : Orderly commits ⟨s.state.move mainBranch new, s.sync⟩ := hs.release hmove rfl
    exact ⟨heq ▸ hmoved.inv, heq ▸ hmoved.pinned, hnormal⟩
  · have htag : commits.normalize outputs.tag = outputs.tag := hs.normal _ _ hsync rfl
    refine ⟨heq ▸ ⟨hs.inv.provenance, ?_⟩, heq ▸ hs.pinned.setRun rfl, hnormal⟩
    exact runs_setRun (.refl _) hs.inv.runs (.start _ htag)

theorem Orderly.step [DecidableEq Commit] {s t : Pipeline Commit} {a : PipelineAction Commit} (hs : Orderly commits s)
    (hregular : Regular py isZero commits a) (h : pipelineStep py isZero commits s a = some t) :
    Orderly commits t := by
  cases a with
  | release a =>
      obtain ⟨state, hstate, rfl⟩ := Option.map_eq_some_iff.1 h
      exact hs.release hregular hstate
  | stop run =>
      cases h
      exact hs.stop run
  | sync a => exact hs.sync hregular (syncStep_spec h)
  | stopSync =>
      cases h
      exact ⟨hs.inv, hs.pinned, nofun⟩

private theorem pipelineStep_tagsKept [DecidableEq Commit] {s t : Pipeline Commit}
    {a : PipelineAction Commit} (h : pipelineStep py isZero commits s a = some t) :
    TagsKept s.state.remote t.state.remote := by
  cases a with
  | release a =>
      obtain ⟨state, hstate, rfl⟩ := Option.map_eq_some_iff.1 h
      exact step_tagsKept hstate
  | stop run =>
      cases h
      exact .refl _
  | sync a =>
      rcases (syncStep_spec h).state_cases with heq | ⟨new, heq⟩ | ⟨run, head, outputs, -, heq⟩
      · rw [heq]
        exact .refl _
      · rw [heq]
        exact .refl _
      · rw [heq]
        exact .refl _
  | stopSync =>
      cases h
      exact .refl _

theorem Orderly.initial {s : Pipeline Commit}
    (hpublished : Provenance commits.project s.state.remote) (hruns : ∀ run, s.state.runs run = none)
    (hsync : s.sync = none) : Orderly commits s := by
  refine ⟨⟨hpublished, ?_⟩, ?_, ?_⟩
  · intro r run hrun
    rw [hruns r] at hrun
    cases hrun
  · intro r run hrun
    rw [hruns r] at hrun
    cases hrun
  · intro phase tag hphase
    rw [hsync] at hphase
    cases hphase

theorem Orderly.exec [DecidableEq Commit] {s t : Pipeline Commit} (hs : Orderly commits s)
    {actions : List (PipelineAction Commit)} (hregular : ∀ a ∈ actions, Regular py isZero commits a)
    (h : exec (pipelineStep py isZero commits) s actions = some t) : Orderly commits t :=
  exec_invariant_along (fun _ _ _ hs hok hstep => hs.step hok hstep) hs (Along.of_forall hregular) h

def Synchronize.base? : Synchronize Commit → Option Commit
  | .checkedOut c => some c
  | .targeted c _ => some c
  | .tagRead c _ _ => some c
  | .releaseRead c _ _ _ => some c
  | .checked c _ => some c
  | .committed c _ _ => some c
  | .ready _ _ => none

/-- The second commit comes after the first, and its version is the same or newer. -/
structure Forward (py : Sync.Python) (commits : Commits Commit) (c d : Commit) : Prop where
  history : commits.contains d c = true
  version : commits.project.version d = commits.project.version c ∨
    Newer py (commits.project.version c) (commits.project.version d)

theorem Forward.refl (c : Commit) : Forward py commits c c :=
  ⟨Commits.contains_self c, .inl rfl⟩

theorem Forward.trans {c d e : Commit} (hcd : Forward py commits c d) (hde : Forward py commits d e) :
    Forward py commits c e := by
  refine ⟨Commits.contains_trans hde.history hcd.history, ?_⟩
  rcases hde.version with heq | hnewer
  · rw [heq]
    exact hcd.version
  · rcases hcd.version with heq | hnewer'
    · rw [← heq]
      exact .inr hnewer
    · exact .inr (hnewer'.trans hnewer)

/-- People move `main` forward only. -/
def Onward (py : Sync.Python) (commits : Commits Commit) (s : Pipeline Commit) :
    PipelineAction Commit → Prop
  | .release (.move branch c) => branch = mainBranch →
      ∀ head, s.state.remote.branches mainBranch = some head → Forward py commits head c
  | _ => True

private theorem Automatic.onward {s : Pipeline Commit} {a : PipelineAction Commit}
    (h : Automatic a) : Onward py commits s a := by
  cases a with
  | release a =>
      cases a with
      | move branch c => exact h.elim
      | _ => trivial
  | _ => trivial

variable (py commits) in
/-- The head of `main`, and what is known of the synchronization that is on its way. -/
structure Advancing (s : Pipeline Commit) (head : Commit) : Prop where
  main : s.state.remote.branches mainBranch = some head
  based : ∀ phase c, s.sync = some phase → phase.base? = some c → commits.contains head c = true
  newer : ∀ c outputs, s.sync = some (.checked c outputs) → outputs.updateRequired = true →
    ∃ current, (commits.repo c).text .version = some current ∧ Newer py current outputs.tag
  imported : ∀ c new outputs, s.sync = some (.committed c new outputs) →
    commits.parents new = [c] ∧
      Newer py (commits.project.version c) (commits.project.version new)

theorem Advancing.moved {s t : Pipeline Commit} {head head' : Commit}
    (h : Advancing py commits s head) (hsync : t.sync = s.sync)
    (hmain : t.state.remote.branches mainBranch = some head')
    (hhistory : commits.contains head' head = true) : Advancing py commits t head' where
  main := hmain
  based phase c hphase hc := by
    rw [hsync] at hphase
    exact Commits.contains_trans hhistory (h.based phase c hphase hc)
  newer := by
    rw [hsync]
    exact h.newer
  imported := by
    rw [hsync]
    exact h.imported

private theorem Advancing.of_ready {s : Pipeline Commit} {head : Commit}
    (hmain : s.state.remote.branches mainBranch = some head)
    (hsync : s.sync = none ∨ ∃ c outputs, s.sync = some (.ready c outputs)) :
    Advancing py commits s head := by
  rcases hsync with hsync | ⟨c, outputs, hsync⟩
  · refine ⟨hmain, ?_, ?_, ?_⟩
    all_goals
      rw [hsync]
      exact nofun
  · refine ⟨hmain, ?_, ?_, ?_⟩
    · rintro phase d hphase hd
      rw [hsync] at hphase
      cases hphase
      cases hd
    all_goals
      rw [hsync]
      exact nofun

/-- The head is replaced by its child, or it is there already. -/
theorem Advancing.push {s : Pipeline Commit} {head c new : Commit} {outputs : Outputs}
    (h : Advancing py commits s head) (hsync : s.sync = some (.committed c new outputs))
    (hforward : commits.contains new head = true) :
    new = head ∨ commits.parents new = [head] ∧
      Newer py (commits.project.version head) (commits.project.version new) := by
  obtain ⟨hparents, hnewer⟩ := h.imported c new outputs hsync
  rcases (commits.contains_iff new head).1 hforward with heq | ⟨p, hp, hcontains⟩
  · exact .inl heq
  · rw [hparents, List.mem_singleton] at hp
    subst hp
    have heq : head = p := Commits.contains_antisymm (h.based _ _ hsync rfl) hcontains
    subst heq
    exact .inr ⟨hparents, hnewer⟩

theorem Advancing.sync {s t : Pipeline Commit} {head : Commit} {a : SyncAction Commit}
    (hs : Advancing py commits s head) (h : SyncStep py isZero commits s a t) :
    ∃ head', Advancing py commits t head' ∧ Forward py commits head head' := by
  cases h with
  | checkout hidle hmain =>
      rw [hs.main] at hmain
      cases hmain
      refine ⟨head, ⟨hs.main, ?_, nofun, nofun⟩, .refl head⟩
      intro phase c hphase hc
      cases hphase
      cases hc
      exact Commits.contains_self head
  | stableRelease hsync | readTag hsync | readRelease hsync =>
      refine ⟨head, ⟨hs.main, ?_, nofun, nofun⟩, .refl head⟩
      intro phase c hphase hc
      cases hphase
      cases hc
      exact hs.based _ _ hsync rfl
  | readPypi hsync hcurrent hcheck =>
      obtain ⟨htag, hnewer⟩ := of_checkRelease hcheck
      refine ⟨head, ⟨hs.main, ?_, ?_, nofun⟩, .refl head⟩
      · intro phase c hphase hc
        cases hphase
        cases hc
        exact hs.based _ _ hsync rfl
      · intro c outputs hphase hupdate
        cases hphase
        rw [htag]
        exact ⟨_, hcurrent, hnewer hupdate⟩
  | verify hsync => exact ⟨head, .of_ready hs.main (.inr ⟨_, _, rfl⟩), .refl head⟩
  | importRelease hsync hupdate hparents hrepo =>
      obtain ⟨current, hcurrent, hnewer⟩ := hs.newer _ _ hsync hupdate
      refine ⟨head, ⟨hs.main, ?_, nofun, ?_⟩, .refl head⟩
      · intro phase c hphase hc
        cases hphase
        cases hc
        exact hs.based _ _ hsync rfl
      · intro c new outputs hphase
        cases hphase
        rw [version_of_imported hcurrent hnewer hrepo, version_of_text hcurrent]
        exact ⟨hparents, hnewer⟩
  | @push _ new _ _ hsync hmain hforward =>
      rw [hs.main] at hmain
      cases hmain
      refine ⟨new, .of_ready (branches_move _ _ _) (.inr ⟨_, _, rfl⟩), hforward, ?_⟩
      rcases hs.push hsync hforward with heq | ⟨-, hnewer⟩
      · rw [heq]
        exact .inl rfl
      · exact .inr hnewer
  | dispatch hsync => exact ⟨head, .of_ready hs.main (.inl rfl), .refl head⟩

private theorem step_branches [DecidableEq Commit] {project : Project Commit} {s t : State Commit}
    {a : Action Commit} (h : step project s a = some t) :
    t.remote.branches = s.remote.branches ∨ ∃ branch c, a = .move branch c ∧ t = s.move branch c := by
  have hpush : ∀ {remote remote' : Remote Commit} {tag object},
      remote.pushTag tag object = some remote' → remote'.branches = remote.branches := by
    intro remote remote' tag object hpush
    rw [Remote.pushTag] at hpush
    split at hpush
    · cases hpush
      rfl
    · split at hpush
      · cases hpush
        rfl
      · cases hpush
  cases a with
  | move branch c =>
      cases h
      exact .inr ⟨branch, c, rfl, rfl⟩
  | pushTag tag object =>
      obtain ⟨remote, hremote, rfl⟩ := Option.map_eq_some_iff.1 h
      exact .inl (hpush hremote)
  | start run trigger =>
      rw [step] at h
      split at h
      · cases h
        exact .inl rfl
      · cases h
  | advance run action =>
      rw [step] at h
      split at h
      · cases h
      · obtain ⟨⟨remote, state⟩, hrun, rfl⟩ := Option.map_eq_some_iff.1 h
        refine .inl ?_
        cases runStep_spec hrun with
        | @createTag c stamp _ _ hcreate =>
            rename_i state' _ _
            cases htrigger : state'.trigger with
            | dispatch releaseTag ref =>
                rw [htrigger] at hcreate
                exact hpush hcreate
            | tagPush tag =>
                rw [htrigger] at hcreate
                cases hcreate
                rfl
        | upload _ =>
            show (Remote.uploadPypi _ _).branches = _
            rw [Remote.uploadPypi]
            split <;> rfl
        | _ => rfl

theorem Advancing.step [DecidableEq Commit] {s t : Pipeline Commit} {head : Commit}
    {a : PipelineAction Commit} (hs : Advancing py commits s head) (honward : Onward py commits s a)
    (h : pipelineStep py isZero commits s a = some t) :
    ∃ head', Advancing py commits t head' ∧ Forward py commits head head' := by
  cases a with
  | release a =>
      obtain ⟨state, hstate, rfl⟩ := Option.map_eq_some_iff.1 h
      rcases step_branches hstate with hbranches | ⟨branch, c, rfl, rfl⟩
      · refine ⟨head, hs.moved rfl ?_ (Commits.contains_self head), .refl head⟩
        show state.remote.branches mainBranch = some head
        rw [hbranches]
        exact hs.main
      · by_cases hbranch : branch = mainBranch
        · have hforward := honward hbranch head hs.main
          exact ⟨c, hs.moved rfl (if_pos hbranch.symm) hforward.history, hforward⟩
        · exact ⟨head, hs.moved rfl ((if_neg (Ne.symm hbranch)).trans hs.main)
            (Commits.contains_self head), .refl head⟩
  | stop run =>
      cases h
      exact ⟨head, hs.moved rfl hs.main (Commits.contains_self head), .refl head⟩
  | sync a => exact hs.sync (syncStep_spec h)
  | stopSync =>
      cases h
      exact ⟨head, .of_ready hs.main (.inl rfl), .refl head⟩

theorem Advancing.exec [DecidableEq Commit] {s t : Pipeline Commit} {head : Commit}
    (hs : Advancing py commits s head) {actions : List (PipelineAction Commit)}
    (honward : Along (Onward py commits) (pipelineStep py isZero commits) s actions)
    (h : exec (pipelineStep py isZero commits) s actions = some t) :
    ∃ head', Advancing py commits t head' ∧ Forward py commits head head' := by
  refine exec_invariant_along (I := fun u => ∃ head', Advancing py commits u head' ∧
    Forward py commits head head') ?_ ⟨head, hs, .refl head⟩ honward h
  rintro u a v ⟨head', hu, hforward⟩ hok hstep
  obtain ⟨head'', hv, hforward'⟩ := hu.step hok hstep
  exact ⟨head'', hv, hforward.trans hforward'⟩

/-- As long as people move `main` forward, it only goes forward from each state to the next ones, and
every push of a synchronization replaces its head by a child with a newer version, or finds that the
head is its commit already. -/
theorem main_only_advances [DecidableEq Commit] {s mid t : Pipeline Commit} {first : Commit}
    (hidle : s.sync = none) (hmain : s.state.remote.branches mainBranch = some first)
    {before after : List (PipelineAction Commit)}
    (honward : Along (Onward py commits) (pipelineStep py isZero commits) s (before ++ after))
    (hmid : exec (pipelineStep py isZero commits) s before = some mid)
    (h : exec (pipelineStep py isZero commits) mid after = some t) :
    ∃ head head', mid.state.remote.branches mainBranch = some head ∧
      t.state.remote.branches mainBranch = some head' ∧ Forward py commits head head' ∧
      ∀ u, pipelineStep py isZero commits t (.sync .push) = some u →
        ∃ new, u.state.remote.branches mainBranch = some new ∧
          (new = head' ∨ commits.parents new = [head'] ∧
            Newer py (commits.project.version head') (commits.project.version new)) := by
  have hinit : Advancing py commits s first := .of_ready hmain (.inl hidle)
  obtain ⟨head, hhead, -⟩ := hinit.exec honward.of_append hmid
  obtain ⟨head', hadvancing, hforward⟩ := hhead.exec (honward.after hmid) h
  refine ⟨head, head', hhead.main, hadvancing.main, hforward, ?_⟩
  intro u hu
  have hstep : SyncStep py isZero commits t .push u := syncStep_spec hu
  cases hstep with
  | @push _ new _ _ hsync hmain' hcontains =>
      rw [hadvancing.main] at hmain'
      cases hmain'
      exact ⟨new, branches_move _ _ _, hadvancing.push hsync hcontains⟩

/-- The import of a release moves `main` from its first commit to the second. -/
theorem main_only_advances_at_import : ∃ t : Pipeline Nat,
    t.state.remote.branches mainBranch = some 1 ∧ Forward importEnv.py libCommits 0 1 := by
  obtain ⟨actions, t, hautomatic, ht, hstate⟩ := exec_importLib
  have hmoved : t.state.remote.branches mainBranch = some 1 := by
    rw [hstate]
    exact branches_move _ _ _
  have honward : Along (Onward importEnv.py libCommits)
      (pipelineStep importEnv.py (fun _ => false) libCommits) beforeImport actions :=
    Along.imp (fun s a _ ha => ha.onward) (Along.of_forall hautomatic)
  obtain ⟨first, head, hfirst, hhead, hforward, -⟩ :=
    main_only_advances (s := beforeImport) rfl rfl honward (exec_nil _) ht
  rw [hmoved] at hhead
  cases hhead
  cases hfirst
  exact ⟨t, hmoved, hforward⟩

end Automation

end SingBoxPython.Release
