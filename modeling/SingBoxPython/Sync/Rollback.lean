import SingBoxPython.Sync.Command

/-!
# What a failed synchronization leaves

Up to the move of the vendored tree nothing has changed, so an exception leaves everything as it was.
After it the handler puts the tree back and writes the three files anew from the stripped texts that
the checks have read.
-/

namespace SingBoxPython.Sync
open Framework

/-! ## What the checks have found -/

structure Accepted (env : Env) (tag : Text) (repo : Repo) (current : Current) : Prop where
  clean : Text.strip (env.status repo) = []
  tag : currentTag env repo = .ok current.tag
  go : currentGoVersion env repo = .ok current.go
  upstream : env.upstream current.tag = .ok current.checkout
  commit : currentCommit env repo = .ok current.checkout.commit
  vendor : verifyVendor env.machine current.checkout repo.tree = .ok ⟨⟩
  goPin : verifyGoVersion env current.checkout repo = .ok ⟨⟩

/-- The checks accept, and whether the target is synchronized already depends on the versions. -/
theorem initialChecks_eq_ok {env : Env} {tag : Text} {repo : Repo} {result : Option Current}
    (h : initialChecks env tag repo = .ok result) :
    ∃ current currentVersion targetVersion, Accepted env tag repo current ∧
      parseVersion env.py current.tag = .ok currentVersion ∧
      parseVersion env.py tag = .ok targetVersion ∧
      versionLt targetVersion currentVersion = false ∧
      result = if targetVersion = currentVersion then none else some current := by
  rw [initialChecks, raiseIf_bind_eq_ok_iff, not_not] at h
  obtain ⟨hclean, h⟩ := h
  obtain ⟨current, htag, h⟩ := bind_eq_ok_iff.1 h
  obtain ⟨go, hgo, h⟩ := bind_eq_ok_iff.1 h
  obtain ⟨currentVersion, hcurrent, h⟩ := bind_eq_ok_iff.1 h
  obtain ⟨targetVersion, htarget, h⟩ := bind_eq_ok_iff.1 h
  obtain ⟨hlt, h⟩ := raiseIf_bind_eq_ok_iff.1 h
  obtain ⟨checkout, hupstream, h⟩ := bind_eq_ok_iff.1 h
  obtain ⟨commit, hcommit, h⟩ := bind_eq_ok_iff.1 h
  obtain ⟨hpinned, h⟩ := raiseIf_bind_eq_ok_iff.1 h
  obtain ⟨_, hvendor, h⟩ := bind_eq_ok_iff.1 h
  obtain ⟨_, hpin, h⟩ := bind_eq_ok_iff.1 h
  rw [← not_not.1 hpinned] at hcommit
  cases h
  exact ⟨⟨current, go, checkout⟩, currentVersion, targetVersion,
    ⟨hclean, htag, hgo, hupstream, hcommit, hvendor, hpin⟩, hcurrent, htarget,
    Bool.eq_false_iff.2 hlt, rfl⟩

def Current.text (current : Current) : ProjectFile → Text
  | .version => current.tag
  | .commit => current.checkout.commit
  | .goVersion => current.go

theorem Accepted.read {env : Env} {tag : Text} {repo : Repo} {current : Current}
    (h : Accepted env tag repo current) (file : ProjectFile) :
    readProjectFile env repo file = .ok (current.text file) := by
  cases file with
  | version =>
      obtain ⟨t, hread, hrest⟩ := bind_eq_ok_iff.1 h.tag
      obtain ⟨_, _, hpure⟩ := bind_eq_ok_iff.1 hrest
      cases hpure
      exact hread
  | commit =>
      obtain ⟨t, hread, hrest⟩ := bind_eq_ok_iff.1 h.commit
      obtain ⟨_, hpure⟩ := raiseIf_bind_eq_ok_iff.1 hrest
      cases hpure
      exact hread
  | goVersion =>
      obtain ⟨t, hread, hrest⟩ := bind_eq_ok_iff.1 h.go
      obtain ⟨_, _, hpure⟩ := bind_eq_ok_iff.1 hrest
      cases hpure
      exact hread

/-! ## What the parts of the command change -/

section Parts

variable {env : Env}

theorem triple_attempt {P : Workspace → Prop} {E : Failure → Workspace → Prop}
    (operation : Operation) (h : ∀ e s, P s → E e s) :
    Eff.Triple P (attempt env operation) (fun _ => P) E := by
  rw [attempt]
  cases env.raises operation with
  | none => exact Eff.triple_pure fun _ hs => hs
  | some e => exact Eff.triple_throw fun s hs => h e s hs

theorem triple_liftExcept {α : Type} {P : Workspace → Prop} {E : Failure → Workspace → Prop}
    (x : Except Failure α) (h : ∀ e s, P s → E e s) :
    Eff.Triple P (liftExcept x) (fun a s => x = .ok a ∧ P s) E := by
  cases x with
  | ok a => exact Eff.triple_pure fun _ hs => ⟨rfl, hs⟩
  | error e => exact Eff.triple_throw fun s hs => h e s hs

theorem keeps_attempt {inv : Workspace → Prop} (operation : Operation) :
    Eff.Keeps inv (attempt env operation) :=
  triple_attempt operation fun _ _ hs => hs

private theorem keeps_liftExcept {α : Type} {inv : Workspace → Prop} (x : Except Failure α) :
    Eff.Keeps inv (liftExcept x) :=
  Eff.triple_mono (triple_liftExcept x fun _ _ hs => hs) (fun _ hs => hs) (fun _ _ hs => hs.2)
    (fun _ _ hs => hs)

private theorem keeps_copyAddition {repo : Repo} (relative : Text) :
    Eff.Keeps (fun s => s.repo = repo) (copyAddition env relative) := by
  refine Eff.keeps_bind (keeps_attempt _) fun _ => Eff.keeps_bind Eff.keeps_get fun s => ?_
  split
  · exact Eff.keeps_throw _
  · split
    · exact Eff.keeps_throw _
    · exact Eff.keeps_bind (keeps_liftExcept _) fun _ => Eff.keeps_modify fun _ hs => hs
    · split
      · exact Eff.keeps_throw _
      · exact Eff.keeps_modify fun _ hs => hs

private theorem keeps_copyAdditions {repo : Repo} (additions : List Text) :
    Eff.Keeps (fun s => s.repo = repo) (copyAdditions env additions) := by
  induction additions with
  | nil => exact Eff.keeps_pure _
  | cons relative rest ih =>
      rw [copyAdditions]
      exact Eff.keeps_bind (keeps_copyAddition relative) fun _ => ih

private theorem triple_renameAway {repo : Repo} :
    Eff.Triple (fun s => s.repo = repo) renameAway
      (fun _ s => s.repo = { repo with vendor := none } ∧ s.backup = repo.vendor)
      (fun _ s => s.repo = repo) := by
  refine Eff.triple_bind Eff.triple_get fun s => ?_
  split
  · exact Eff.triple_throw fun t ht => ht.2
  · rename_i vendor hvendor
    intro t ht
    obtain ⟨rfl, rfl⟩ := ht
    exact ⟨rfl, hvendor.symm⟩

/-- Everything before the `try` block leaves the project as it is, up to the move at its end. -/
private theorem triple_prepare (env : Env) (repo : Repo) (tag : Text) :
    Eff.Triple (fun s => s.repo = repo) (prepare env tag)
      (fun _ s => s.repo = { repo with vendor := none } ∧ s.backup = repo.vendor)
      (fun _ s => s.repo = repo) := by
  refine Eff.triple_bind (keeps_attempt _) fun _ => ?_
  refine Eff.triple_bind (keeps_liftExcept _) fun target => ?_
  refine Eff.triple_bind (keeps_attempt _) fun _ => ?_
  refine Eff.triple_bind (keeps_liftExcept _) fun go => ?_
  refine Eff.triple_bind (keeps_attempt _) fun _ => ?_
  refine Eff.triple_bind (Eff.keeps_modify fun _ hs => hs) fun _ => ?_
  refine Eff.triple_bind (keeps_copyAdditions _) fun _ => ?_
  refine Eff.triple_bind (keeps_attempt _) fun _ => ?_
  exact Eff.triple_bind triple_renameAway fun _ => Eff.triple_pure fun _ hs => hs

private theorem keeps_setVendor {backup vendor : Option Vendor} :
    Eff.Keeps (fun s => s.backup = backup) (setVendor vendor) :=
  Eff.keeps_modify fun _ hs => hs

private theorem keeps_setFile {backup : Option Vendor} (file : ProjectFile)
    (content : Option Bytes) : Eff.Keeps (fun s => s.backup = backup) (setFile file content) :=
  Eff.keeps_modify fun _ hs => hs

private theorem keeps_writeText {backup : Option Vendor} (file : ProjectFile) (text : Text) :
    Eff.Keeps (fun s => s.backup = backup) (writeText env file text) := by
  rw [writeText]
  split
  · exact Eff.keeps_bind (keeps_setFile _ _) fun _ => Eff.keeps_throw _
  · exact Eff.keeps_bind (keeps_setFile _ _) fun _ => keeps_setFile _ _

private theorem keeps_renameIn {backup : Option Vendor} :
    Eff.Keeps (fun s => s.backup = backup) renameIn := by
  refine Eff.keeps_bind Eff.keeps_get fun s => ?_
  split
  · exact Eff.keeps_throw _
  · exact Eff.keeps_bind (Eff.keeps_modify fun _ hs => hs) fun _ => keeps_setVendor

private theorem keeps_install (env : Env) (backup : Option Vendor) (tag : Text) (target : Checkout)
    (go : Text) :
    Eff.Keeps (fun s => s.backup = backup) (install env tag target go) := by
  refine Eff.keeps_bind (keeps_attempt _) fun _ => Eff.keeps_bind keeps_renameIn fun _ => ?_
  refine Eff.keeps_bind (keeps_writeText _ _) fun _ => ?_
  refine Eff.keeps_bind (keeps_writeText _ _) fun _ => ?_
  refine Eff.keeps_bind (keeps_writeText _ _) fun _ => ?_
  refine Eff.keeps_bind ?_ fun _ => ?_
  · exact Eff.keeps_bind (keeps_attempt _) fun _ =>
      Eff.keeps_bind Eff.keeps_get fun _ => keeps_liftExcept _
  · exact Eff.keeps_bind (keeps_attempt _) fun _ =>
      Eff.keeps_bind Eff.keeps_get fun _ => keeps_liftExcept _

def restored (current : Current) (vendor : Option Vendor) : Repo where
  vendor := vendor
  files := fun file => some (utf8 (current.text file ++ ['\n']))

private theorem triple_unlinkAll {backup : Option Vendor} (paths : List Text) (vendor : Vendor) :
    Eff.Triple (fun s => s.backup = backup) (unlinkAll paths vendor) (fun _ s => s.backup = backup)
      (fun _ _ => False) := by
  induction paths generalizing vendor with
  | nil => exact Eff.triple_pure fun _ hs => hs
  | cons path rest ih =>
      rw [unlinkAll]
      exact Eff.triple_bind (Eff.triple_modify fun _ hs => hs) fun _ => ih _

private theorem triple_removeVendor {backup : Option Vendor} :
    Eff.Triple (fun s => s.backup = backup) (removeVendor env) (fun _ s => s.backup = backup)
      (fun _ _ => False) := by
  refine Eff.triple_bind Eff.triple_get fun s => ?_
  split
  · exact Eff.triple_pure fun _ hs => hs.2
  · refine Eff.triple_mono (Eff.triple_bind (triple_unlinkAll _ _) fun _ =>
      Eff.triple_modify fun _ hs => hs) (fun _ hs => hs.2) (fun _ _ hs => hs) fun _ _ h => h

/-- The handler does not raise, and overwrites all parts of the project. -/
private theorem triple_rollback (env : Env) (current : Current) (backup : Option Vendor) :
    Eff.Triple (fun s => s.backup = backup) (rollback env current)
      (fun _ s => s.repo = restored current backup) (fun _ _ => False) := by
  refine Eff.triple_bind triple_removeVendor fun _ s hs => ?_
  subst hs
  refine congrArg (Repo.mk s.backup) (funext fun file => ?_)
  cases file <;> rfl

private theorem exec_rollback (env : Env) (current : Current) (s : Workspace) :
    (Eff.exec (rollback env current) s).1 = .ok ⟨⟩ ∧
      (Eff.exec (rollback env current) s).2.repo = restored current s.backup := by
  have h := triple_rollback env current s.backup s rfl
  rcases hres : Eff.exec (rollback env current) s with ⟨_ | _, t⟩
  · rw [hres] at h
    exact absurd h id
  · rw [hres] at h
    exact ⟨rfl, h⟩

end Parts

/-! ## Failed runs -/

section Runs

variable (env : Env) (tag : Text) (repo : Repo)

/-- The checks let the import begin, and the `try` block raises. -/
structure FailsInTry (current : Current) : Prop where
  checked : env.raises .initialChecks = none
  accepted : initialChecks env tag repo = .ok (some current)
  raised : ∃ target go s e t,
    Eff.exec (prepare env tag) ⟨repo, none, none, []⟩ = (.ok (target, go), s) ∧
      Eff.exec (install env tag target go) s = (.error e, t)

/-- Each of the three files is its stripped text and one newline. -/
def Canonical : Prop :=
  ∀ file, ∃ text, readProjectFile env repo file = .ok text ∧
    repo.files file = some (utf8 (text ++ ['\n']))

/-- When the command raises, the tree and the files are what they were, and so is what `git status`
says. -/
def LeavesNoTrace : Prop :=
  ∀ e s, syncRun env tag repo = (.error e, s) →
    s.repo = repo ∧ env.status s.repo = env.status repo

variable {env tag repo}

theorem initialChecks_some {current : Current} (h : initialChecks env tag repo = .ok (some current)) :
    Accepted env tag repo current := by
  obtain ⟨found, currentVersion, targetVersion, hfound, _, _, _, hresult⟩ := initialChecks_eq_ok h
  by_cases hsame : targetVersion = currentVersion
  · rw [if_pos hsame] at hresult
    cases hresult
  · rw [if_neg hsame] at hresult
    cases hresult
    exact hfound

theorem syncRun_eq (env : Env) (tag : Text) (repo : Repo) :
    syncRun env tag repo =
      match env.raises .initialChecks with
      | some e => (.error e, ⟨repo, none, none, []⟩)
      | none =>
          match initialChecks env tag repo with
          | .error e => (.error e, ⟨repo, none, none, []⟩)
          | .ok none => (.ok ⟨⟩, ⟨repo, none, none, []⟩)
          | .ok (some current) =>
              Eff.exec (importTarget env tag current) ⟨repo, none, none, []⟩ := by
  rw [syncRun, syncCommand, attempt]
  cases env.raises .initialChecks with
  | some e => rfl
  | none =>
      show Eff.exec (match initialChecks env tag repo with
        | .error e => throw e
        | .ok none => pure ⟨⟩
        | .ok (some current) => importTarget env tag current : SyncM Unit) _ = _
      rcases initialChecks env tag repo with _ | _ | _ <;> rfl

/-- The import after its preparation: what the `try` block raises is raised again after the handler
has run. -/
theorem exec_importTarget {current : Current} {target : Checkout} {go : Text} {s t : Workspace}
    (hprepare : Eff.exec (prepare env tag) s = (.ok (target, go), t)) :
    Eff.exec (importTarget env tag current) s =
      match Eff.exec (install env tag target go) t with
      | (.ok _, u) => (.ok ⟨⟩, u)
      | (.error e, u) => (.error e, (Eff.exec (rollback env current) u).2) := by
  rw [importTarget, Eff.exec_bind, hprepare]
  show Eff.exec (tryCatch (install env tag target go) fun e => rollback env current >>= fun _ => throw e)
    t = _
  rw [Eff.exec_tryCatch]
  rcases Eff.exec (install env tag target go) t with ⟨e | _, u⟩
  · show Eff.exec (rollback env current >>= fun _ => throw e) u = _
    rw [Eff.exec_bind]
    obtain ⟨hdone, -⟩ := exec_rollback env current u
    rcases hres : Eff.exec (rollback env current) u with ⟨_ | _, v⟩
    · rw [hres] at hdone
      cases hdone
    · show (Except.error e, v) = (Except.error e, (Eff.exec (rollback env current) u).2)
      rw [hres]
  · rfl

/-- A failure in the `try` block ends in the state that the handler writes. -/
theorem FailsInTry.syncRun {current : Current} (h : FailsInTry env tag repo current) :
    ∃ e s, syncRun env tag repo = (.error e, s) ∧ s.repo = restored current repo.vendor := by
  obtain ⟨target, go, s, e, t, hprepare, hinstall⟩ := h.raised
  have hmoved := triple_prepare env repo tag ⟨repo, none, none, []⟩ rfl
  rw [hprepare] at hmoved
  have hbackup : t.backup = repo.vendor := by
    have hkeeps := (keeps_install env repo.vendor tag target go).exec hmoved.2
    rw [hinstall] at hkeeps
    exact hkeeps
  refine ⟨e, (Eff.exec (rollback env current) t).2, ?_, ?_⟩
  · rw [syncRun_eq, h.checked, h.accepted]
    show Eff.exec (importTarget env tag current) _ = _
    rw [exec_importTarget hprepare, hinstall]
  · rw [(exec_rollback env current t).2, hbackup]

/-- Any other failure leaves the project as it was. -/
theorem repo_eq_or_failsInTry {e : Failure} {s : Workspace}
    (h : syncRun env tag repo = (.error e, s)) :
    s.repo = repo ∨ ∃ current, FailsInTry env tag repo current := by
  rw [syncRun_eq] at h
  cases hchecked : env.raises .initialChecks with
  | some failure =>
      rw [hchecked] at h
      cases h
      exact .inl rfl
  | none =>
      rw [hchecked] at h
      rcases haccepted : initialChecks env tag repo with failure | _ | current
      · rw [haccepted] at h
        cases h
        exact .inl rfl
      · rw [haccepted] at h
        cases h
      · rw [haccepted] at h
        change Eff.exec (importTarget env tag current) _ = _ at h
        have hmoved := triple_prepare env repo tag ⟨repo, none, none, []⟩ rfl
        rcases hprepare : Eff.exec (prepare env tag) ⟨repo, none, none, []⟩ with
          ⟨failure | ⟨target, go⟩, t⟩
        · rw [hprepare] at hmoved
          rw [importTarget, Eff.exec_bind, hprepare] at h
          cases h
          exact .inl hmoved
        · rw [exec_importTarget hprepare] at h
          rcases hinstall : Eff.exec (install env tag target go) t with ⟨failure | _, u⟩
          · exact .inr ⟨current, hchecked, haccepted, target, go, t, failure, u, hprepare, hinstall⟩
          · rw [hinstall] at h
            cases h

/-- What the handler writes is what was there exactly for files in the form it writes. -/
private theorem restored_eq_iff {current : Current} (h : Accepted env tag repo current) :
    restored current repo.vendor = repo ↔ Canonical env repo := by
  constructor
  · intro heq file
    exact ⟨current.text file, h.read file, (congrArg (fun r => r.files file) heq).symm⟩
  · intro hcanonical
    have hfiles : ∀ file, some (utf8 (current.text file ++ ['\n'])) = repo.files file := by
      intro file
      obtain ⟨text, hread, hfile⟩ := hcanonical file
      rw [h.read file] at hread
      cases hread
      exact hfile.symm
    exact congrArg (Repo.mk repo.vendor) (funext hfiles)

end Runs

private theorem LeavesNoTrace.repo_eq {env : Env} {tag : Text} {repo : Repo} {e : Failure}
    (h : LeavesNoTrace env tag repo) (hraised : (syncRun env tag repo).1 = .error e) :
    (syncRun env tag repo).2.repo = repo :=
  (h e (syncRun env tag repo).2 (Prod.ext hraised rfl)).1

/-! ## A version file without a newline -/

/-- What `mkdir` does where the link leads to no directory. -/
def danglingLink (_ : Vendor) (relative : Text) : Except Failure Vendor :=
  .error (.fileExists relative)

theorem danglingLink_lookup (staged : Vendor) (relative : Text) (after : Vendor)
    (h : danglingLink staged relative = .ok after) (path : Text) (_ : path ∈ projectAdditions) :
    after.lookup path = staged.lookup path :=
  absurd h (error_ne_ok _ _)

def refusingEnv : Env where
  py := python311
  machine := linux
  root := "/project".toList
  status := fun _ => []
  upstream := fun tag =>
    .ok (linkCheckout (List.replicate 40 (if tag = "v1.0.0".toList then 'a' else 'b'))
      (some "go-version: 1.24.0".toList))
  exports := fun _ => linkVendor [102]
  raises := fun operation => if operation = .verifyVendor then some .unicodeError else none
  leaves := fun _ => none
  scans := Vendor.paths
  throughLink := danglingLink
  throughLink_lookup := danglingLink_lookup

def unterminatedRepo : Repo where
  vendor := some (linkVendor [102])
  files
    | .version => some (utf8 "v1.0.0".toList)
    | .commit => some (utf8 (List.replicate 40 'a' ++ ['\n']))
    | .goVersion => some (utf8 ("1.24.0".toList ++ ['\n']))

end SingBoxPython.Sync
