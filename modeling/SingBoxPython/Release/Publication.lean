import SingBoxPython.Release.Automation

/-!
# What becomes of a version

A version of which something is published is closed: the automation adds nothing to it, also where
the run that published it broke off.  A version of which nothing is published is open: the
automation can still publish all of it.
-/

namespace SingBoxPython.Release
open Framework

section Publication

variable {Commit : Type} {py : Sync.Python} {isZero : Text → Bool} {commits : Commits Commit}

/-! ## Closed versions -/

structure PublicationOf (Commit : Type) where
  tag : Option (TagObject Commit)
  release : Option (List (Distribution Commit))
  files : List (Distribution Commit)

def Remote.publication (remote : Remote Commit) (tag : Text) : PublicationOf Commit :=
  ⟨remote.tags tag, remote.releases tag, remote.pypi.filter fun d => d.version == tag⟩

/-- Something of the version is there: its tag, its release, or files on PyPI. -/
def PublicationOf.Occupied (p : PublicationOf Commit) : Prop :=
  p.tag ≠ none ∨ p.release ≠ none ∨ p.files ≠ []

private theorem not_occupied_iff {remote : Remote Commit} {tag : Text} :
    ¬ (remote.publication tag).Occupied ↔
      remote.tags tag = none ∧ remote.releases tag = none ∧ ∀ d ∈ remote.pypi, d.version ≠ tag := by
  simp [PublicationOf.Occupied, Remote.publication]

def Finalize.passed : Finalize Commit → Nat
  | .waiting => 0
  | .checkedOut _ => 0
  | .versionRead _ => 1
  | .tagRead _ => 2
  | .releaseRead _ => 3
  | .guarded _ => 4
  | .finished _ => 5

/-- What is there keeps a run for the version from passing its check. -/
structure Barred (p : PublicationOf Commit) (run : RunState Commit) : Prop where
  tag : p.tag ≠ none → run.finalize.passed ≤ 1
  release : p.release ≠ none → run.finalize.passed ≤ 2
  files : p.files ≠ [] → run.finalize.passed ≤ 3
  publish : run.publish = .waiting
  assets : run.release = .waiting

private theorem Barred.passed_le {p : PublicationOf Commit} {run : RunState Commit}
    (h : Barred p run) (hoccupied : p.Occupied) : run.finalize.passed ≤ 3 := by
  rcases hoccupied with htag | hrelease | hfiles
  · exact (h.tag htag).trans (by decide)
  · exact (h.release hrelease).trans (by decide)
  · exact h.files hfiles

theorem Barred.start (p : PublicationOf Commit) (trigger : Trigger Commit) :
    Barred p { trigger := trigger } :=
  ⟨fun _ => Nat.zero_le _, fun _ => Nat.zero_le _, fun _ => Nat.zero_le _, rfl, rfl⟩

theorem Barred.congr {p : PublicationOf Commit} {run run' : RunState Commit} (h : Barred p run)
    (hfinalize : run'.finalize = run.finalize) (hpublish : run'.publish = run.publish)
    (hassets : run'.release = run.release) : Barred p run' := by
  refine ⟨?_, ?_, ?_, hpublish.trans h.publish, hassets.trans h.assets⟩
  all_goals rw [hfinalize]
  · exact h.tag
  · exact h.release
  · exact h.files

theorem Barred.finalize {p : PublicationOf Commit} {run : RunState Commit} (h : Barred p run)
    {state : Finalize Commit} (htag : p.tag ≠ none → state.passed ≤ 1)
    (hrelease : p.release ≠ none → state.passed ≤ 2) (hfiles : p.files ≠ [] → state.passed ≤ 3) :
    Barred p { run with finalize := state } :=
  ⟨htag, hrelease, hfiles, h.publish, h.assets⟩

section RunSteps

variable [DecidableEq Commit] {project : Project Commit} {remote remote' : Remote Commit}
  {run run' : RunState Commit}

private theorem releases_of_readRelease
    (h : runStep project remote run .readRelease = some (remote', run')) :
    remote.releases run.trigger.releaseTag = none := by
  simp only [runStep] at h
  split at h
  · split at h
    · rename_i hnone
      exact Option.isNone_iff_eq_none.1 hnone
    · cases h
  · cases h

private theorem pypi_of_readPypi (h : runStep project remote run .readPypi = some (remote', run')) :
    ∀ d ∈ remote.pypi, d.version ≠ project.normalize run.trigger.releaseTag := by
  simp only [runStep] at h
  split at h
  · split at h
    · rename_i hall
      simpa using hall
    · cases h
  · cases h

/-- A run for a version of which something is there changes nothing and stays barred. -/
theorem Barred.runStep {releaseTag : Text} {ref : Ref Commit} {action : RunAction}
    (hbarred : Barred (remote.publication releaseTag) run)
    (hoccupied : (remote.publication releaseTag).Occupied)
    (htrigger : run.trigger = .dispatch releaseTag ref)
    (hnormal : project.normalize releaseTag = releaseTag)
    (h : runStep project remote run action = some (remote', run')) :
    remote' = remote ∧ Barred (remote.publication releaseTag) run' := by
  have hpassed := hbarred.passed_le hoccupied
  have htag : run.trigger.releaseTag = releaseTag := by rw [htrigger]; rfl
  cases runStep_spec h with
  | checkout => exact ⟨rfl, hbarred.congr rfl rfl rfl⟩
  | build => exact ⟨rfl, hbarred.congr rfl rfl rfl⟩
  | collect => exact ⟨rfl, hbarred.congr rfl rfl rfl⟩
  | finalizeCheckout =>
      exact ⟨rfl, hbarred.finalize (fun _ => Nat.zero_le _) (fun _ => Nat.zero_le _)
        fun _ => Nat.zero_le _⟩
  | readVersion =>
      exact ⟨rfl, hbarred.finalize (fun _ => Nat.le_refl 1) (fun _ => by decide : _ → 1 ≤ 2)
        (fun _ => by decide : _ → 1 ≤ 3)⟩
  | readTag _ hallowed =>
      have hnone : remote.tags releaseTag = none := by
        rw [htrigger] at hallowed
        exact Option.isNone_iff_eq_none.1 hallowed
      exact ⟨rfl, hbarred.finalize (fun hsome => absurd hnone hsome) (fun _ => Nat.le_refl 2)
        (fun _ => by decide : _ → 2 ≤ 3)⟩
  | readRelease hfinalize =>
      have hnone := releases_of_readRelease h
      rw [htag] at hnone
      have hbefore : run.finalize.passed = 2 := by rw [hfinalize]; rfl
      refine ⟨rfl, hbarred.finalize ?_ (fun hsome => absurd hnone hsome) fun _ => Nat.le_refl 3⟩
      intro hsome
      have hle := hbarred.tag hsome
      omega
  | readPypi hfinalize =>
      -- All three are read as missing, so one of them was read before it was there.
      have hbefore : run.finalize.passed = 3 := by rw [hfinalize]; rfl
      have hfree := pypi_of_readPypi h
      rw [htag, hnormal] at hfree
      rcases hoccupied with hsome | hsome | hsome
      · have hle := hbarred.tag hsome
        omega
      · have hle := hbarred.release hsome
        omega
      · refine absurd (List.filter_eq_nil_iff.2 ?_) hsome
        intro d hd
        simpa using hfree d hd
  | createTag hfinalize =>
      rw [hfinalize] at hpassed
      exact absurd hpassed (by decide : ¬ 4 ≤ 3)
  | beginPublish hfinalize =>
      rw [hfinalize] at hpassed
      exact absurd hpassed (by decide : ¬ 5 ≤ 3)
  | upload hpublish =>
      rw [hbarred.publish] at hpublish
      cases hpublish
  | createRelease hpublish =>
      rw [hbarred.publish] at hpublish
      cases hpublish
  | uploadAsset hrelease =>
      rw [hbarred.assets] at hrelease
      cases hrelease

private theorem publication_pushTag {tag releaseTag : Text} {object : TagObject Commit}
    (hne : tag ≠ releaseTag) (h : remote.pushTag tag object = some remote') :
    remote'.publication releaseTag = remote.publication releaseTag := by
  rw [Remote.pushTag] at h
  split at h
  · cases h
    simp [Remote.publication, Ne.symm hne]
  · split at h
    · cases h
      rfl
    · cases h

omit [DecidableEq Commit] in
private theorem publication_setRelease {tag releaseTag : Text} (hne : tag ≠ releaseTag)
    (assets : List (Distribution Commit)) :
    (remote.setRelease tag assets).publication releaseTag = remote.publication releaseTag := by
  simp [Remote.publication, Remote.setRelease, Ne.symm hne]

omit [DecidableEq Commit] in
private theorem publication_uploadPypi {d : Distribution Commit} {releaseTag : Text}
    (hne : d.version ≠ releaseTag) :
    (remote.uploadPypi d).publication releaseTag = remote.publication releaseTag := by
  rw [Remote.uploadPypi]
  split
  · rfl
  · simp [Remote.publication, hne]

private theorem RunStep.publication {releaseTag : Text} {action : RunAction}
    (h : RunStep project remote run action remote' run') (hinv : RunInv project remote run)
    (hne : run.trigger.releaseTag ≠ releaseTag) :
    remote'.publication releaseTag = remote.publication releaseTag := by
  cases h with
  | createTag _ hcreate =>
      cases htrigger : run.trigger with
      | dispatch tag ref =>
          rw [htrigger] at hcreate hne
          exact publication_pushTag hne hcreate
      | tagPush tag =>
          rw [htrigger] at hcreate
          cases hcreate
          rfl
  | @upload d rest hpublish =>
      apply publication_uploadPypi
      rw [((hinv.publishing _ hpublish).2 d List.mem_cons_self).version]
      exact hne
  | createRelease => exact publication_setRelease hne _
  | uploadAsset => exact publication_setRelease hne _
  | _ => rfl

end RunSteps

/-- People do not push the tag, and so start no run for it either. -/
def LeavesAlone (releaseTag : Text) : PipelineAction Commit → Prop
  | .release (.pushTag tag _) => tag ≠ releaseTag
  | .release (.start _ (.tagPush tag)) => tag ≠ releaseTag
  | _ => True

variable (commits) in
/-- The version has stayed what it was, and all runs for it are barred. -/
structure Closed (releaseTag : Text) (p : PublicationOf Commit) (s : Pipeline Commit) : Prop where
  orderly : Orderly commits s
  same : s.state.remote.publication releaseTag = p
  barred : ∀ r run, s.state.runs r = some run → run.trigger.releaseTag = releaseTag →
    Barred p run ∧ ∃ ref, run.trigger = .dispatch releaseTag ref

section Steps

variable {releaseTag : Text} {p : PublicationOf Commit} {s : Pipeline Commit}

theorem Closed.setRun {t : Pipeline Commit} (h : Closed commits releaseTag p s)
    (horderly : Orderly commits t) {remote : Remote Commit} {r : Nat} {run : RunState Commit}
    (hstate : t.state = { s.state with remote := remote }.setRun r run)
    (hsame : remote.publication releaseTag = p)
    (hbarred : run.trigger.releaseTag = releaseTag →
      Barred p run ∧ ∃ ref, run.trigger = .dispatch releaseTag ref) :
    Closed commits releaseTag p t := by
  refine ⟨horderly, by rw [hstate]; exact hsame, ?_⟩
  intro r' run' hrun htag
  rw [hstate] at hrun
  by_cases hr : r' = r
  · obtain rfl : run = run' := Option.some.inj ((if_pos hr).symm.trans hrun)
    exact hbarred htag
  · exact h.barred r' run' ((if_neg hr).symm.trans hrun) htag

theorem Closed.release [DecidableEq Commit] {a : Action Commit} {state : State Commit}
    (h : Closed commits releaseTag p s) (hoccupied : p.Occupied)
    (hregular : Regular py isZero commits (.release a))
    (halone : LeavesAlone releaseTag (.release a))
    (hstep : step commits.project s.state a = some state) :
    Closed commits releaseTag p ⟨state, s.sync⟩ := by
  have horderly := h.orderly.release hregular hstep
  cases a with
  | move branch c =>
      cases hstep
      exact ⟨horderly, h.same, h.barred⟩
  | pushTag tag object =>
      obtain ⟨remote, hpush, rfl⟩ := Option.map_eq_some_iff.1 hstep
      exact ⟨horderly, (publication_pushTag halone hpush).trans h.same, h.barred⟩
  | start run trigger =>
      rw [step] at hstep
      split at hstep
      · cases hstep
        refine h.setRun horderly rfl h.same ?_
        intro htag
        refine ⟨.start p trigger, ?_⟩
        cases trigger with
        | dispatch tag ref => exact ⟨ref, congrArg (Trigger.dispatch · ref) htag⟩
        | tagPush tag => exact absurd htag halone
      · cases hstep
  | advance r action =>
      rw [step] at hstep
      split at hstep
      · cases hstep
      · rename_i run hrun
        obtain ⟨⟨remote, run'⟩, hadvance, rfl⟩ := Option.map_eq_some_iff.1 hstep
        have hspec := runStep_spec hadvance
        have hinv := h.orderly.inv.runs r run hrun
        by_cases htag : run.trigger.releaseTag = releaseTag
        · obtain ⟨hbarred, ref, htrigger⟩ := h.barred r run hrun htag
          have hnormal : commits.project.normalize releaseTag = releaseTag := by
            rw [← htag]
            exact hinv.normal
          rw [← h.same] at hbarred hoccupied
          obtain ⟨hremote, hbarred'⟩ := hbarred.runStep hoccupied htrigger hnormal hadvance
          rw [h.same] at hbarred'
          refine h.setRun horderly rfl (by rw [hremote]; exact h.same) fun _ => ⟨hbarred', ref, ?_⟩
          rw [hspec.trigger_eq, htrigger]
        · refine h.setRun horderly rfl ((hspec.publication hinv htag).trans h.same) ?_
          intro htag'
          rw [hspec.trigger_eq] at htag'
          exact absurd htag' htag

theorem Closed.step [DecidableEq Commit] {a : PipelineAction Commit} {t : Pipeline Commit}
    (h : Closed commits releaseTag p s) (hoccupied : p.Occupied)
    (hregular : Regular py isZero commits a) (halone : LeavesAlone releaseTag a)
    (hstep : pipelineStep py isZero commits s a = some t) : Closed commits releaseTag p t := by
  have horderly := h.orderly.step hregular hstep
  cases a with
  | release a =>
      obtain ⟨state, hstate, rfl⟩ := Option.map_eq_some_iff.1 hstep
      exact h.release hoccupied hregular halone hstate
  | stop run =>
      cases hstep
      refine ⟨horderly, h.same, ?_⟩
      intro r state hrun
      by_cases hr : r = run
      · cases (if_pos hr).symm.trans hrun
      · exact h.barred r state ((if_neg hr).symm.trans hrun)
  | sync a =>
      rcases (syncStep_spec hstep).state_cases with heq | ⟨new, heq⟩ | ⟨run, head, outputs, -, heq⟩
      · exact ⟨horderly, by rw [heq]; exact h.same, by rw [heq]; exact h.barred⟩
      · exact ⟨horderly, by rw [heq]; exact h.same, by rw [heq]; exact h.barred⟩
      · refine h.setRun horderly heq h.same ?_
        intro htag
        exact ⟨.start p _, _, congrArg (Trigger.dispatch · _) htag⟩
  | stopSync =>
      cases hstep
      exact ⟨horderly, h.same, h.barred⟩

end Steps

def firstTag : Text := "v1.0.0".toList

def tagOnly : Pipeline Nat where
  state := { unpublished with
    remote := { unpublished.remote with
      tags := fun tag => if tag = firstTag then some ⟨0, 0⟩ else none } }
  sync := none

def stepsToGuard : List RunAction :=
  (BuildJob.all.flatMap fun job => [.checkout job, .build job]) ++
    [.collect, .finalizeCheckout, .readVersion]

def secondRun : List (PipelineAction Nat) :=
  .release (.start 0 (.dispatch firstTag (.commit 0))) ::
    stepsToGuard.map fun a => .release (.advance 0 a)

def distributions (project : Project Commit) (c : Commit) : List (Distribution Commit) :=
  BuildJob.all.flatMap fun job =>
    (project.files c job).map fun file => ⟨file, project.normalize (project.version c), c⟩

/-- The version is there as a whole: its tag, and every file in both places. -/
structure Complete (project : Project Commit) (remote : Remote Commit) (tag : Text) (c : Commit) :
    Prop where
  tagged : TagNames remote tag c
  release : remote.releases tag = some (distributions project c)
  pypi : ∀ d ∈ distributions project c, d ∈ remote.pypi

section Completion

variable [DecidableEq Commit] {project : Project Commit} {remote : Remote Commit}
  {run : RunState Commit} {c : Commit}

variable (project) in
def advanceRun (s : Remote Commit × RunState Commit) (a : RunAction) :
    Option (Remote Commit × RunState Commit) :=
  runStep project s.1 s.2 a

private theorem exec_builds {jobs : List BuildJob} (hnodup : jobs.Nodup)
    (hwaiting : ∀ job ∈ jobs, run.builds job = .waiting)
    (href : remote.resolve run.trigger.ref = some c) :
    exec (advanceRun project) (remote, run) (jobs.flatMap fun job => [.checkout job, .build job]) =
      some (remote, { run with builds := fun j => if j ∈ jobs then .built c else run.builds j }) := by
  induction jobs generalizing run with
  | nil => simp
  | cons job jobs ih =>
      obtain ⟨hnew, hnodup⟩ := List.nodup_cons.1 hnodup
      have hcheckout : advanceRun project (remote, run) (.checkout job) =
          some (remote, run.setBuild job (.checkedOut c)) := by
        simp [advanceRun, runStep, hwaiting job List.mem_cons_self, href]
      have hbuild : advanceRun project (remote, run.setBuild job (.checkedOut c)) (.build job) =
          some (remote, run.setBuild job (.built c)) := by
        simp [advanceRun, runStep, RunState.setBuild]
        funext j
        by_cases hj : j = job <;> simp [hj]
      have hothers : ∀ j ∈ jobs, (run.setBuild job (.built c)).builds j = .waiting := by
        intro j hj
        have hne : j ≠ job := fun heq => hnew (heq ▸ hj)
        rw [builds_setBuild, if_neg hne]
        exact hwaiting j (List.mem_cons_of_mem job hj)
      rw [List.flatMap_cons, List.cons_append, List.cons_append, List.nil_append]
      refine exec_cons.2 ⟨_, hcheckout, exec_cons.2 ⟨_, hbuild, ?_⟩⟩
      rw [ih hnodup hothers href]
      simp only [RunState.setBuild, List.mem_cons]
      congr 3
      funext j
      by_cases hj : j = job <;> by_cases hmem : j ∈ jobs <;> simp [hj, hmem]

/-- The names of the files that a run uploads are new and differ from each other. -/
def NewFiles (present files : List (Distribution Commit)) : Prop :=
  (files.map Distribution.file).Nodup ∧
    ∀ e ∈ present, ∀ d ∈ files, ¬ (e.file = d.file ∧ e.version = d.version)

omit [DecidableEq Commit] in
theorem NewFiles.head {present files : List (Distribution Commit)} {d : Distribution Commit}
    (h : NewFiles present (d :: files)) :
    (present.any fun e => decide (e.file = d.file ∧ e.version = d.version)) = false := by
  rw [List.any_eq_false]
  intro e he
  rw [decide_eq_true_eq]
  exact h.2 e he d List.mem_cons_self

omit [DecidableEq Commit] in
theorem NewFiles.tail {present files : List (Distribution Commit)} {d : Distribution Commit}
    (h : NewFiles present (d :: files)) : NewFiles (present ++ [d]) files := by
  obtain ⟨hnodup, hnew⟩ := h
  rw [List.map_cons, List.nodup_cons] at hnodup
  refine ⟨hnodup.2, ?_⟩
  intro e he d' hd' hsame
  rcases List.mem_append.1 he with he | he
  · exact hnew e he d' (List.mem_cons_of_mem d hd') hsame
  · rw [List.mem_singleton.1 he] at hsame
    exact hnodup.1 (hsame.1 ▸ List.mem_map_of_mem hd')

private theorem exec_uploads {files : List (Distribution Commit)}
    (hpublish : run.publish = .sending files) (hnew : NewFiles remote.pypi files) :
    exec (advanceRun project) (remote, run) (files.map fun _ => .upload) =
      some ({ remote with pypi := remote.pypi ++ files }, { run with publish := .sending [] }) := by
  induction files generalizing remote run with
  | nil => simp [← hpublish]
  | cons d files ih =>
      have hupload : advanceRun project (remote, run) .upload =
          some ({ remote with pypi := remote.pypi ++ [d] }, { run with publish := .sending files }) := by
        simp only [advanceRun, runStep, hpublish, Remote.uploadPypi, hnew.head, Bool.false_eq_true,
          if_false]
      refine exec_cons.2 ⟨_, hupload, ?_⟩
      rw [ih rfl hnew.tail]
      simp

omit [DecidableEq Commit] in
private theorem setRelease_self {tag : Text} {assets : List (Distribution Commit)}
    (h : remote.releases tag = some assets) : remote.setRelease tag assets = remote := by
  have hreleases : (remote.setRelease tag assets).releases = remote.releases := by
    funext t
    by_cases ht : t = tag <;> simp [Remote.setRelease, ht, h]
  exact congrArg (fun f => { remote with releases := f }) hreleases

omit [DecidableEq Commit] in
private theorem setRelease_setRelease {tag : Text} {assets assets' : List (Distribution Commit)} :
    (remote.setRelease tag assets).setRelease tag assets' = remote.setRelease tag assets' := by
  have hreleases : ((remote.setRelease tag assets).setRelease tag assets').releases =
      (remote.setRelease tag assets').releases := by
    funext t
    by_cases ht : t = tag <;> simp [Remote.setRelease, ht]
  exact congrArg (fun f => { remote with releases := f }) hreleases

private theorem exec_assets {tag : Text} (htag : run.trigger.releaseTag = tag)
    {assets files : List (Distribution Commit)} (hrelease : run.release = .sending files)
    (hassets : remote.releases tag = some assets) (hnew : NewFiles assets files) :
    exec (advanceRun project) (remote, run) (files.map fun _ => .uploadAsset) =
      some (remote.setRelease tag (assets ++ files), { run with release := .sending [] }) := by
  induction files generalizing remote run assets with
  | nil =>
      rw [List.map_nil, exec_nil, List.append_nil, setRelease_self hassets, ← hrelease]
  | cons d files ih =>
      have hupload : advanceRun project (remote, run) .uploadAsset =
          some (remote.setRelease tag (assets ++ [d]), { run with release := .sending files }) := by
        simp only [advanceRun, runStep, hrelease, htag, hassets, hnew.head, Bool.false_eq_true,
          if_false]
      have hassets' : (remote.setRelease tag (assets ++ [d])).releases tag = some (assets ++ [d]) :=
        if_pos rfl
      have htag' : ({ run with release := .sending files } : RunState Commit).trigger.releaseTag =
          tag := htag
      refine exec_cons.2 ⟨_, hupload, ?_⟩
      rw [ih htag' rfl hassets' hnew.tail, setRelease_setRelease, List.append_assoc,
        List.singleton_append]

private theorem mem_all (job : BuildJob) : job ∈ BuildJob.all := by
  cases job with
  | wheels platform => cases platform <;> decide
  | sdist => decide

omit [DecidableEq Commit] in
private theorem collectAll_built (project : Project Commit) (c : Commit) :
    collectAll project (fun _ => .built c) = some (distributions project c) := by
  simp [collectAll, BuildJob.all, artifacts, distributions]

def guardSteps : List RunAction :=
  [.collect, .finalizeCheckout, .readVersion, .readTag, .readRelease, .readPypi, .createTag 0,
    .beginPublish]

private theorem exec_guardSteps {tag : Text} (hversion : project.version c = tag)
    (hnormal : project.normalize tag = tag) (htag : remote.tags tag = none)
    (hrelease : remote.releases tag = none) (hpypi : ∀ d ∈ remote.pypi, d.version ≠ tag) :
    exec (advanceRun project)
        (remote, { trigger := .dispatch tag (.commit c), builds := fun _ => .built c }) guardSteps =
      some ({ remote with tags := fun t => if t = tag then some ⟨c, 0⟩ else remote.tags t },
        { trigger := .dispatch tag (.commit c)
          builds := fun _ => .built c
          collected := some (distributions project c)
          finalize := .finished c
          publish := .sending (distributions project c) }) := by
  have hall : (remote.pypi.all fun d => decide (d.version ≠ tag)) = true := by simpa using hpypi
  simp only [guardSteps, exec, advanceRun, runStep, collectAll_built, Remote.resolve, Trigger.ref,
    Trigger.releaseTag, tagAllowed, createTag, Remote.pushTag, Option.bind_some, Option.isNone_none,
    Option.map_some, hversion, hnormal, htag, hrelease, hall, if_true]

variable (project c) in
/-- All steps of a run that nothing stops. -/
def runSteps : List RunAction :=
  (BuildJob.all.flatMap fun job => [.checkout job, .build job]) ++ (guardSteps ++
    ((distributions project c).map (fun _ => .upload) ++
      (.createRelease :: (distributions project c).map fun _ => .uploadAsset)))

omit [DecidableEq Commit] in
private theorem newFiles_distributions (hfiles : (BuildJob.all.flatMap (project.files c)).Nodup)
    {present : List (Distribution Commit)}
    (hpresent : ∀ d ∈ present, d.version ≠ project.normalize (project.version c)) :
    NewFiles present (distributions project c) := by
  have hnames : (distributions project c).map Distribution.file =
      BuildJob.all.flatMap (project.files c) := by
    simp [distributions, List.map_flatMap, Function.comp_def]
  have hversion : ∀ d ∈ distributions project c,
      d.version = project.normalize (project.version c) := by
    intro d hd
    obtain ⟨job, -, hd⟩ := List.mem_flatMap.1 hd
    obtain ⟨file, -, rfl⟩ := List.mem_map.1 hd
    rfl
  refine ⟨by rw [hnames]; exact hfiles, ?_⟩
  intro e he d hd hsame
  exact hpresent e he (hsame.2.trans (hversion d hd))

/-- A run that nothing stops publishes a free version as a whole. -/
private theorem exec_runSteps {tag : Text} (hversion : project.version c = tag)
    (hnormal : project.normalize tag = tag)
    (hfiles : (BuildJob.all.flatMap (project.files c)).Nodup)
    (hfree : ¬ (remote.publication tag).Occupied) :
    ∃ remote' run', exec (advanceRun project) (remote, { trigger := .dispatch tag (.commit c) })
        (runSteps project c) = some (remote', run') ∧ Complete project remote' tag c := by
  obtain ⟨htag, hrelease, hpypi⟩ := not_occupied_iff.1 hfree
  have hbuilds : exec (advanceRun project) (remote, { trigger := .dispatch tag (.commit c) })
      (BuildJob.all.flatMap fun job => [.checkout job, .build job]) =
        some (remote, { trigger := .dispatch tag (.commit c), builds := fun _ => .built c }) := by
    rw [exec_builds (by decide) (fun _ _ => rfl) rfl]
    simp [mem_all]
  have hnew : NewFiles remote.pypi (distributions project c) := by
    apply newFiles_distributions hfiles
    rw [hversion, hnormal]
    exact hpypi
  have hcreate : ∀ {remote : Remote Commit} {run : RunState Commit},
      run.trigger.releaseTag = tag → run.publish = .sending [] → run.release = .waiting →
      run.collected = some (distributions project c) → remote.releases tag = none →
      (remote.tags tag).isSome = true → advanceRun project (remote, run) .createRelease =
        some (remote.setRelease tag [], { run with release := .sending (distributions project c) }) := by
    intro remote run htag hpublish hwaiting hcollected hnone hsome
    simp [advanceRun, runStep, htag, hpublish, hwaiting, hcollected, hnone, hsome]
  refine ⟨_, _, exec_append.2 ⟨_, hbuilds, exec_append.2 ⟨_,
    exec_guardSteps hversion hnormal htag hrelease hpypi, exec_append.2 ⟨_, exec_uploads rfl hnew,
    exec_cons.2 ⟨_, hcreate rfl rfl rfl rfl hrelease ?_, exec_assets rfl rfl (if_pos rfl) ?_⟩⟩⟩⟩, ?_⟩
  · simp
  · exact newFiles_distributions hfiles (List.forall_mem_nil _)
  · refine ⟨⟨⟨c, 0⟩, if_pos rfl, rfl⟩, ?_, ?_⟩
    · exact if_pos rfl
    · intro d hd
      exact List.mem_append_right _ hd

end Completion

private theorem exec_release [DecidableEq Commit] {s : Pipeline Commit} {r : Nat}
    {remote' : Remote Commit}
    {run run' : RunState Commit} (hrun : s.state.runs r = some run) {actions : List RunAction}
    (h : exec (advanceRun commits.project) (s.state.remote, run) actions = some (remote', run')) :
    ∃ t, exec (pipelineStep py isZero commits) s
        (actions.map fun a => .release (.advance r a)) = some t ∧ t.state.remote = remote' := by
  induction actions generalizing s run with
  | nil =>
      cases h
      exact ⟨s, rfl, rfl⟩
  | cons a actions ih =>
      obtain ⟨⟨remote, next⟩, hnext, hrest⟩ := exec_cons.1 h
      have hstep : pipelineStep py isZero commits s (.release (.advance r a)) =
          some ⟨{ s.state with remote := remote }.setRun r next, s.sync⟩ := by
        have hadvance : runStep commits.project s.state.remote run a = some (remote, next) := hnext
        simp [pipelineStep, step, hrun, hadvance]
      have hnew : (Pipeline.mk ({ s.state with remote := remote }.setRun r next) s.sync).state.runs r =
          some next := if_pos rfl
      obtain ⟨t, ht, hremote⟩ := ih hnew hrest
      exact ⟨t, exec_cons.2 ⟨_, hstep, ht⟩, hremote⟩

end Publication

end SingBoxPython.Release
