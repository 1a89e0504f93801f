import SingBoxPython.Framework.Text
import SingBoxPython.Framework.Transition

/-!
# The release workflow

Runs of `.github/workflows/build-and-publish.yml` that publish: those dispatched with a release tag
and those started by pushing a tag.  The jobs of all runs interleave, and so do the requests of
`guard_release`.  A job that fails or is cancelled takes no further step.

Synchronization runs move `main` and dispatch a run for the commit they have pushed; both are steps
of their own here.
-/

namespace SingBoxPython.Release
open Framework

/-! ## Runs -/

inductive Platform
  | linuxX64
  | linuxAarch64
  | windowsX64
  | windowsArm64
  | macosX64
  | macosArm64
  deriving DecidableEq

inductive BuildJob
  | wheels (platform : Platform)
  | sdist
  deriving DecidableEq

def BuildJob.all : List BuildJob :=
  [.wheels .linuxX64, .wheels .linuxAarch64, .wheels .windowsX64, .wheels .windowsArm64,
    .wheels .macosX64, .wheels .macosArm64, .sdist]

/-- What `inputs.checkout_ref || github.ref` is: a commit, a full name under `refs/heads` or
`refs/tags`, or a short name. -/
inductive Ref (Commit : Type)
  | commit (c : Commit)
  | branch (name : Text)
  | tag (name : Text)
  | short (name : Text)

def Ref.mayMove {Commit : Type} : Ref Commit → Bool
  | .commit _ => false
  | .branch _ => true
  | .tag _ => false
  | .short _ => true

/-- `tagPush` is a push of the tag, and also a dispatch on the tag without any inputs. -/
inductive Trigger (Commit : Type)
  | dispatch (releaseTag : Text) (ref : Ref Commit)
  | tagPush (tag : Text)

/-- `inputs.release_tag || github.ref_name`. -/
def Trigger.releaseTag {Commit : Type} : Trigger Commit → Text
  | .dispatch releaseTag _ => releaseTag
  | .tagPush tag => tag

def Trigger.ref {Commit : Type} : Trigger Commit → Ref Commit
  | .dispatch _ ref => ref
  | .tagPush tag => .tag tag

/-- A built file, with the version that `setup.py` gave it, written as its tag. -/
structure Distribution (Commit : Type) where
  file : Text
  version : Text
  commit : Commit
  deriving DecidableEq

/-- An annotated tag: the commit it names, and what else makes the object. -/
structure TagObject (Commit : Type) where
  commit : Commit
  stamp : Nat
  deriving DecidableEq

inductive BuildState (Commit : Type)
  | waiting
  | checkedOut (c : Commit)
  | built (c : Commit)

def BuildState.commit? {Commit : Type} : BuildState Commit → Option Commit
  | .waiting => none
  | .checkedOut c => some c
  | .built c => some c

/-- How far `finalize-release` is: after its checkout, after each check of `guard_release`, and after
the tag is pushed. -/
inductive Finalize (Commit : Type)
  | waiting
  | checkedOut (c : Commit)
  | versionRead (c : Commit)
  | tagRead (c : Commit)
  | releaseRead (c : Commit)
  | guarded (c : Commit)
  | finished (c : Commit)

def Finalize.commit? {Commit : Type} : Finalize Commit → Option Commit
  | .waiting => none
  | .checkedOut c => some c
  | .versionRead c => some c
  | .tagRead c => some c
  | .releaseRead c => some c
  | .guarded c => some c
  | .finished c => some c

inductive Sending (Commit : Type)
  | waiting
  | sending (rest : List (Distribution Commit))

structure RunState (Commit : Type) where
  trigger : Trigger Commit
  builds : BuildJob → BuildState Commit := fun _ => .waiting
  collected : Option (List (Distribution Commit)) := none
  finalize : Finalize Commit := .waiting
  publish : Sending Commit := .waiting
  release : Sending Commit := .waiting

/-- The repository on GitHub, its releases with their assets, and the project on PyPI. -/
structure Remote (Commit : Type) where
  branches : Text → Option Commit
  tags : Text → Option (TagObject Commit)
  releases : Text → Option (List (Distribution Commit))
  pypi : List (Distribution Commit)

structure State (Commit : Type) where
  remote : Remote Commit
  runs : Nat → Option (RunState Commit)

/-- What the commits hold as `UPSTREAM_VERSION`, the normal form that setuptools gives a version,
both written as tags, and the files that each job builds from a commit. -/
structure Project (Commit : Type) where
  version : Commit → Text
  normalize : Text → Text
  files : Commit → BuildJob → List Text

section Steps

variable {Commit : Type} [DecidableEq Commit] (project : Project Commit)

/-- What a checkout of the ref takes now.  A short name is a branch where there is one. -/
def Remote.resolve (remote : Remote Commit) : Ref Commit → Option Commit
  | .commit c => some c
  | .branch name => remote.branches name
  | .tag name => (remote.tags name).map TagObject.commit
  | .short name => (remote.branches name).or ((remote.tags name).map TagObject.commit)

/-! ## Steps of a run -/

def RunState.setBuild (run : RunState Commit) (job : BuildJob) (state : BuildState Commit) :
    RunState Commit :=
  { run with builds := fun j => if j = job then state else run.builds j }

omit [DecidableEq Commit] in
theorem builds_setBuild (run : RunState Commit) (job j : BuildJob) (state : BuildState Commit) :
    (run.setBuild job state).builds j = if j = job then state else run.builds j := rfl

def artifacts (job : BuildJob) : BuildState Commit → Option (List (Distribution Commit))
  | .built c =>
      some ((project.files c job).map fun file => ⟨file, project.normalize (project.version c), c⟩)
  | _ => none

/-- `collect` needs every build job. -/
def collectAll (builds : BuildJob → BuildState Commit) : Option (List (Distribution Commit)) :=
  (BuildJob.all.mapM fun job => artifacts project job (builds job)).map List.flatten

/-- The check of the tag by `guard_release`, with `--allow-existing-tag` for a pushed tag. -/
def tagAllowed (remote : Remote Commit) : Trigger Commit → Bool
  | .dispatch releaseTag _ => (remote.tags releaseTag).isNone
  | .tagPush tag => (remote.tags tag).isSome

/-- `git push origin refs/tags/...`: refused where the name has another object. -/
def Remote.pushTag (remote : Remote Commit) (tag : Text) (object : TagObject Commit) :
    Option (Remote Commit) :=
  match remote.tags tag with
  | none => some { remote with tags := fun t => if t = tag then some object else remote.tags t }
  | some existing => if existing = object then some remote else none

/-- `Create release tag`, which a run for a pushed tag skips. -/
def createTag (remote : Remote Commit) (trigger : Trigger Commit) (object : TagObject Commit) :
    Option (Remote Commit) :=
  match trigger with
  | .dispatch releaseTag _ => remote.pushTag releaseTag object
  | .tagPush _ => some remote

/-- The upload to PyPI with `skip-existing`. -/
def Remote.uploadPypi (remote : Remote Commit) (d : Distribution Commit) : Remote Commit :=
  if remote.pypi.any fun e => decide (e.file = d.file ∧ e.version = d.version) then remote
  else { remote with pypi := remote.pypi ++ [d] }

def Remote.setRelease (remote : Remote Commit) (tag : Text) (assets : List (Distribution Commit)) :
    Remote Commit :=
  { remote with releases := fun t => if t = tag then some assets else remote.releases t }

inductive RunAction
  | checkout (job : BuildJob)
  | build (job : BuildJob)
  | collect
  | finalizeCheckout
  | readVersion
  | readTag
  | readRelease
  | readPypi
  | createTag (stamp : Nat)
  | beginPublish
  | upload
  | createRelease
  | uploadAsset

def runStep (remote : Remote Commit) (run : RunState Commit) :
    RunAction → Option (Remote Commit × RunState Commit)
  | .checkout job =>
      match run.builds job, remote.resolve run.trigger.ref with
      | .waiting, some c => some (remote, run.setBuild job (.checkedOut c))
      | _, _ => none
  | .build job =>
      match run.builds job with
      | .checkedOut c => some (remote, run.setBuild job (.built c))
      | _ => none
  | .collect =>
      match run.collected, collectAll project run.builds with
      | none, some files => some (remote, { run with collected := some files })
      | _, _ => none
  | .finalizeCheckout =>
      match run.collected, run.finalize, remote.resolve run.trigger.ref with
      | some _, .waiting, some c => some (remote, { run with finalize := .checkedOut c })
      | _, _, _ => none
  | .readVersion =>
      match run.finalize with
      | .checkedOut c =>
          if project.version c = run.trigger.releaseTag then
            some (remote, { run with finalize := .versionRead c })
          else none
      | _ => none
  | .readTag =>
      match run.finalize with
      | .versionRead c =>
          if tagAllowed remote run.trigger then some (remote, { run with finalize := .tagRead c })
          else none
      | _ => none
  | .readRelease =>
      match run.finalize with
      | .tagRead c =>
          if (remote.releases run.trigger.releaseTag).isNone then
            some (remote, { run with finalize := .releaseRead c })
          else none
      | _ => none
  | .readPypi =>
      match run.finalize with
      | .releaseRead c =>
          if remote.pypi.all fun d =>
              decide (d.version ≠ project.normalize run.trigger.releaseTag) then
            some (remote, { run with finalize := .guarded c })
          else none
      | _ => none
  | .createTag stamp =>
      match run.finalize with
      | .guarded c =>
          (createTag remote run.trigger ⟨c, stamp⟩).map fun remote' =>
            (remote', { run with finalize := .finished c })
      | _ => none
  | .beginPublish =>
      match run.finalize, run.collected, run.publish with
      | .finished _, some files, .waiting => some (remote, { run with publish := .sending files })
      | _, _, _ => none
  | .upload =>
      match run.publish with
      | .sending (d :: rest) => some (remote.uploadPypi d, { run with publish := .sending rest })
      | _ => none
  | .createRelease =>
      match run.publish, run.release, run.collected with
      | .sending [], .waiting, some files =>
          if (remote.releases run.trigger.releaseTag).isNone &&
              (remote.tags run.trigger.releaseTag).isSome then
            some (remote.setRelease run.trigger.releaseTag [],
              { run with release := .sending files })
          else none
      | _, _, _ => none
  | .uploadAsset =>
      match run.release, remote.releases run.trigger.releaseTag with
      | .sending (d :: rest), some assets =>
          if assets.any fun e => decide (e.file = d.file ∧ e.version = d.version) then none
          else some (remote.setRelease run.trigger.releaseTag (assets ++ [d]),
            { run with release := .sending rest })
      | _, _ => none

/-! ## Steps of the system -/

inductive Action (Commit : Type)
  | move (branch : Text) (c : Commit)
  | pushTag (tag : Text) (object : TagObject Commit)
  | start (run : Nat) (trigger : Trigger Commit)
  | advance (run : Nat) (action : RunAction)

/-- A run for a pushed tag starts when the tag is there. -/
def canStart (remote : Remote Commit) : Trigger Commit → Bool
  | .dispatch _ _ => true
  | .tagPush tag => (remote.tags tag).isSome

def State.setRun (s : State Commit) (run : Nat) (state : RunState Commit) : State Commit :=
  { s with runs := fun r => if r = run then some state else s.runs r }

def step (s : State Commit) : Action Commit → Option (State Commit)
  | .move branch c =>
      some { s with
        remote := { s.remote with
          branches := fun b => if b = branch then some c else s.remote.branches b } }
  | .pushTag tag object =>
      (s.remote.pushTag tag object).map fun remote => { s with remote := remote }
  | .start run trigger =>
      if (s.runs run).isNone && canStart s.remote trigger then
        some (s.setRun run { trigger := trigger })
      else none
  | .advance run action =>
      match s.runs run with
      | none => none
      | some state =>
          (runStep project s.remote state action).map fun (remote, state) =>
            { s with remote := remote }.setRun run state

end Steps

end SingBoxPython.Release
