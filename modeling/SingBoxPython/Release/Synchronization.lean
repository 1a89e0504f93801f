import SingBoxPython.Framework.Json
import SingBoxPython.Release.Workflow
import SingBoxPython.Sync.Commit

/-!
# Synchronization runs

`.github/workflows/sync-upstream.yml` beside the runs that publish: `check_release` of
`scripts/sync-sing-box.py`, whose requests interleave with everything else, the import on top of the
checked out commit, the push to `main`, and the dispatch of a run for the pushed commit.

The concurrency group lets one synchronization run at a time.
-/

namespace SingBoxPython.Release
open Framework Sync

/-! ## The checks of `check_release` -/

section Check

variable (py : Python)

/-- What a value of `json.load` counts as in a condition.  `isZero` says which literals are the
floating point number zero. -/
def truthy (isZero : Text → Bool) : Json → Bool
  | .null => false
  | .bool b => b
  | .int i => i != 0
  | .float literal => !isZero literal
  | .string t => !t.isEmpty
  | .array items => !items.isEmpty
  | .object members => !members.isEmpty

def member (members : List (Text × Json)) (key : Text) : Json :=
  (Json.valueOf members key).getD .null

/-- `stable_release` with the response to its request: the tag of the release. -/
def stableRelease (isZero : Text → Bool) (requested : Option Text) (response : Json) :
    Except Failure Text :=
  (match requested with
    | none => pure ⟨⟩
    | some tag => parseVersion py tag >>= fun _ => pure ⟨⟩) >>= fun (_ : Unit) =>
  match response with
  | .object members =>
      match member members "tag_name".toList with
      | .string tag =>
          parseVersion py tag >>= fun _ =>
          raiseIf (truthy isZero (member members "draft".toList) = true ∨
              truthy isZero (member members "prerelease".toList) = true)
            (.syncError ("Refusing non-stable upstream release ".toList ++ tag)) >>= fun _ =>
          raiseIf (requested.any (fun requested => tag != requested) = true)
            (.syncError ("Requested ".toList ++ requested.getD [] ++
              ", but GitHub returned ".toList ++ tag)) >>= fun _ =>
          pure tag
      | _ => .error (.syncError "The upstream release does not contain a tag name".toList)
  | _ => .error (.syncError "GitHub returned an invalid upstream release response".toList)

/-- The dictionary of `published_state`. -/
structure Published where
  tag : Bool
  release : Bool
  pypi : Bool

def Published.names (state : Published) (value : Bool) : List Text :=
  ([("tag".toList, state.tag), ("release".toList, state.release), ("pypi".toList, state.pypi)].filter
    fun e => e.2 == value).map Prod.fst

/-- The values that `check_release` writes for the steps after it. -/
structure Outputs where
  currentTag : Text
  tag : Text
  version : Text
  releaseRequired : Bool
  updateRequired : Bool

def lowerText (b : Bool) : Text :=
  if b then "true".toList else "false".toList

def Outputs.values (outputs : Outputs) : List (Text × Text) :=
  [("current_tag".toList, outputs.currentTag), ("tag".toList, outputs.tag),
    ("version".toList, outputs.version),
    ("release_required".toList, lowerText outputs.releaseRequired),
    ("update_required".toList, lowerText outputs.updateRequired)]

/-- `write_github_output` with a path: the text that it appends. -/
def writeGithubOutput : List (Text × Text) → Except Failure Text
  | [] => pure []
  | (key, value) :: values =>
      raiseIf ('\n' ∈ value ∨ '\r' ∈ value)
          (.syncError ("GitHub output ".toList ++ py.repr key ++ " contains a newline".toList)) >>=
        fun _ =>
      writeGithubOutput values >>= fun rest => pure (key ++ '=' :: value ++ '\n' :: rest)

/-- `check_release` with what its requests have found, up to the output. -/
def decideRelease (current tag : Text) (state : Published) : Except Failure Outputs :=
  parseVersion py current >>= fun currentVersion =>
  parseVersion py tag >>= fun targetVersion =>
  raiseIf (versionLt targetVersion currentVersion = true)
      (.syncError ("Upstream target ".toList ++ tag ++ " is older than current ".toList ++
        current)) >>= fun _ =>
  raiseIf (versionLt currentVersion targetVersion = true ∧ state.names true ≠ [])
      (.syncError ("Release target ".toList ++ tag ++ " is already occupied by: ".toList ++
        commaList (state.names true))) >>= fun _ =>
  raiseIf (versionLt currentVersion targetVersion = false ∧ state.names true ≠ [] ∧
        state.names false ≠ [])
      (.syncError ("Release ".toList ++ tag ++ " is inconsistent; present: ".toList ++
        commaList (state.names true) ++ "; missing: ".toList ++
        commaList (state.names false))) >>= fun _ =>
  packageVersion py tag >>= fun version =>
  pure {
    currentTag := current
    tag := tag
    version := version
    releaseRequired := versionLt currentVersion targetVersion || !(state.names false).isEmpty
    updateRequired := versionLt currentVersion targetVersion }

def checkRelease (current tag : Text) (state : Published) : Except Failure Outputs :=
  decideRelease py current tag state >>= fun outputs =>
    writeGithubOutput py outputs.values >>= fun _ => pure outputs

end Check

/-! ## The project's commits -/

/-- The commits: their parents, what a checkout holds, and the root `.gitignore` of each; which
commits are in a commit's history, and how long that history is.  The rest is what a `Project`
has besides the version. -/
structure Commits (Commit : Type) where
  parents : Commit → List Commit
  repo : Commit → Repo
  gitignore : Commit → Bytes
  contains : Commit → Commit → Bool
  generation : Commit → Nat
  contains_iff : ∀ c d, contains c d = true ↔ c = d ∨ ∃ p ∈ parents c, contains p d = true
  generation_lt : ∀ c, ∀ p ∈ parents c, generation p < generation c
  normalize : Text → Text
  files : Commit → BuildJob → List Text

/-- What is built: the version is the text of `UPSTREAM_VERSION`. -/
def Commits.project {Commit : Type} (commits : Commits Commit) : Project Commit where
  version c := ((commits.repo c).text .version).getD []
  normalize := commits.normalize
  files := commits.files

instance : DecidableEq Repo := fun a b =>
  decidable_of_iff (a.vendor = b.vendor ∧ ∀ file ∈ [ProjectFile.version, .commit, .goVersion],
      a.files file = b.files file) (by
    constructor
    · rintro ⟨hvendor, hfiles⟩
      cases a
      cases b
      rw [Repo.mk.injEq]
      refine ⟨hvendor, funext fun file => hfiles file ?_⟩
      cases file <;> simp
    · rintro rfl
      exact ⟨rfl, fun _ _ => rfl⟩)

/-! ## The system -/

/-- How far a synchronization is: after its checkout, after each answer to `check_release`, with the
outputs, with a commit that is not pushed, and with the head of which a release may be built. -/
inductive Synchronize (Commit : Type)
  | checkedOut (c : Commit)
  | targeted (c : Commit) (tag : Text)
  | tagRead (c : Commit) (tag : Text) (tagExists : Bool)
  | releaseRead (c : Commit) (tag : Text) (tagExists releaseExists : Bool)
  | checked (c : Commit) (outputs : Outputs)
  | committed (c new : Commit) (outputs : Outputs)
  | ready (head : Commit) (outputs : Outputs)

structure Pipeline (Commit : Type) where
  state : State Commit
  sync : Option (Synchronize Commit)

/-- The steps of a synchronization, with what they get from outside: the tag that was asked for, the
answers about the upstream release, where the script runs, and the commit that git makes. -/
inductive SyncAction (Commit : Type)
  | checkout
  | stableRelease (requested : Option Text) (response : Json)
  | readTag
  | readRelease
  | readPypi
  | verify (env : Env)
  | importRelease (env : Env) (new : Commit)
  | push
  | dispatch (run : Nat)

/-- What happens: a step of a publishing run or of a person, the end of a publishing run, a step of
the synchronization, or the end of it.  A run may end at any time. -/
inductive PipelineAction (Commit : Type)
  | release (action : Action Commit)
  | stop (run : Nat)
  | sync (action : SyncAction Commit)
  | stopSync

section Steps

variable {Commit : Type} [DecidableEq Commit] (py : Python) (isZero : Text → Bool)
  (commits : Commits Commit)

def mainBranch : Text := "main".toList

def State.move (s : State Commit) (branch : Text) (c : Commit) : State Commit :=
  { s with remote := { s.remote with
      branches := fun b => if b = branch then some c else s.remote.branches b } }

def State.stop (s : State Commit) (run : Nat) : State Commit :=
  { s with runs := fun r => if r = run then none else s.runs r }

def importedRepo (env : Env) (tag : Text) (c : Commit) : Option Repo :=
  match syncRun { env with py := py } tag (commits.repo c) with
  | (.ok _, workspace) =>
      some (Sync.committed (commits.gitignore c) (commits.repo c) workspace.repo)
  | (.error _, _) => none

def syncStep (s : Pipeline Commit) : SyncAction Commit → Option (Pipeline Commit)
  | .checkout =>
      match s.sync, s.state.remote.branches mainBranch with
      | none, some c => some { s with sync := some (.checkedOut c) }
      | _, _ => none
  | .stableRelease requested response =>
      match s.sync, stableRelease py isZero requested response with
      | some (.checkedOut c), .ok tag => some { s with sync := some (.targeted c tag) }
      | _, _ => none
  | .readTag =>
      match s.sync with
      | some (.targeted c tag) =>
          some { s with sync := some (.tagRead c tag (s.state.remote.tags tag).isSome) }
      | _ => none
  | .readRelease =>
      match s.sync with
      | some (.tagRead c tag tagExists) =>
          some { s with
            sync := some (.releaseRead c tag tagExists (s.state.remote.releases tag).isSome) }
      | _ => none
  | .readPypi =>
      match s.sync with
      | some (.releaseRead c tag tagExists releaseExists) =>
          match (commits.repo c).text .version with
          | some current =>
              match checkRelease py current tag ⟨tagExists, releaseExists,
                  s.state.remote.pypi.any fun d => d.version == commits.normalize tag⟩ with
              | .ok outputs => some { s with sync := some (.checked c outputs) }
              | .error _ => none
          | none => none
      | _ => none
  | .verify env =>
      match s.sync with
      | some (.checked c outputs) =>
          match outputs.updateRequired,
              verifyCommand { env with py := py } outputs.currentTag (commits.repo c) with
          | false, .ok _ => some { s with sync := some (.ready c outputs) }
          | _, _ => none
      | _ => none
  | .importRelease env new =>
      match s.sync with
      | some (.checked c outputs) =>
          if outputs.updateRequired = true ∧ commits.parents new = [c] ∧
              importedRepo py commits env outputs.tag c = some (commits.repo new) then
            some { s with sync := some (.committed c new outputs) }
          else none
      | _ => none
  | .push =>
      match s.sync, s.state.remote.branches mainBranch with
      | some (.committed _ new outputs), some head =>
          -- Without force, git refuses what does not have the old head in its history.
          if commits.contains new head then
            some ⟨s.state.move mainBranch new, some (.ready new outputs)⟩
          else none
      | _, _ => none
  | .dispatch run =>
      match s.sync with
      | some (.ready head outputs) =>
          if outputs.releaseRequired = true ∧ s.state.runs run = none then
            some ⟨s.state.setRun run { trigger := .dispatch outputs.tag (.commit head) }, none⟩
          else none
      | _ => none

def pipelineStep (s : Pipeline Commit) : PipelineAction Commit → Option (Pipeline Commit)
  | .release action => (step commits.project s.state action).map fun state => { s with state := state }
  | .stop run => some { s with state := s.state.stop run }
  | .sync action => syncStep py isZero commits s action
  | .stopSync => some { s with sync := none }

end Steps

end SingBoxPython.Release
