import SingBoxPython.Framework.Fallible
import SingBoxPython.Release.Workflow

/-!
# Release provenance

What is published under a version is built from the commit of its tag, as long as the checkouts of
each run agree.
-/

namespace SingBoxPython.Release
open Framework

section Provenance

variable {Commit : Type} (project : Project Commit)

def TagNames (remote : Remote Commit) (tag : Text) (c : Commit) : Prop :=
  ∃ object, remote.tags tag = some object ∧ object.commit = c

/-- The file is built from the commit of the tag, and that commit has the version of the tag. -/
structure BuiltFromTag (remote : Remote Commit) (tag : Text) (d : Distribution Commit) : Prop where
  version : d.version = tag
  upstream : project.version d.commit = tag
  tagged : TagNames remote tag d.commit

structure Provenance (remote : Remote Commit) : Prop where
  pypi : ∀ d ∈ remote.pypi, BuiltFromTag project remote d.version d
  assets : ∀ tag files, remote.releases tag = some files → ∀ d ∈ files,
    BuiltFromTag project remote tag d

def TagsKept (remote remote' : Remote Commit) : Prop :=
  ∀ tag object, remote.tags tag = some object → remote'.tags tag = some object

def RunState.CheckedOut (run : RunState Commit) (c : Commit) : Prop :=
  (∃ job, (run.builds job).commit? = some c) ∨ run.finalize.commit? = some c

/-- A run is for a tag in normal form, and a checkout of a name that may have moved takes the commit
that the run has checked out before. -/
def Steady (s : State Commit) : Action Commit → Prop
  | .start _ trigger => project.normalize trigger.releaseTag = trigger.releaseTag
  | .advance run (.checkout _) | .advance run .finalizeCheckout =>
      ∀ state, s.runs run = some state → state.trigger.ref.mayMove = true →
        ∀ c, state.CheckedOut c → s.remote.resolve state.trigger.ref = some c
  | _ => True

/-! ## What is known of a run -/

def Finalize.compared? : Finalize Commit → Option Commit
  | .waiting => none
  | .checkedOut _ => none
  | .versionRead c => some c
  | .tagRead c => some c
  | .releaseRead c => some c
  | .guarded c => some c
  | .finished c => some c

/-- What is known of a run: its checkouts agree, and each job relies on what the jobs before it have
checked. -/
structure RunInv (remote : Remote Commit) (run : RunState Commit) : Prop where
  normal : project.normalize run.trigger.releaseTag = run.trigger.releaseTag
  same : ∀ c c', run.CheckedOut c → run.CheckedOut c' → c = c'
  collected : ∀ files, run.collected = some files → ∀ d ∈ files,
    run.CheckedOut d.commit ∧ d.version = project.normalize (project.version d.commit)
  compared : ∀ c, run.finalize.compared? = some c → project.version c = run.trigger.releaseTag
  fixed : run.trigger.ref.mayMove = false → ∀ c, run.CheckedOut c →
    remote.resolve run.trigger.ref = some c
  finished : ∀ c, run.finalize = .finished c → TagNames remote run.trigger.releaseTag c
  publishing : ∀ rest, run.publish = .sending rest →
    (∃ c, run.finalize = .finished c) ∧
      ∀ d ∈ rest, BuiltFromTag project remote run.trigger.releaseTag d
  releasing : ∀ rest, run.release = .sending rest → ∀ d ∈ rest,
    BuiltFromTag project remote run.trigger.releaseTag d

variable {project}

/-! ## Tags that do not move -/

theorem TagsKept.refl (remote : Remote Commit) : TagsKept remote remote :=
  fun _ _ h => h

theorem TagsKept.trans {a b c : Remote Commit} (hab : TagsKept a b) (hbc : TagsKept b c) :
    TagsKept a c :=
  fun tag object h => hbc tag object (hab tag object h)

theorem TagNames.mono {remote remote' : Remote Commit} {tag : Text} {c : Commit}
    (h : TagNames remote tag c) (hkept : TagsKept remote remote') : TagNames remote' tag c := by
  obtain ⟨object, htag, hcommit⟩ := h
  exact ⟨object, hkept tag object htag, hcommit⟩

private theorem resolve_mono {remote remote' : Remote Commit} {ref : Ref Commit} {c : Commit}
    (hmove : ref.mayMove = false) (h : remote.resolve ref = some c)
    (hkept : TagsKept remote remote') : remote'.resolve ref = some c := by
  cases ref with
  | commit _ => exact h
  | branch _ => cases hmove
  | tag name =>
      obtain ⟨object, htag, hcommit⟩ := Option.map_eq_some_iff.1 h
      exact Option.map_eq_some_iff.2 ⟨object, hkept name object htag, hcommit⟩
  | short _ => cases hmove

theorem BuiltFromTag.mono {remote remote' : Remote Commit} {tag : Text} {d : Distribution Commit}
    (h : BuiltFromTag project remote tag d) (hkept : TagsKept remote remote') :
    BuiltFromTag project remote' tag d :=
  ⟨h.version, h.upstream, h.tagged.mono hkept⟩

theorem RunInv.mono {remote remote' : Remote Commit} {run : RunState Commit}
    (h : RunInv project remote run) (hkept : TagsKept remote remote') :
    RunInv project remote' run where
  normal := h.normal
  same := h.same
  collected := h.collected
  compared := h.compared
  fixed hmove c hc := resolve_mono hmove (h.fixed hmove c hc) hkept
  finished c hc := (h.finished c hc).mono hkept
  publishing rest hrest :=
    ⟨(h.publishing rest hrest).1, fun d hd => ((h.publishing rest hrest).2 d hd).mono hkept⟩
  releasing rest hrest d hd := (h.releasing rest hrest d hd).mono hkept

private theorem RunInv.builtFromTag {remote : Remote Commit} {run : RunState Commit}
    (h : RunInv project remote run) {c : Commit} (hfinalize : run.finalize = .finished c)
    {files : List (Distribution Commit)} (hfiles : run.collected = some files)
    {d : Distribution Commit} (hd : d ∈ files) :
    BuiltFromTag project remote run.trigger.releaseTag d := by
  obtain ⟨hcheckedOut, hversion⟩ := h.collected files hfiles d hd
  have hc : run.CheckedOut c := .inr (by rw [hfinalize]; rfl)
  have hsame : d.commit = c := h.same d.commit c hcheckedOut hc
  have hcompared : project.version c = run.trigger.releaseTag :=
    h.compared c (by rw [hfinalize]; rfl)
  refine ⟨?_, ?_, ?_⟩
  · rw [hversion, hsame, hcompared, h.normal]
  · rw [hsame, hcompared]
  · rw [hsame]
    exact h.finished c hfinalize

private theorem uploadPypi_spec (remote : Remote Commit) (d : Distribution Commit) :
    (remote.uploadPypi d).tags = remote.tags ∧ (remote.uploadPypi d).releases = remote.releases ∧
      ∀ e ∈ (remote.uploadPypi d).pypi, e ∈ remote.pypi ∨ e = d := by
  rw [Remote.uploadPypi]
  split
  · exact ⟨rfl, rfl, fun e he => .inl he⟩
  · refine ⟨rfl, rfl, ?_⟩
    intro e he
    rcases List.mem_append.1 he with he | he
    · exact .inl he
    · exact .inr (List.mem_singleton.1 he)

private theorem checkedOut_of_collectAll {run : RunState Commit}
    {files : List (Distribution Commit)}
    (h : collectAll project run.builds = some files) {d : Distribution Commit} (hd : d ∈ files) :
    run.CheckedOut d.commit ∧ d.version = project.normalize (project.version d.commit) := by
  obtain ⟨lists, hlists, rfl⟩ := Option.map_eq_some_iff.1 h
  obtain ⟨l, hl, hd⟩ := List.mem_flatten.1 hd
  obtain ⟨job, -, hjob⟩ := exists_of_mem_mapM hlists hl
  cases hbuild : run.builds job with
  | waiting =>
      rw [hbuild] at hjob
      cases hjob
  | checkedOut c =>
      rw [hbuild] at hjob
      cases hjob
  | built c =>
      rw [hbuild] at hjob
      cases hjob
      obtain ⟨file, -, rfl⟩ := List.mem_map.1 hd
      exact ⟨.inl ⟨job, by rw [hbuild]; rfl⟩, rfl⟩

theorem RunInv.setBuild {remote : Remote Commit} {run : RunState Commit}
    (h : RunInv project remote run) {job : BuildJob} {state : BuildState Commit} {c : Commit}
    (hstate : state.commit? = some c) (hsame : ∀ d, run.CheckedOut d → d = c)
    (hfixed : run.trigger.ref.mayMove = false → remote.resolve run.trigger.ref = some c) :
    RunInv project remote (run.setBuild job state) := by
  have hnew : (run.setBuild job state).CheckedOut c :=
    .inl ⟨job, by rw [builds_setBuild, if_pos rfl, hstate]⟩
  have hold : ∀ d, (run.setBuild job state).CheckedOut d → d = c := by
    intro d hd
    rcases hd with ⟨j, hj⟩ | hd
    · by_cases heq : j = job
      · rw [builds_setBuild, if_pos heq, hstate] at hj
        exact (Option.some.inj hj).symm
      · rw [builds_setBuild, if_neg heq] at hj
        exact hsame d (.inl ⟨j, hj⟩)
    · exact hsame d (.inr hd)
  refine { h with same := ?_, collected := ?_, fixed := ?_ }
  · intro d d' hd hd'
    rw [hold d hd, hold d' hd']
  · intro files hfiles d hd
    obtain ⟨hcheckedOut, hversion⟩ := h.collected files hfiles d hd
    refine ⟨?_, hversion⟩
    rw [hsame _ hcheckedOut]
    exact hnew
  · intro hmove d hd
    rw [hold d hd]
    exact hfixed hmove

private theorem RunInv.setFinalize {remote : Remote Commit} {run : RunState Commit}
    (h : RunInv project remote run) {state : Finalize Commit} {c : Commit}
    (hunfinished : ∀ d, run.finalize ≠ .finished d) (hstate : state.commit? = some c)
    (hsame : ∀ d, run.CheckedOut d → d = c)
    (hfixed : run.trigger.ref.mayMove = false → remote.resolve run.trigger.ref = some c)
    (hcompared : ∀ d, state.compared? = some d → project.version d = run.trigger.releaseTag)
    (hfinished : ∀ d, state = .finished d → TagNames remote run.trigger.releaseTag d) :
    RunInv project remote { run with finalize := state } := by
  have hold : ∀ d, ({ run with finalize := state } : RunState Commit).CheckedOut d → d = c := by
    intro d hd
    rcases hd with hd | hd
    · exact hsame d (.inl hd)
    · exact Option.some.inj (hd.symm.trans hstate)
  refine ⟨h.normal, ?_, ?_, hcompared, ?_, hfinished, ?_, h.releasing⟩
  · intro d d' hd hd'
    rw [hold d hd, hold d' hd']
  · intro files hfiles d hd
    obtain ⟨hcheckedOut, hversion⟩ := h.collected files hfiles d hd
    refine ⟨?_, hversion⟩
    rw [hsame _ hcheckedOut]
    exact .inr hstate
  · intro hmove d hd
    rw [hold d hd]
    exact hfixed hmove
  · intro rest hrest
    obtain ⟨⟨d, hd⟩, -⟩ := h.publishing rest hrest
    exact absurd hd (hunfinished d)

private theorem RunInv.advanceFinalize {remote : Remote Commit} {run : RunState Commit}
    (h : RunInv project remote run) {state : Finalize Commit} {c : Commit}
    (hunfinished : ∀ d, run.finalize ≠ .finished d) (hbefore : run.finalize.commit? = some c)
    (hstate : state.commit? = some c) (hversion : project.version c = run.trigger.releaseTag)
    (hfinished : ∀ d, state = .finished d → TagNames remote run.trigger.releaseTag d) :
    RunInv project remote { run with finalize := state } := by
  refine h.setFinalize hunfinished hstate ?_ ?_ ?_ hfinished
  · exact fun d hd => h.same d c hd (.inr hbefore)
  · exact fun hmove => h.fixed hmove c (.inr hbefore)
  · intro d hd
    have hcommit : state.commit? = some d := by
      cases state <;> first | exact hd | cases hd
    rw [hstate] at hcommit
    cases hcommit
    exact hversion

theorem Provenance.of_eq {remote remote' : Remote Commit} (h : Provenance project remote)
    (hpypi : remote'.pypi = remote.pypi) (hreleases : remote'.releases = remote.releases)
    (hkept : TagsKept remote remote') : Provenance project remote' := by
  refine ⟨?_, ?_⟩
  · rw [hpypi]
    exact fun d hd => (h.pypi d hd).mono hkept
  · rw [hreleases]
    exact fun tag files hfiles d hd => (h.assets tag files hfiles d hd).mono hkept

theorem Provenance.setRelease {remote : Remote Commit} (h : Provenance project remote) {tag : Text}
    {assets : List (Distribution Commit)}
    (hassets : ∀ d ∈ assets, BuiltFromTag project remote tag d) :
    Provenance project (remote.setRelease tag assets) := by
  have hkept : TagsKept remote (remote.setRelease tag assets) := fun _ _ htag => htag
  refine ⟨fun d hd => (h.pypi d hd).mono hkept, ?_⟩
  intro t files hfiles d hd
  by_cases ht : t = tag
  · obtain rfl : assets = files := Option.some.inj ((if_pos ht).symm.trans hfiles)
    rw [ht]
    exact (hassets d hd).mono hkept
  · exact (h.assets t files ((if_neg ht).symm.trans hfiles) d hd).mono hkept

theorem Provenance.uploadPypi {remote : Remote Commit} (h : Provenance project remote)
    {d : Distribution Commit} (hd : BuiltFromTag project remote d.version d) :
    Provenance project (remote.uploadPypi d) := by
  obtain ⟨htags, hreleases, hpypi⟩ := uploadPypi_spec remote d
  have hkept : TagsKept remote (remote.uploadPypi d) := by
    intro tag object htag
    rw [htags]
    exact htag
  refine ⟨?_, ?_⟩
  · intro e he
    rcases hpypi e he with he | rfl
    · exact (h.pypi e he).mono hkept
    · exact hd.mono hkept
  · rw [hreleases]
    exact fun tag files hfiles e he => (h.assets tag files hfiles e he).mono hkept

theorem RunInv.start (remote : Remote Commit) {trigger : Trigger Commit}
    (hnormal : project.normalize trigger.releaseTag = trigger.releaseTag) :
    RunInv project remote { trigger := trigger } := by
  have hnone : ∀ c, ¬ ({ trigger := trigger } : RunState Commit).CheckedOut c := by
    intro c hc
    rcases hc with ⟨job, hjob⟩ | hc
    · cases hjob
    · cases hc
  exact ⟨hnormal, fun c _ hc => absurd hc (hnone c), nofun, nofun,
    fun _ c hc => absurd hc (hnone c), nofun, nofun, nofun⟩

theorem runs_setRun {s : State Commit} {remote : Remote Commit} (hkept : TagsKept s.remote remote)
    (hruns : ∀ r state, s.runs r = some state → RunInv project s.remote state) {run : Nat}
    {new : RunState Commit} (hnew : RunInv project remote new) (r : Nat) (state : RunState Commit)
    (h : ({ s with remote := remote }.setRun run new).runs r = some state) :
    RunInv project remote state := by
  by_cases hr : r = run
  · obtain rfl : new = state := Option.some.inj ((if_pos hr).symm.trans h)
    exact hnew
  · exact (hruns r state ((if_neg hr).symm.trans h)).mono hkept

variable [DecidableEq Commit]

/-! ## What a step does -/

variable (project) in
inductive RunStep (remote : Remote Commit) (run : RunState Commit) :
    RunAction → Remote Commit → RunState Commit → Prop
  | checkout {job : BuildJob} {c : Commit} (hwaiting : run.builds job = .waiting)
      (href : remote.resolve run.trigger.ref = some c) :
      RunStep remote run (.checkout job) remote (run.setBuild job (.checkedOut c))
  | build {job : BuildJob} {c : Commit} (hcheckedOut : run.builds job = .checkedOut c) :
      RunStep remote run (.build job) remote (run.setBuild job (.built c))
  | collect {files : List (Distribution Commit)}
      (hfiles : collectAll project run.builds = some files) :
      RunStep remote run .collect remote { run with collected := some files }
  | finalizeCheckout {c : Commit} (hwaiting : run.finalize = .waiting)
      (href : remote.resolve run.trigger.ref = some c) :
      RunStep remote run .finalizeCheckout remote { run with finalize := .checkedOut c }
  | readVersion {c : Commit} (hfinalize : run.finalize = .checkedOut c)
      (hversion : project.version c = run.trigger.releaseTag) :
      RunStep remote run .readVersion remote { run with finalize := .versionRead c }
  | readTag {c : Commit} (hfinalize : run.finalize = .versionRead c)
      (htag : tagAllowed remote run.trigger = true) :
      RunStep remote run .readTag remote { run with finalize := .tagRead c }
  | readRelease {c : Commit} (hfinalize : run.finalize = .tagRead c) :
      RunStep remote run .readRelease remote { run with finalize := .releaseRead c }
  | readPypi {c : Commit} (hfinalize : run.finalize = .releaseRead c) :
      RunStep remote run .readPypi remote { run with finalize := .guarded c }
  | createTag {c : Commit} {stamp : Nat} {remote' : Remote Commit}
      (hfinalize : run.finalize = .guarded c)
      (hcreate : Release.createTag remote run.trigger ⟨c, stamp⟩ = some remote') :
      RunStep remote run (.createTag stamp) remote' { run with finalize := .finished c }
  | beginPublish {c : Commit} {files : List (Distribution Commit)}
      (hfinalize : run.finalize = .finished c) (hfiles : run.collected = some files) :
      RunStep remote run .beginPublish remote { run with publish := .sending files }
  | upload {d : Distribution Commit} {rest : List (Distribution Commit)}
      (hpublish : run.publish = .sending (d :: rest)) :
      RunStep remote run .upload (remote.uploadPypi d) { run with publish := .sending rest }
  | createRelease {files : List (Distribution Commit)} (hpublish : run.publish = .sending [])
      (hfiles : run.collected = some files) :
      RunStep remote run .createRelease (remote.setRelease run.trigger.releaseTag [])
        { run with release := .sending files }
  | uploadAsset {d : Distribution Commit} {rest assets : List (Distribution Commit)}
      (hrelease : run.release = .sending (d :: rest))
      (hassets : remote.releases run.trigger.releaseTag = some assets) :
      RunStep remote run .uploadAsset
        (remote.setRelease run.trigger.releaseTag (assets ++ [d]))
        { run with release := .sending rest }

theorem runStep_spec {remote remote' : Remote Commit} {run run' : RunState Commit}
    {action : RunAction} (h : runStep project remote run action = some (remote', run')) :
    RunStep project remote run action remote' run' := by
  cases action with
  | checkout job =>
      simp only [runStep] at h
      split at h
      · rename_i c hwaiting href
        cases h
        exact .checkout hwaiting href
      · cases h
  | build job =>
      simp only [runStep] at h
      split at h
      · rename_i c hcheckedOut
        cases h
        exact .build hcheckedOut
      · cases h
  | collect =>
      simp only [runStep] at h
      split at h
      · rename_i files _ hfiles
        cases h
        exact .collect hfiles
      · cases h
  | finalizeCheckout =>
      simp only [runStep] at h
      split at h
      · rename_i c _ hwaiting href
        cases h
        exact .finalizeCheckout hwaiting href
      · cases h
  | readVersion =>
      simp only [runStep] at h
      split at h
      · rename_i c hfinalize
        split at h
        · rename_i hversion
          cases h
          exact .readVersion hfinalize hversion
        · cases h
      · cases h
  | readTag =>
      simp only [runStep] at h
      split at h
      · rename_i c hfinalize
        split at h
        · rename_i htag
          cases h
          exact .readTag hfinalize htag
        · cases h
      · cases h
  | readRelease =>
      simp only [runStep] at h
      split at h
      · rename_i c hfinalize
        split at h
        · cases h
          exact .readRelease hfinalize
        · cases h
      · cases h
  | readPypi =>
      simp only [runStep] at h
      split at h
      · rename_i c hfinalize
        split at h
        · cases h
          exact .readPypi hfinalize
        · cases h
      · cases h
  | createTag stamp =>
      simp only [runStep] at h
      split at h
      · rename_i c hfinalize
        obtain ⟨remote'', hcreate, heq⟩ := Option.map_eq_some_iff.1 h
        cases heq
        exact .createTag hfinalize hcreate
      · cases h
  | beginPublish =>
      simp only [runStep] at h
      split at h
      · rename_i c files hfinalize hfiles _
        cases h
        exact .beginPublish hfinalize hfiles
      · cases h
  | upload =>
      simp only [runStep] at h
      split at h
      · rename_i d rest hpublish
        cases h
        exact .upload hpublish
      · cases h
  | createRelease =>
      simp only [runStep] at h
      split at h
      · rename_i files hpublish _ hfiles
        split at h
        · cases h
          exact .createRelease hpublish hfiles
        · cases h
      · cases h
  | uploadAsset =>
      simp only [runStep] at h
      split at h
      · rename_i d rest assets hrelease hassets
        split at h
        · cases h
        · cases h
          exact .uploadAsset hrelease hassets
      · cases h

private theorem pushTag_spec {remote remote' : Remote Commit} {tag : Text}
    {object : TagObject Commit} (h : remote.pushTag tag object = some remote') :
    TagsKept remote remote' ∧ remote'.tags tag = some object ∧ remote'.pypi = remote.pypi ∧
      remote'.releases = remote.releases := by
  rw [Remote.pushTag] at h
  split at h
  · rename_i hnone
    cases h
    refine ⟨?_, if_pos rfl, rfl, rfl⟩
    intro t existing ht
    by_cases heq : t = tag
    · rw [heq, hnone] at ht
      cases ht
    · exact (if_neg heq).trans ht
  · rename_i existing hsome
    split at h
    · rename_i heq
      cases h
      exact ⟨.refl remote, heq ▸ hsome, rfl, rfl⟩
    · cases h

private theorem createTag_spec {remote remote' : Remote Commit} {trigger : Trigger Commit}
    {object : TagObject Commit} (h : createTag remote trigger object = some remote') :
    TagsKept remote remote' ∧ remote'.pypi = remote.pypi ∧ remote'.releases = remote.releases := by
  cases trigger with
  | dispatch releaseTag ref =>
      obtain ⟨hkept, -, hpypi, hreleases⟩ := pushTag_spec h
      exact ⟨hkept, hpypi, hreleases⟩
  | tagPush tag =>
      cases h
      exact ⟨.refl remote, rfl, rfl⟩

private theorem tagNames_createTag {remote remote' : Remote Commit} {trigger : Trigger Commit}
    {c : Commit} {stamp : Nat} (h : createTag remote trigger ⟨c, stamp⟩ = some remote')
    (hfixed : trigger.ref.mayMove = false → remote.resolve trigger.ref = some c) :
    TagNames remote' trigger.releaseTag c := by
  cases trigger with
  | dispatch releaseTag ref => exact ⟨⟨c, stamp⟩, (pushTag_spec h).2.1, rfl⟩
  | tagPush tag =>
      cases h
      exact Option.map_eq_some_iff.1 (hfixed rfl)

private theorem RunStep.tagsKept {remote remote' : Remote Commit} {run run' : RunState Commit}
    {action : RunAction} (h : RunStep project remote run action remote' run') :
    TagsKept remote remote' := by
  cases h with
  | createTag _ hcreate => exact (createTag_spec hcreate).1
  | upload _ =>
      intro tag object htag
      rw [(uploadPypi_spec _ _).1]
      exact htag
  | _ => exact fun _ _ htag => htag

/-! ## What a step keeps -/

/-- A run keeps what is known of it when its checkouts agree. -/
private theorem RunStep.runInv {remote remote' : Remote Commit} {run run' : RunState Commit}
    {action : RunAction} (h : RunStep project remote run action remote' run')
    (hinv : RunInv project remote run)
    (hsteady : (∃ job, action = .checkout job) ∨ action = .finalizeCheckout →
      run.trigger.ref.mayMove = true →
        ∀ c, run.CheckedOut c → remote.resolve run.trigger.ref = some c) :
    RunInv project remote' run' := by
  have hkept := h.tagsKept
  -- A new checkout agrees with those before: by assumption where the name may move, else by the ref itself.
  have hagree : (∃ job, action = .checkout job) ∨ action = .finalizeCheckout →
      ∀ c, remote.resolve run.trigger.ref = some c → ∀ d, run.CheckedOut d → d = c := by
    intro haction c href d hd
    have hd' : remote.resolve run.trigger.ref = some d := by
      cases hmove : run.trigger.ref.mayMove with
      | true => exact hsteady haction hmove d hd
      | false => exact hinv.fixed hmove d hd
    rw [href] at hd'
    exact (Option.some.inj hd').symm
  cases h with
  | checkout hwaiting href =>
      exact hinv.setBuild rfl (hagree (.inl ⟨_, rfl⟩) _ href) fun _ => href
  | build hcheckedOut =>
      have hc : run.CheckedOut _ := .inl ⟨_, by rw [hcheckedOut]; rfl⟩
      exact hinv.setBuild rfl (fun d hd => hinv.same d _ hd hc) fun hmove =>
        hinv.fixed hmove _ hc
  | collect hfiles =>
      exact { hinv with
        collected := by
          intro files heq d hd
          cases heq
          exact checkedOut_of_collectAll hfiles hd }
  | finalizeCheckout hwaiting href =>
      exact hinv.setFinalize (fun d => by rw [hwaiting]; exact nofun) rfl
        (hagree (.inr rfl) _ href) (fun _ => href) nofun nofun
  | readVersion hfinalize hversion =>
      exact hinv.advanceFinalize (fun d => by rw [hfinalize]; exact nofun)
        (by rw [hfinalize]; rfl) rfl hversion nofun
  | readTag hfinalize _ =>
      exact hinv.advanceFinalize (fun d => by rw [hfinalize]; exact nofun)
        (by rw [hfinalize]; rfl) rfl (hinv.compared _ (by rw [hfinalize]; rfl)) nofun
  | readRelease hfinalize =>
      exact hinv.advanceFinalize (fun d => by rw [hfinalize]; exact nofun)
        (by rw [hfinalize]; rfl) rfl (hinv.compared _ (by rw [hfinalize]; rfl)) nofun
  | readPypi hfinalize =>
      exact hinv.advanceFinalize (fun d => by rw [hfinalize]; exact nofun)
        (by rw [hfinalize]; rfl) rfl (hinv.compared _ (by rw [hfinalize]; rfl)) nofun
  | createTag hfinalize hcreate =>
      refine (hinv.mono hkept).advanceFinalize (fun d => by rw [hfinalize]; exact nofun)
        (by rw [hfinalize]; rfl) rfl (hinv.compared _ (by rw [hfinalize]; rfl)) ?_
      intro d hd
      cases hd
      have hc : run.CheckedOut _ := .inr (by rw [hfinalize]; rfl)
      exact tagNames_createTag hcreate fun hmove => hinv.fixed hmove _ hc
  | beginPublish hfinalize hfiles =>
      exact { hinv with
        publishing := by
          intro rest heq
          cases heq
          exact ⟨⟨_, hfinalize⟩, fun d hd => hinv.builtFromTag hfinalize hfiles hd⟩ }
  | upload hpublish =>
      have hmono := hinv.mono hkept
      exact { hmono with
        publishing := by
          intro rest heq
          cases heq
          obtain ⟨hfinished, hrest⟩ := hmono.publishing _ hpublish
          exact ⟨hfinished, fun d hd => hrest d (List.mem_cons_of_mem _ hd)⟩ }
  | createRelease hpublish hfiles =>
      have hmono := hinv.mono hkept
      exact { hmono with
        releasing := by
          intro rest heq d hd
          cases heq
          obtain ⟨⟨c, hfinalize⟩, -⟩ := hinv.publishing _ hpublish
          exact hmono.builtFromTag hfinalize hfiles hd }
  | uploadAsset hrelease _ =>
      have hmono := hinv.mono hkept
      exact { hmono with
        releasing := by
          intro rest heq d hd
          cases heq
          exact hmono.releasing _ hrelease d (List.mem_cons_of_mem _ hd) }

/-- What a run publishes is built from its tag. -/
theorem RunStep.provenance {remote remote' : Remote Commit} {run run' : RunState Commit}
    {action : RunAction} (h : RunStep project remote run action remote' run')
    (hinv : RunInv project remote run) (hprov : Provenance project remote) :
    Provenance project remote' := by
  have hkept := h.tagsKept
  cases h with
  | createTag _ hcreate =>
      obtain ⟨-, hpypi, hreleases⟩ := createTag_spec hcreate
      exact hprov.of_eq hpypi hreleases hkept
  | @upload d rest hpublish =>
      have hnew := (hinv.publishing _ hpublish).2 d List.mem_cons_self
      exact hprov.uploadPypi (hnew.version ▸ hnew)
  | createRelease _ _ => exact hprov.setRelease nofun
  | @uploadAsset d rest assets hrelease hassets =>
      refine hprov.setRelease ?_
      intro e he
      rcases List.mem_append.1 he with he | he
      · exact hprov.assets _ assets hassets e he
      · rw [List.mem_singleton.1 he]
        exact hinv.releasing _ hrelease d List.mem_cons_self
  | _ => exact hprov

/-! ## Whole histories -/

variable (project) in
structure Inv (s : State Commit) : Prop where
  provenance : Provenance project s.remote
  runs : ∀ r run, s.runs r = some run → RunInv project s.remote run

theorem step_tagsKept {s s' : State Commit} {a : Action Commit} (h : step project s a = some s') :
    TagsKept s.remote s'.remote := by
  cases a with
  | move branch c =>
      cases h
      exact fun _ _ htag => htag
  | pushTag tag object =>
      obtain ⟨remote, hpush, rfl⟩ := Option.map_eq_some_iff.1 h
      exact (pushTag_spec hpush).1
  | start run trigger =>
      rw [step] at h
      split at h
      · cases h
        exact .refl _
      · cases h
  | advance run action =>
      rw [step] at h
      split at h
      · cases h
      · obtain ⟨⟨remote, state⟩, hrun, rfl⟩ := Option.map_eq_some_iff.1 h
        exact (runStep_spec hrun).tagsKept

theorem Inv.step {s s' : State Commit} {a : Action Commit} (hinv : Inv project s)
    (hsteady : Steady project s a) (h : step project s a = some s') : Inv project s' := by
  have hkept := step_tagsKept h
  cases a with
  | move branch c =>
      cases h
      exact ⟨hinv.provenance.of_eq rfl rfl hkept,
        fun r run hrun => (hinv.runs r run hrun).mono hkept⟩
  | pushTag tag object =>
      obtain ⟨remote, hpush, rfl⟩ := Option.map_eq_some_iff.1 h
      obtain ⟨-, -, hpypi, hreleases⟩ := pushTag_spec hpush
      exact ⟨hinv.provenance.of_eq hpypi hreleases hkept,
        fun r run hrun => (hinv.runs r run hrun).mono hkept⟩
  | start run trigger =>
      rw [Release.step] at h
      split at h
      · cases h
        exact ⟨hinv.provenance, runs_setRun (.refl _) hinv.runs (.start _ hsteady)⟩
      · cases h
  | advance run action =>
      rw [Release.step] at h
      split at h
      · cases h
      · rename_i state hstate
        obtain ⟨⟨remote, state'⟩, hrun, rfl⟩ := Option.map_eq_some_iff.1 h
        have hspec := runStep_spec hrun
        have hold := hinv.runs run state hstate
        have hagree : (∃ job, action = .checkout job) ∨ action = .finalizeCheckout →
            state.trigger.ref.mayMove = true → ∀ c, state.CheckedOut c →
              s.remote.resolve state.trigger.ref = some c := by
          intro haction
          rcases haction with ⟨job, rfl⟩ | rfl
          · exact hsteady state hstate
          · exact hsteady state hstate
        exact ⟨hspec.provenance hold hinv.provenance,
          runs_setRun hspec.tagsKept hinv.runs (hspec.runInv hold hagree)⟩

/-- In every history of steady steps everything that is published is built from its tag, and no tag
moves. -/
theorem release_provenance {s : State Commit} (hpublished : Provenance project s.remote)
    (hidle : ∀ run, s.runs run = none) {actions : List (Action Commit)}
    (hsteady : Along (Steady project) (step project) s actions) {before after : List (Action Commit)}
    (hactions : actions = before ++ after) {mid : State Commit}
    (hmid : exec (step project) s before = some mid) :
    Provenance project mid.remote ∧
      ∀ t, exec (step project) mid after = some t → TagsKept mid.remote t.remote := by
  have hinit : Inv project s := by
    refine ⟨hpublished, ?_⟩
    intro r run hrun
    rw [hidle r] at hrun
    cases hrun
  refine ⟨?_, ?_⟩
  · rw [hactions] at hsteady
    have hinv : Inv project mid :=
      exec_invariant_along (fun _ _ _ hinv hok h => hinv.step hok h) hinit hsteady.of_append hmid
    exact hinv.provenance
  · intro t ht
    exact exec_invariant (I := fun u => TagsKept mid.remote u.remote)
      (fun _ _ _ hkept h => hkept.trans (step_tagsKept h)) (.refl mid.remote) ht

/-! ## Runs of exact commits and of tags -/

theorem RunStep.trigger_eq {remote remote' : Remote Commit} {run run' : RunState Commit}
    {action : RunAction} (h : RunStep project remote run action remote' run') :
    run'.trigger = run.trigger := by
  cases h <;> rfl

/-- No run checks out a name that may move. -/
def Pinned (s : State Commit) : Prop :=
  ∀ r run, s.runs r = some run → run.trigger.ref.mayMove = false

omit [DecidableEq Commit] in
theorem Pinned.setRun {s : State Commit} {remote : Remote Commit} (h : Pinned s) {run : Nat}
    {new : RunState Commit} (hnew : new.trigger.ref.mayMove = false) :
    Pinned ({ s with remote := remote }.setRun run new) := by
  intro r state hstate
  by_cases hr : r = run
  · obtain rfl : new = state := Option.some.inj ((if_pos hr).symm.trans hstate)
    exact hnew
  · exact h r state ((if_neg hr).symm.trans hstate)

theorem Pinned.step {s s' : State Commit} {a : Action Commit} (hpinned : Pinned s)
    (hstart : ∀ run trigger, a = .start run trigger → trigger.ref.mayMove = false)
    (h : step project s a = some s') : Pinned s' := by
  cases a with
  | move branch c =>
      cases h
      exact hpinned
  | pushTag tag object =>
      obtain ⟨remote, -, rfl⟩ := Option.map_eq_some_iff.1 h
      exact hpinned
  | start run trigger =>
      rw [Release.step] at h
      split at h
      · cases h
        exact hpinned.setRun (hstart run trigger rfl)
      · cases h
  | advance run action =>
      rw [Release.step] at h
      split at h
      · cases h
      · rename_i state hstate
        obtain ⟨⟨remote, state'⟩, hrun, rfl⟩ := Option.map_eq_some_iff.1 h
        refine hpinned.setRun ?_
        rw [(runStep_spec hrun).trigger_eq]
        exact hpinned run state hstate

/-- The steps are steady when every run checks out an exact commit, as those of a synchronization do,
or a tag, however `main` moves. -/
theorem Pinned.steady {s : State Commit} (hpinned : Pinned s) {actions : List (Action Commit)}
    (hstart : ∀ run trigger, .start run trigger ∈ actions →
      trigger.ref.mayMove = false ∧ project.normalize trigger.releaseTag = trigger.releaseTag) :
    Along (Steady project) (Release.step project) s actions := by
  induction actions generalizing s with
  | nil => trivial
  | cons a actions ih =>
      have hmoves : ∀ run state, s.runs run = some state → state.trigger.ref.mayMove = true →
          ∀ c, state.CheckedOut c → s.remote.resolve state.trigger.ref = some c := by
        intro run state hstate hmove
        rw [hpinned run state hstate] at hmove
        cases hmove
      refine ⟨?_, ?_⟩
      · cases a with
        | start run trigger => exact (hstart run trigger List.mem_cons_self).2
        | advance run action =>
            cases action with
            | checkout job => exact hmoves run
            | finalizeCheckout => exact hmoves run
            | _ => trivial
        | _ => trivial
      · intro t ht
        refine ih (hpinned.step ?_ ht) ?_
        · rintro run trigger rfl
          exact (hstart run trigger List.mem_cons_self).1
        · intro run trigger hmem
          exact hstart run trigger (List.mem_cons_of_mem a hmem)

end Provenance

/-! ## A release while `main` moves -/

section Example

def releaseTag : Text := "v1.13.0".toList

def twoCommits : Project Nat where
  version _ := releaseTag
  normalize tag := tag
  files
    | _, .wheels .linuxX64 => ["manylinux_x86_64.whl".toList]
    | _, .wheels .linuxAarch64 => ["manylinux_aarch64.whl".toList]
    | _, .wheels .windowsX64 => ["win_amd64.whl".toList]
    | _, .wheels .windowsArm64 => ["win_arm64.whl".toList]
    | _, .wheels .macosX64 => ["macosx_x86_64.whl".toList]
    | _, .wheels .macosArm64 => ["macosx_arm64.whl".toList]
    | _, .sdist => ["tar.gz".toList]

def unpublished : State Nat where
  remote := ⟨fun b => if b = "main".toList then some 0 else none, fun _ => none, fun _ => none, []⟩
  runs _ := none

private theorem provenance_unpublished : Provenance twoCommits unpublished.remote :=
  ⟨nofun, nofun⟩

/-- A run that publishes its first file, where `main` moves to the second commit after the builds. -/
def releaseHistory (ref : Ref Nat) : List (Action Nat) :=
  .start 0 (.dispatch releaseTag ref) ::
    (BuildJob.all.flatMap fun job => [.advance 0 (.checkout job), .advance 0 (.build job)]) ++
    [.advance 0 .collect, .move "main".toList 1, .advance 0 .finalizeCheckout,
      .advance 0 .readVersion, .advance 0 .readTag, .advance 0 .readRelease, .advance 0 .readPypi,
      .advance 0 (.createTag 0), .advance 0 .beginPublish, .advance 0 .upload]

def published (actions : List (Action Nat)) : Option (List Nat × Option Nat) :=
  (exec (step twoCommits) unpublished actions).map fun s =>
    (s.remote.pypi.map Distribution.commit, (s.remote.tags releaseTag).map TagObject.commit)

private theorem start_mem_releaseHistory {ref : Ref Nat} {run : Nat} {trigger : Trigger Nat}
    (h : .start run trigger ∈ releaseHistory ref) : trigger = .dispatch releaseTag ref := by
  have heq : run = 0 ∧ trigger = .dispatch releaseTag ref := by simpa [releaseHistory] using h
  exact heq.2

/-- A run of the exact commit is steady while `main` moves. -/
theorem release_provenance_at_commit :
    ∃ s, exec (step twoCommits) unpublished (releaseHistory (.commit 0)) = some s ∧
      s.remote.pypi.map Distribution.commit = [0] ∧ Provenance twoCommits s.remote ∧
        ∀ t, exec (step twoCommits) s [.advance 0 .upload] = some t → TagsKept s.remote t.remote := by
  have hrun : published (releaseHistory (.commit 0)) = some ([0], some 0) := by decide +kernel
  obtain ⟨s, hs, heq⟩ := Option.map_eq_some_iff.1 hrun
  refine ⟨s, hs, (Prod.mk.inj heq).1, ?_⟩
  have hsteady : Along (Steady twoCommits) (step twoCommits) unpublished
      (releaseHistory (.commit 0) ++ [.advance 0 .upload]) := by
    refine Pinned.steady (fun r run hrun => by cases hrun) ?_
    intro run trigger hmem
    rcases List.mem_append.1 hmem with hmem | hmem
    · rw [start_mem_releaseHistory hmem]
      exact ⟨rfl, rfl⟩
    · cases List.mem_singleton.1 hmem
  exact release_provenance provenance_unpublished (fun _ => rfl) hsteady rfl hs

/-- A run of `main` builds its files from the first commit and tags the second. -/
theorem moved_branch_released : ∃ s,
    exec (step twoCommits) unpublished (releaseHistory (.branch "main".toList)) = some s ∧
      Provenance twoCommits unpublished.remote ∧ ¬ Provenance twoCommits s.remote := by
  have hrun : published (releaseHistory (.branch "main".toList)) = some ([0], some 1) := by
    decide +kernel
  obtain ⟨s, hs, heq⟩ := Option.map_eq_some_iff.1 hrun
  obtain ⟨hpypi, htag⟩ := Prod.mk.inj heq
  have hmem : 0 ∈ s.remote.pypi.map Distribution.commit := by
    rw [hpypi]
    exact List.mem_singleton_self 0
  refine ⟨s, hs, provenance_unpublished, ?_⟩
  intro hprov
  obtain ⟨d, hd, hcommit⟩ := List.mem_map.1 hmem
  have hbuilt := hprov.pypi d hd
  obtain ⟨object, hobject, hnames⟩ := hbuilt.tagged
  rw [← hbuilt.upstream] at hobject
  change s.remote.tags releaseTag = some object at hobject
  rw [hobject] at htag
  have hone : d.commit = 1 := hnames.symm.trans (Option.some.inj htag)
  rw [hcommit] at hone
  cases hone

end Example

end SingBoxPython.Release
