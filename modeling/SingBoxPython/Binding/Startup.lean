import SingBoxPython.Framework.Effect
import SingBoxPython.Binding.Registry

/-!
# Starting an instance

How errors and panics of the components travel from `Box.start` through the early `Close` in
`Box.Start`, `activateInstance` and `start` to the exported function.  A panic that a deferred
function recovers makes a Go function return its results as they stand: the zero value where they
are unnamed, whatever the deferred function assigns where they are named.
-/

namespace SingBoxPython.Binding
open Framework

inductive ComponentResult
  | nil
  | error (e : String)
  | panic (v : String)
  deriving DecidableEq

/-- A start or close step of a component; `cause` is the text that `E.Cause` puts before its error,
where the caller adds one. -/
structure ComponentStep where
  cause : Option String := none
  result : ComponentResult
  deriving DecidableEq

def ComponentStep.wrap (c : ComponentStep) (e : String) : String :=
  match c.cause with
  | some text => text ++ ": " ++ e
  | none => e

/-- A box: its component start steps in the order of `preStart` and `start`, and its component
close steps in the order of `Close`. -/
structure Box where
  startSteps : List ComponentStep
  closeSteps : List ComponentStep

/-- What a start can change.  `started` counts the component start steps that returned nil, `done`
says that the channel of that name is closed, `closes` counts the component close steps. -/
structure Startup where
  registry : Registry
  started : Nat := 0
  done : Bool := false
  closes : Nat := 0
  cancelled : Bool := false
  handleOut : Option Handle := none

/-- Go code over that state; an exception is a panic. -/
abbrev Go := Eff Startup String

/-- A deferred `recover()` in a function with an unnamed result. -/
def recoverZero {α : Type} (zero : α) (body : Go α) : Go α :=
  tryCatch body fun _ => pure zero

/-- A deferred `recover()` that assigns the named result. -/
def recoverAs {α : Type} (result : String → α) (body : Go α) : Go α :=
  tryCatch body fun v => pure (result v)

/-- The loops of `adapter.Start` and `adapter.StartNamed`, one after the other. -/
def runStarts : List ComponentStep → Go (Option String)
  | [] => pure none
  | c :: rest => do
      if (← get).cancelled then
        return some "context canceled"
      match c.result with
      | .nil =>
          modify fun s => { s with started := s.started + 1 }
          runStarts rest
      | .error e => return some (c.wrap e)
      | .panic v => throw v

def Box.start (b : Box) : Go (Option String) :=
  runStarts b.startSteps

/-- The component close steps, whose errors `E.Append` collects. -/
def runCloses : List ComponentStep → List String → Go (List String)
  | [], errs => pure errs
  | c :: rest, errs => do
      modify fun s => { s with closes := s.closes + 1 }
      match c.result with
      | .nil => runCloses rest errs
      | .error e => runCloses rest (errs ++ [c.wrap e])
      | .panic v => throw v

inductive CloseError
  | closed
  | failed (errs : List String)
  deriving DecidableEq

def Box.Close (b : Box) : Go (Option CloseError) := do
  if (← get).done then
    return some .closed
  modify fun s => { s with done := true }
  let errs ← runCloses b.closeSteps []
  return if errs = [] then none else some (.failed errs)

def Box.Start (b : Box) : Go (Option String) := do
  match ← b.start with
  | none => return none
  | some e =>
      recoverZero none do
        let _ ← b.Close
        return some e

def activateInstance (b : Box) : Go (Option String) := do
  match ← b.Start with
  | some e =>
      modify fun s => { s with cancelled := true }
      return some ("start sing-box service: " ++ e)
  | none => return none

def start (b : Box) (i : InstanceId) : Go (Except String Handle) := do
  match ← activateInstance b with
  | some e => return .error e
  | none =>
      let handle := nextHandle (← get).registry.next
      modify fun s => { s with registry := insertInstance s.registry i }
      return .ok handle

def singboxInstanceStartFromJson (b : Box) (i : InstanceId) : Go (Option String) :=
  recoverAs (fun v => some ("sing-box panicked during startup: " ++ v)) do
    match ← start b i with
    | .error e => return some e
    | .ok handle =>
        modify fun s => { s with handleOut := some handle }
        return none

def Box.firstFailure (b : Box) : Option ComponentStep :=
  b.startSteps.find? (·.result ≠ .nil)

def Box.closePanics (b : Box) : Prop :=
  ∃ c ∈ b.closeSteps, ∃ v, c.result = .panic v

private theorem exec_runStarts_cons (c : ComponentStep) (l : List ComponentStep) (s : Startup)
    (hs : s.cancelled = false) :
    (runStarts (c :: l)).exec s =
      match c.result with
      | .nil => (runStarts l).exec { s with started := s.started + 1 }
      | .error e => (.ok (some (c.wrap e)), s)
      | .panic v => (.error v, s) := by
  cases hc : c.result <;> simp [runStarts, Eff.exec_bind, hs, hc]

/-- In a live context the start steps run up to the first that does not return nil. -/
private theorem exec_runStarts (l : List ComponentStep) (s : Startup) (hs : s.cancelled = false) :
    ∃ n, (runStarts l).exec s =
      (match l.find? (·.result ≠ .nil) with
        | none => .ok none
        | some c =>
            match c.result with
            | .nil => .ok none
            | .error e => .ok (some (c.wrap e))
            | .panic v => .error v, { s with started := n }) := by
  induction l generalizing s with
  | nil => exact ⟨s.started, rfl⟩
  | cons c l ih =>
      rw [exec_runStarts_cons c l s hs]
      cases hc : c.result with
      | nil =>
          obtain ⟨n, hn⟩ := ih { s with started := s.started + 1 } hs
          exact ⟨n, by simpa [hc] using hn⟩
      | error e => exact ⟨s.started, by simp [hc]⟩
      | panic v => exact ⟨s.started, by simp [hc]⟩

/-- The close steps change nothing but their own count, and they come back unless one panics. -/
private theorem exec_runCloses (l : List ComponentStep) (errs : List String) (s : Startup) :
    ∃ n r, (runCloses l errs).exec s = (r, { s with closes := n }) ∧
      ((∃ v, r = .error v) ↔ ∃ c ∈ l, ∃ v, c.result = .panic v) := by
  induction l generalizing errs s with
  | nil => exact ⟨s.closes, .ok errs, rfl, by simp⟩
  | cons c l ih =>
      cases hc : c.result with
      | nil =>
          obtain ⟨n, r, hr, hp⟩ := ih errs { s with closes := s.closes + 1 }
          exact ⟨n, r, by simpa [runCloses, Eff.exec_bind, hc] using hr, by simp [hp, hc]⟩
      | error e =>
          obtain ⟨n, r, hr, hp⟩ := ih (errs ++ [c.wrap e]) { s with closes := s.closes + 1 }
          exact ⟨n, r, by simpa [runCloses, Eff.exec_bind, hc] using hr, by simp [hp, hc]⟩
      | panic v =>
          exact ⟨s.closes + 1, .error v, by simp [runCloses, Eff.exec_bind, hc], by simp [hc]⟩

private theorem exec_Close (b : Box) (s : Startup) (hs : s.done = false) :
    ∃ n r, b.Close.exec s = (r, { s with done := true, closes := n }) ∧
      ((∃ v, r = .error v) ↔ b.closePanics) := by
  obtain ⟨n, r, hr, hp⟩ := exec_runCloses b.closeSteps [] { s with done := true }
  cases r with
  | error v =>
      refine ⟨n, .error v, ?_, iff_of_true ⟨v, rfl⟩ (hp.1 ⟨v, rfl⟩)⟩
      simp [Box.Close, Eff.exec_bind, Eff.exec_map, hs, hr]
  | ok errs =>
      refine ⟨n, .ok (if errs = [] then none else some (.failed errs)), ?_, ?_⟩
      · simp [Box.Close, Eff.exec_bind, Eff.exec_map, hs, hr]
      · rw [Box.closePanics, ← hp]
        simp

section Start

variable {b : Box} {c : ComponentStep} {s : Startup}

theorem exec_Start_of_started (hf : b.firstFailure = none) (hs : s.cancelled = false) :
    ∃ n, b.Start.exec s = (.ok none, { s with started := n }) := by
  obtain ⟨n, hn⟩ := exec_runStarts b.startSteps s hs
  rw [Box.firstFailure] at hf
  rw [hf] at hn
  exact ⟨n, by rw [Box.Start, Eff.exec_bind, Box.start, hn]; rfl⟩

/-- After an error the box is closed, but the error is lost when the early close panics: the
deferred function recovers and the unnamed result is returned as nil. -/
theorem exec_Start_of_error {e : String} (hf : b.firstFailure = some c) (hc : c.result = .error e)
    (hs : s.cancelled = false) (hd : s.done = false) :
    ∃ n k r, b.Start.exec s = (.ok r, { s with started := n, done := true, closes := k }) ∧
      (r = none ↔ b.closePanics) := by
  obtain ⟨n, hn⟩ := exec_runStarts b.startSteps s hs
  rw [Box.firstFailure] at hf
  rw [hf] at hn
  simp only [hc] at hn
  obtain ⟨k, r, hr, hp⟩ := exec_Close b { s with started := n } hd
  cases r with
  | error v =>
      refine ⟨n, k, none, ?_, iff_of_true rfl (hp.1 ⟨v, rfl⟩)⟩
      simp [Box.Start, recoverZero, Eff.exec_bind, Eff.exec_map, Eff.exec_tryCatch, Box.start, hn, hr]
  | ok err =>
      refine ⟨n, k, some (c.wrap e), ?_, iff_of_false (by simp) fun h => by simpa using hp.2 h⟩
      simp [Box.Start, recoverZero, Eff.exec_bind, Eff.exec_map, Eff.exec_tryCatch, Box.start, hn, hr]

theorem exec_Start_of_panic {v : String} (hf : b.firstFailure = some c)
    (hc : c.result = .panic v) (hs : s.cancelled = false) :
    ∃ n, b.Start.exec s = (.error v, { s with started := n }) := by
  obtain ⟨n, hn⟩ := exec_runStarts b.startSteps s hs
  rw [Box.firstFailure] at hf
  rw [hf] at hn
  simp only [hc] at hn
  exact ⟨n, by rw [Box.Start, Eff.exec_bind, Box.start, hn]⟩

end Start

/-- What the exported function makes of each way `Box.Start` can come back. -/
theorem exec_singboxInstanceStartFromJson (b : Box) (i : InstanceId) (s : Startup) :
    (singboxInstanceStartFromJson b i).exec s =
      match b.Start.exec s with
      | (.ok none, t) =>
          (.ok none, { t with registry := insertInstance t.registry i,
                              handleOut := some (nextHandle t.registry.next) })
      | (.ok (some e), t) =>
          (.ok (some ("start sing-box service: " ++ e)), { t with cancelled := true })
      | (.error v, t) => (.ok (some ("sing-box panicked during startup: " ++ v)), t) := by
  rcases hb : b.Start.exec s with ⟨_ | _ | e, t⟩ <;>
    simp [singboxInstanceStartFromJson, recoverAs, start, activateInstance, Eff.exec_bind,
      Eff.exec_map, Eff.exec_tryCatch, hb]

def startRun (b : Box) (i : InstanceId) (r : Registry) : Except String (Option String) × Startup :=
  (singboxInstanceStartFromJson b i).exec { registry := r }

/-- No error is reported, and a handle is written under which the registry has the instance. -/
def StartSucceeded (b : Box) (i : InstanceId) (r : Registry) : Prop :=
  (startRun b i r).1 = .ok none ∧
    (startRun b i r).2.handleOut = some (nextHandle r.next) ∧
    (startRun b i r).2.registry = insertInstance r i

/-- An error is reported, no handle is written, the registry is as it was, and nothing is left
running: the context is cancelled and `Close` has been called on the box. -/
def StartUndone (b : Box) (i : InstanceId) (r : Registry) : Prop :=
  (∃ e, (startRun b i r).1 = .ok (some e)) ∧
    (startRun b i r).2.handleOut = none ∧
    (startRun b i r).2.registry = r ∧
    (startRun b i r).2.cancelled = true ∧ (startRun b i r).2.done = true

/-- A start reports success exactly when every start step returned nil, and any other start is
undone. -/
def StartAllOrNothing (b : Box) (i : InstanceId) (r : Registry) : Prop :=
  (StartSucceeded b i r ↔ ∀ c ∈ b.startSteps, c.result = .nil) ∧
    ((¬ ∀ c ∈ b.startSteps, c.result = .nil) → StartUndone b i r)

private theorem firstFailure_eq_none {b : Box} :
    b.firstFailure = none ↔ ∀ c ∈ b.startSteps, c.result = .nil := by
  simp [Box.firstFailure]

theorem firstFailure_result_ne_nil {b : Box} {c : ComponentStep} (h : b.firstFailure = some c) :
    c.result ≠ .nil := by
  simpa using List.find?_some h

/-- A start that succeeds although some start step did not return nil breaks the property. -/
private theorem not_startAllOrNothing_of_succeeded {b : Box} {i : InstanceId} {r : Registry}
    (h : StartSucceeded b i r) (hne : b.firstFailure ≠ none) : ¬ StartAllOrNothing b i r :=
  fun hall => hne (firstFailure_eq_none.2 (hall.1.1 h))

/-- The start of an instance is all-or-nothing exactly when every start step returns nil, or the
first that does not returns an error and no close step panics. -/
theorem startAllOrNothing_iff (b : Box) (i : InstanceId) (r : Registry) :
    StartAllOrNothing b i r ↔
      (∀ c ∈ b.startSteps, c.result = .nil) ∨
        (∃ c e, b.firstFailure = some c ∧ c.result = .error e) ∧ ¬ b.closePanics := by
  have hrun := exec_singboxInstanceStartFromJson b i { registry := r }
  rw [← firstFailure_eq_none]
  cases hf : b.firstFailure with
  | none =>
      obtain ⟨n, hn⟩ := exec_Start_of_started (s := { registry := r }) hf rfl
      rw [hn] at hrun
      have hok : StartSucceeded b i r := by
        simp only [StartSucceeded, startRun, hrun, and_self]
      have hnil := firstFailure_eq_none.1 hf
      exact iff_of_true ⟨iff_of_true hok hnil, fun h => absurd hnil h⟩ (.inl rfl)
  | some c =>
      have hsome : b.firstFailure ≠ none := by simp [hf]
      have hnil := mt firstFailure_eq_none.2 hsome
      cases hc : c.result with
      | nil => exact absurd hc (firstFailure_result_ne_nil hf)
      | error e =>
          obtain ⟨n, k, res, hres, hp⟩ := exec_Start_of_error (s := { registry := r }) hf hc rfl rfl
          rw [hres] at hrun
          cases res with
          | none =>
              have hok : StartSucceeded b i r := by
                simp only [StartSucceeded, startRun, hrun, and_self]
              exact iff_of_false (not_startAllOrNothing_of_succeeded hok hsome)
                (by simp [hp.1 rfl])
          | some msg =>
              have hundone : StartUndone b i r := by
                simp [StartUndone, startRun, hrun]
              have hno : ¬ StartSucceeded b i r := by
                simp [StartSucceeded, startRun, hrun]
              have hcloses : ¬ b.closePanics := fun h => nomatch hp.2 h
              exact iff_of_true ⟨iff_of_false hno hnil, fun _ => hundone⟩
                (.inr ⟨⟨c, e, rfl, hc⟩, hcloses⟩)
      | panic v =>
          obtain ⟨n, hn⟩ := exec_Start_of_panic (s := { registry := r }) hf hc rfl
          rw [hn] at hrun
          have hrunning : ¬ StartUndone b i r := by
            simp [StartUndone, startRun, hrun]
          exact iff_of_false (fun hall => hrunning (hall.2 hnil)) (by simp [hc])

def panicOnClose : Box := ⟨[⟨none, .error "bind"⟩], [⟨none, .panic "close"⟩]⟩

def panicOnStart : Box := ⟨[⟨none, .nil⟩, ⟨none, .panic "boom"⟩], []⟩

/-- The two ways a start goes wrong.  When the early close panics, no error is reported and the
box, of which no component was started, gets a handle.  When a start step panics, the error is
reported, but the components before it run on with a live context and without a handle. -/
theorem start_not_all_or_nothing :
    ((startRun panicOnClose 7 {}).1 = .ok none ∧
      (startRun panicOnClose 7 {}).2.handleOut = some 1 ∧
      (startRun panicOnClose 7 {}).2.registry.byID 1 = some 7 ∧
      (startRun panicOnClose 7 {}).2.started = 0) ∧
    ((startRun panicOnStart 7 {}).1 = .ok (some "sing-box panicked during startup: boom") ∧
      (startRun panicOnStart 7 {}).2.started = 1 ∧
      (startRun panicOnStart 7 {}).2.done = false ∧
      (startRun panicOnStart 7 {}).2.cancelled = false) := by
  decide

end SingBoxPython.Binding
