import SingBoxPython.Binding.Registry

/-!
# Stopping an instance

`Box.Close`, `closeInstance` and `stop` run by one caller, with the error values that the
components return.  `Box.Close` merges them into one error, which `closeInstance` puts to a single
`errors.Is` test.
-/

namespace SingBoxPython.Binding

inductive Sentinel
  | netErrClosed
  | osErrClosed
  deriving DecidableEq

/-- A Go error: a sentinel, any other error, an error wrapped by `E.Cause` or by `%w`, or the
multi-error of `E.Append`. -/
inductive GoError
  | sentinel (s : Sentinel)
  | other (text : String)
  | cause (message : String) (inner : GoError)
  | append (first second : GoError)
  deriving DecidableEq

/-- `errors.Is`, which looks into wrapped errors and into every member of a multi-error. -/
def GoError.is (target : Sentinel) : GoError → Bool
  | .sentinel s => s = target
  | .other _ => false
  | .cause _ inner => inner.is target
  | .append first second => first.is target || second.is target

/-- `E.Append` with a block that adds a cause. -/
def eAppend (err other : Option GoError) (message : String) : Option GoError :=
  match other, err with
  | none, _ => err
  | some e, none => some (.cause message e)
  | some e, some merged => some (.append merged (.cause message e))

structure CloseStep where
  name : String
  result : Option GoError
  deriving DecidableEq

/-- `Box`, as far as `Close` reads it.  `calls` is the history of the component `Close` calls. -/
structure Core where
  debugHTTPServer : Option (Option GoError) := none
  service : Option GoError := none
  inbound : Option GoError := none
  certificateProvider : Option GoError := none
  endpoint : Option GoError := none
  outbound : Option GoError := none
  router : Option GoError := none
  connection : Option GoError := none
  dnsRouter : Option GoError := none
  dnsTransport : Option GoError := none
  network : Option GoError := none
  httpClientService : Option CloseStep := none
  internalService : List CloseStep := []
  logFactory : Option GoError := none
  done : Bool := false
  calls : List String := []

def Core.closeSteps (core : Core) : List CloseStep :=
  (core.debugHTTPServer.map (CloseStep.mk "debug HTTP server")).toList ++
    [⟨"service", core.service⟩, ⟨"inbound", core.inbound⟩,
      ⟨"certificate-provider", core.certificateProvider⟩, ⟨"endpoint", core.endpoint⟩,
      ⟨"outbound", core.outbound⟩, ⟨"router", core.router⟩, ⟨"connection", core.connection⟩,
      ⟨"dns-router", core.dnsRouter⟩, ⟨"dns-transport", core.dnsTransport⟩,
      ⟨"network", core.network⟩] ++
    core.httpClientService.toList ++ core.internalService ++ [⟨"logger", core.logFactory⟩]

/-- Each step calls `Close` and appends its error under the cause `close` and the name. -/
def closeLoop : List CloseStep → Option GoError → List String → Option GoError × List String
  | [], err, calls => (err, calls)
  | step :: rest, err, calls =>
      closeLoop rest (eAppend err step.result ("close " ++ step.name)) (calls ++ [step.name])

def Core.close (core : Core) : Option GoError × Core :=
  if core.done then (some (.sentinel .osErrClosed), core)
  else
    ((closeLoop core.closeSteps none core.calls).1,
      { core with
        done := true
        debugHTTPServer := none
        calls := (closeLoop core.closeSteps none core.calls).2 })

/-- `instance`, as far as `closeInstance` reads it. -/
structure Loaded where
  closed : Bool := false
  cancelled : Bool := false
  core : Core := {}

def closeInstance (loaded : Loaded) : Option GoError × Loaded :=
  if loaded.closed then (none, loaded)
  else
    (match loaded.core.close.1 with
      | none => none
      | some err => if err.is .netErrClosed then none else some (.cause "stop sing-box service" err),
      { closed := true, cancelled := true, core := loaded.core.close.2 })

structure Service where
  registry : Registry := {}
  heap : InstanceId → Loaded := fun _ => {}

def stop (s : Service) (h : Handle) : Option GoError × Service :=
  match s.registry.byID h with
  | none => (none, { s with registry := deleteEntry s.registry h })
  | some i =>
      ((closeInstance (s.heap i)).1,
        { registry := deleteEntry s.registry h
          heap := Function.update s.heap i (closeInstance (s.heap i)).2 })

/-! ## What the merged error tells -/

private theorem closeLoop_error (steps : List CloseStep) (err : Option GoError)
    (calls : List String) :
    ((closeLoop steps err calls).1 = none ↔ err = none ∧ ∀ step ∈ steps, step.result = none) ∧
      ((∃ e, (closeLoop steps err calls).1 = some e ∧ e.is .netErrClosed = true) ↔
        (∃ e, err = some e ∧ e.is .netErrClosed = true) ∨
          ∃ step ∈ steps, ∃ e, step.result = some e ∧ e.is .netErrClosed = true) := by
  induction steps generalizing err calls with
  | nil => simp [closeLoop]
  | cons step steps ih =>
      obtain ⟨hnone, his⟩ := ih (eAppend err step.result ("close " ++ step.name))
        (calls ++ [step.name])
      rw [closeLoop, hnone, his]
      cases hr : step.result with
      | none => simp [eAppend, hr]
      | some e => cases err <;> simp [eAppend, hr, GoError.is, or_assoc]

private theorem closeLoop_calls (steps : List CloseStep) (err : Option GoError)
    (calls : List String) : (closeLoop steps err calls).2 = calls ++ steps.map CloseStep.name := by
  induction steps generalizing err calls with
  | nil => simp [closeLoop]
  | cons step steps ih => rw [closeLoop, ih, List.map_cons, List.append_assoc, List.singleton_append]

/-! ## What a stop should do -/

/-- The components in the order in which they have to be closed. -/
def Core.components (core : Core) : List String :=
  (core.debugHTTPServer.map fun _ => "debug HTTP server").toList ++
    ["service", "inbound", "certificate-provider", "endpoint", "outbound", "router", "connection",
      "dns-router", "dns-transport", "network"] ++
    core.httpClientService.toList.map CloseStep.name ++ core.internalService.map CloseStep.name ++
    ["logger"]

def Core.results (core : Core) : List (Option GoError) :=
  core.debugHTTPServer.toList ++
    [core.service, core.inbound, core.certificateProvider, core.endpoint, core.outbound,
      core.router, core.connection, core.dnsRouter, core.dnsTransport, core.network] ++
    core.httpClientService.toList.map CloseStep.result ++
    core.internalService.map CloseStep.result ++ [core.logFactory]

/-- The result wraps `net.ErrClosed`. -/
def Harmless (result : Option GoError) : Prop :=
  ∃ e, result = some e ∧ e.is .netErrClosed = true

def Fails (result : Option GoError) : Prop :=
  ∃ e, result = some e ∧ e.is .netErrClosed = false

/-- A stop of the instance `i` under the handle `h` calls `Close` of every component once more, in
order, removes the handle, and returns nil exactly when no component fails. -/
structure StopReports (s : Service) (h : Handle) (i : InstanceId) : Prop where
  calls : ((stop s h).2.heap i).core.calls = (s.heap i).core.calls ++ (s.heap i).core.components
  removed : (stop s h).2.registry.byID h = none
  reported : (stop s h).1 = none ↔ ∀ result ∈ (s.heap i).core.results, ¬ Fails result

private theorem map_name_closeSteps (core : Core) :
    core.closeSteps.map CloseStep.name = core.components := by
  cases h : core.debugHTTPServer <;> simp [Core.closeSteps, Core.components, h]

private theorem map_result_closeSteps (core : Core) :
    core.closeSteps.map CloseStep.result = core.results := by
  cases h : core.debugHTTPServer <;> simp [Core.closeSteps, Core.results, h]

private theorem result_eq_none_iff (result : Option GoError) :
    result = none ↔ ¬ Harmless result ∧ ¬ Fails result := by
  cases result with
  | none => simp [Harmless, Fails]
  | some e => cases he : e.is .netErrClosed <;> simp [Harmless, Fails, he]

section Stop

variable {s : Service} {h : Handle} {i : InstanceId} (hreg : s.registry.byID h = some i)
  (hopen : (s.heap i).closed = false) (hdone : (s.heap i).core.done = false)
include hreg hopen hdone

/-- A stop returns nil when every component closed without an error, and also as soon as one of
them reports a closed connection. -/
private theorem stop_eq_none_iff :
    (stop s h).1 = none ↔
      (∀ result ∈ (s.heap i).core.results, result = none) ∨
        ∃ result ∈ (s.heap i).core.results, Harmless result := by
  obtain ⟨hnone, his⟩ := closeLoop_error (s.heap i).core.closeSteps none (s.heap i).core.calls
  have hstop : (stop s h).1 = (closeInstance (s.heap i)).1 := by
    simp only [stop, hreg]
  have hclose : (s.heap i).core.close.1 =
      (closeLoop (s.heap i).core.closeSteps none (s.heap i).core.calls).1 := by
    simp [Core.close, hdone]
  rw [hstop, closeInstance, hopen, if_neg Bool.false_ne_true, hclose, ← map_result_closeSteps]
  simp only [List.mem_map, forall_exists_index, and_imp, forall_apply_eq_imp_iff₂,
    exists_exists_and_eq_and]
  cases hmerged : (closeLoop (s.heap i).core.closeSteps none (s.heap i).core.calls).1 with
  | none =>
      have hall := (hnone.1 hmerged).2
      exact iff_of_true rfl (.inl hall)
  | some err =>
      have hsome : ¬ ∀ step ∈ (s.heap i).core.closeSteps, step.result = none := by
        intro hall
        rw [hnone.2 ⟨rfl, hall⟩] at hmerged
        cases hmerged
      rw [hmerged] at his
      simp only [Option.some.injEq, exists_eq_left', reduceCtorEq, false_and, exists_false,
        false_or] at his
      cases hclosed : err.is .netErrClosed with
      | true => simpa [hclosed, Harmless] using Or.inr (his.1 hclosed)
      | false =>
          have hno : ¬ ∃ step ∈ (s.heap i).core.closeSteps, Harmless step.result := fun hstep =>
            absurd (his.2 hstep) (by rw [hclosed]; exact Bool.false_ne_true)
          simp [hclosed, hsome, hno]

private theorem stop_calls :
    ((stop s h).2.heap i).core.calls = (s.heap i).core.calls ++ (s.heap i).core.components := by
  simp [stop, hreg, closeInstance, hopen, Core.close, hdone, closeLoop_calls, map_name_closeSteps]

end Stop

/-- Stopping an open instance reports its failures exactly when no failure comes together with a
component that reports a closed connection. -/
theorem stopReports_iff {s : Service} {h : Handle} {i : InstanceId}
    (hreg : s.registry.byID h = some i) (hopen : (s.heap i).closed = false)
    (hdone : (s.heap i).core.done = false) :
    StopReports s h i ↔
      (∀ result ∈ (s.heap i).core.results, ¬ Harmless result) ∨
        ∀ result ∈ (s.heap i).core.results, ¬ Fails result := by
  have hnil := stop_eq_none_iff hreg hopen hdone
  constructor
  · intro hreports
    by_contra hboth
    push Not at hboth
    obtain ⟨⟨closed, hclosed, hharmless⟩, failed, hfailed, hfails⟩ := hboth
    have hstop := hnil.2 (.inr ⟨closed, hclosed, hharmless⟩)
    exact hreports.reported.1 hstop failed hfailed hfails
  · intro hcond
    refine ⟨stop_calls hreg hopen hdone, ?_, hnil.trans ?_⟩
    · simp [stop, hreg, deleteEntry]
    · constructor
      · rintro (hall | ⟨closed, hclosed, hharmless⟩)
        · exact fun result hresult => ((result_eq_none_iff result).1 (hall result hresult)).2
        · exact hcond.resolve_left fun hno => hno closed hclosed hharmless
      · intro hno
        by_cases hclosed : ∃ result ∈ (s.heap i).core.results, Harmless result
        · exact .inr hclosed
        · push Not at hclosed
          exact .inl fun result hresult =>
            (result_eq_none_iff result).2 ⟨hclosed result hresult, hno result hresult⟩

def mixedService : Service where
  registry := { byID := fun h => if h = 1 then some 0 else none }
  heap := fun _ =>
    { core := { inbound := some (.sentinel .netErrClosed), network := some (.other "bad fd") } }

theorem stopReports_iff_at_mixedService :
    StopReports mixedService 1 0 ↔
      (∀ result ∈ (mixedService.heap 0).core.results, ¬ Harmless result) ∨
        ∀ result ∈ (mixedService.heap 0).core.results, ¬ Fails result :=
  stopReports_iff (by decide) rfl rfl

/-- The failure of the network is not reported. -/
theorem stop_swallows_failure :
    (stop mixedService 1).1 = none ∧
      ⟨"network", some (.other "bad fd")⟩ ∈ (mixedService.heap 0).core.closeSteps ∧
      (stop mixedService 1).2.registry.byID 1 = none := by
  decide

end SingBoxPython.Binding
