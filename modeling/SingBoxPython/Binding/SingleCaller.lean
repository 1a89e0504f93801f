import SingBoxPython.Binding.NativeCallers
import SingBoxPython.Binding.Shutdown
import SingBoxPython.Binding.Startup

/-!
# One caller at a time

The start with its component results and the stop with its component errors, each as a run of one
call of the registry that nobody interrupts.
-/

namespace SingBoxPython.Binding

section Start

variable {b : Box} {i : InstanceId} {c : CallId} {m : Shared}

private theorem callRun_insert (hquiet : Quiet m.registry) :
    callRun c (.startLock i) (List.replicate 3 (.ok false)) m =
      some ({ m with registry := insertInstance m.registry i },
        .returned (.handle (nextHandle m.registry.next))) := by
  simp [callRun, List.replicate, callStep, hquiet.writer, hquiet.readers, insertInstance]

structure StartMatches (b : Box) (i : InstanceId) (m m' : Shared) (r : Reply) : Prop where
  registry : m'.registry = (startRun b i m.registry).2.registry
  cancelled : (m'.heap i).cancelled = (startRun b i m.registry).2.cancelled
  done : (m'.heap i).done = (startRun b i m.registry).2.done
  others : ∀ j, j ≠ i → m'.heap j = m.heap j
  handle : ∀ h, r = .handle h ↔ (startRun b i m.registry).2.handleOut = some h
  error : r = .error ↔ ∃ e, (startRun b i m.registry).1 = .ok (some e)

/-- The start of a new instance, step by step as the registry has it, for every vector of component
results. -/
theorem exists_callRun_start (b : Box) (c : CallId) (hquiet : Quiet m.registry)
    (hnew : m.heap i = {}) :
    ∃ os m' r, callRun c (.activateInstance i) os m = some (m', .returned r) ∧
      StartMatches b i m m' r := by
  have hrun := exec_singboxInstanceStartFromJson b i { registry := m.registry }
  cases hf : b.firstFailure with
  | none =>
      obtain ⟨n, hn⟩ := exec_Start_of_started (s := { registry := m.registry }) hf rfl
      rw [hn] at hrun
      have hcall : callRun c (.activateInstance i) (.ok false :: List.replicate 3 (.ok false)) m = _ :=
        callRun_insert (m := m.setInstance i { m.heap i with v2rayStats := false }) hquiet
      refine ⟨_, _, _, hcall, ?_⟩
      constructor <;> simp_all [startRun]
  | some step =>
      cases hstep : step.result with
      | nil => exact absurd hstep (firstFailure_result_ne_nil hf)
      | error e =>
          obtain ⟨n, k, res, hres, hpanics⟩ :=
            exec_Start_of_error (s := { registry := m.registry }) hf hstep rfl rfl
          rw [hres] at hrun
          cases res with
          | none =>
              have hcall : callRun c (.activateInstance i)
                  (.error :: .panic :: .ok false :: List.replicate 3 (.ok false)) m = _ :=
                callRun_insert (m := (m.setInstance i (m.heap i).coreClose).setInstance i
                  { (m.setInstance i (m.heap i).coreClose).heap i with v2rayStats := false }) hquiet
              refine ⟨_, _, _, hcall, ?_⟩
              constructor <;> simp_all [startRun]
          | some message =>
              refine ⟨[.error, .error, .ok false], _, _, rfl, ?_⟩
              constructor <;> simp_all [startRun]
      | panic v =>
          obtain ⟨n, hn⟩ := exec_Start_of_panic (s := { registry := m.registry }) hf hstep rfl
          rw [hn] at hrun
          refine ⟨[.panic], _, _, rfl, ?_⟩
          constructor <;> simp_all [startRun]

end Start

/-! ## Stopping -/

/-- The instances of both models agree on what a stop reads and writes. -/
structure Represents (s : Service) (m : Shared) : Prop where
  registry : m.registry = s.registry
  closed : ∀ i, (m.heap i).closed = (s.heap i).closed
  cancelled : ∀ i, (m.heap i).cancelled = (s.heap i).cancelled
  done : ∀ i, (m.heap i).done = (s.heap i).core.done

section Stop

variable {s : Service} {m m' : Shared} {h : Handle} {i : InstanceId} {c : CallId}

private theorem callRun_append {p p' : NativeCall} {os os' : List Outcome}
    (hrun : callRun c p os m = some (m', p')) :
    callRun c p (os ++ os') m = callRun c p' os' m' := by
  induction os generalizing p m with
  | nil =>
      cases hrun
      rfl
  | cons o os ih =>
      obtain ⟨⟨m₁, p₁⟩, hstep, hrest⟩ := Option.bind_eq_some_iff.mp hrun
      rw [List.cons_append, callRun, hstep]
      exact ih hrest

private theorem callRun_delete (hquiet : Quiet m.registry) :
    ∃ p, callRun c (.stopLock h) (List.replicate 3 (.ok false)) m =
        some ({ m with registry := deleteEntry m.registry h }, p) ∧
      (m.registry.byID h = none → p = .returned .ok) ∧
      ∀ i, m.registry.byID h = some i → p = .closeLock i := by
  cases hentry : m.registry.byID h with
  | none =>
      refine ⟨.returned .ok, ?_, fun _ => rfl, fun i hi => ?_⟩
      · simp [callRun, List.replicate, callStep, hquiet.writer, hquiet.readers, hentry, deleteEntry]
      · cases hi
  | some i =>
      refine ⟨.closeLock i, ?_, fun hnone => ?_, fun j hj => ?_⟩
      · simp [callRun, List.replicate, callStep, hquiet.writer, hquiet.readers, hentry, deleteEntry]
      · cases hnone
      · cases hj
        rfl

private theorem callRun_close (o : Outcome) (hfree : (m.heap i).access = none)
    (hopen : (m.heap i).closed = false) :
    callRun c (.closeLock i) [.ok false, .ok false, .ok false, o] m =
      some (m.setInstance i
          { ({ m.heap i with access := some c, closed := true, cancelled := true } : Instance).coreClose
            with access := none },
        .returned o.reply) := by
  simp [callRun, callStep, hfree, hopen, Shared.setInstance]

private theorem callRun_closed (hfree : (m.heap i).access = none)
    (hclosed : (m.heap i).closed = true) :
    callRun c (.closeLock i) [.ok false, .ok false] m =
      some (m.setInstance i { m.heap i with access := none }, .returned .ok) := by
  simp [callRun, callStep, hfree, hclosed, Shared.setInstance]

private theorem close_done (core : Core) : core.close.2.done = true := by
  rw [Core.close]
  split
  · assumption
  · rfl

theorem Represents.set (hm : Represents s m) (r : Registry) {x : Instance} {y : Loaded}
    (hclosed : x.closed = y.closed) (hcancelled : x.cancelled = y.cancelled)
    (hdone : x.done = y.core.done) :
    Represents ⟨r, Function.update s.heap i y⟩
      (({ m with registry := r } : Shared).setInstance i x) := by
  refine ⟨rfl, fun j => ?_, fun j => ?_, fun j => ?_⟩
  all_goals
    simp only [Shared.setInstance_heap, Function.update_apply]
    split
  · exact hclosed
  · exact hm.closed j
  · exact hcancelled
  · exact hm.cancelled j
  · exact hdone
  · exact hm.done j

/-- A stop with any component errors, step by step as the registry has it. -/
theorem exists_callRun_stop (c : CallId) (h : Handle) (hquiet : Quiet m.registry)
    (hfree : ∀ i, (m.heap i).access = none) (hm : Represents s m) :
    ∃ os m' r, callRun c (.stopLock h) os m = some (m', .returned r) ∧
      Represents (stop s h).2 m' ∧ (r = .ok ↔ (stop s h).1 = none) := by
  obtain ⟨p, hdelete, hnone, hsome⟩ := callRun_delete (c := c) (h := h) hquiet
  have hrun : ∀ os, callRun c (.stopLock h) (List.replicate 3 (.ok false) ++ os) m = _ :=
    fun os => callRun_append hdelete
  rw [hm.registry] at hnone hsome hrun hdelete
  cases hentry : s.registry.byID h with
  | none =>
      obtain rfl := hnone hentry
      refine ⟨_, _, _, hdelete, ?_, ?_⟩
      · simp only [stop, hentry]
        exact ⟨rfl, hm.closed, hm.cancelled, hm.done⟩
      · simp [stop, hentry]
  | some i =>
      obtain rfl := hsome i hentry
      have hsame := hm.closed i
      cases hclosed : (s.heap i).closed with
      | true =>
          rw [hclosed] at hsame
          have hclose := callRun_closed (c := c)
            (m := { m with registry := deleteEntry s.registry h }) (hfree i) hsame
          refine ⟨_, _, _, (hrun _).trans hclose, ?_, ?_⟩
          · simp only [stop, hentry]
            refine hm.set _ ?_ ?_ ?_
            · simpa [closeInstance, hclosed] using hsame
            · simpa [closeInstance, hclosed] using hm.cancelled i
            · simpa [closeInstance, hclosed] using hm.done i
          · simp [stop, hentry, closeInstance, hclosed]
      | false =>
          rw [hclosed] at hsame
          have hclose := callRun_close (c := c)
            (m := { m with registry := deleteEntry s.registry h })
            (if (stop s h).1 = none then .ok false else .error) (hfree i) hsame
          refine ⟨_, _, _, (hrun _).trans hclose, ?_, ?_⟩
          · simp only [stop, hentry]
            refine hm.set _ ?_ ?_ ?_
            · simp [closeInstance, hclosed]
            · simp [closeInstance, hclosed]
            · simp [closeInstance, hclosed, close_done]
          · by_cases hnil : (stop s h).1 = none <;> simp [hnil, Outcome.reply]

end Stop

end SingBoxPython.Binding
