import SingBoxPython.Binding.RegistrySafety
import SingBoxPython.Binding.Wrapper

/-!
# What one step of a method can do

The phases of a call, classified by what the call holds there, and the effect of one step on the
GIL, on the object and on the handles.
-/

namespace SingBoxPython.Binding
open Framework

@[simp] theorem World.setObject_gil (w : World) (x : ObjectId) (y : Object) :
    (w.setObject x y).gil = w.gil := rfl

@[simp] theorem World.setObject_shared (w : World) (x : ObjectId) (y : Object) :
    (w.setObject x y).shared = w.shared := rfl

@[simp] theorem World.setObject_objects (w : World) (x z : ObjectId) (y : Object) :
    (w.setObject x y).objects z = if z = x then y else w.objects z := by
  simp [setObject, Function.update_apply]

/-- The places that a native function called by `op` with the handle `h` can reach. -/
@[simp, grind =] def Operation.runs (op : Operation) (h : Handle) : NativeCall → Bool
  | .idle => false
  | .buildInstance | .activateInstance _ | .earlyClose _ | .startCancel _ | .adoptServices _
  | .startLock _ | .startDrain _ | .startInsert _
  | .returned (.handle _) => op = .startFromJSON
  | .stopLock k | .stopDrain k | .stopDelete k => (op = .stop || op = .destructor) && k = h
  | .closeLock _ | .closeCheck _ | .closeCancel _ | .closeCore _ => op = .stop || op = .destructor
  | .queryDecode k | .queryRLock k | .queryLookup k => op = .queryStats && k = h
  | .queryLock _ | .queryCheck _ | .queryRuntime _ | .queryStatsLock _ | .queryStatsLoop _
  | .queryMarshal _ => op = .queryStats
  | .returned .ok => op = .stop || op = .destructor || op = .queryStats
  | .returned .error => op = .startFromJSON || op = .stop || op = .destructor || op = .queryStats

@[simp, grind =] def Reply.started : Reply → Handle
  | handle h => h
  | _ => 0

@[simp, grind =] def NativeCall.startedHandle : NativeCall → Handle
  | returned r => r.started
  | _ => 0

@[simp, grind =] def NativeCall.takenHandle : NativeCall → Handle
  | stopLock h | stopDrain h | stopDelete h => h
  | _ => 0

namespace Phase

@[simp, grind =] def holdsGil (op : Operation) : Phase → Bool
  | encode | lock | first | release _ | relock _ _ | second _ _ | decode _ | leave _ _ => true
  | native _ _ => op = .destructor
  | _ => false

@[simp, grind =] def holdsMutex (_ : Operation) : Phase → Bool
  | first | second _ _ => true
  | _ => false

@[simp, grind =] def typed (op : Operation) : Phase → Bool
  | encode | encodeYield | decode _ | decodeYield _ => op = .queryStats
  | release h => op = .startFromJSON || (op = .stop || op = .queryStats) && h ≠ 0
  | native h p => op.runs h p
  | acquire h r | relock h r | second h r => op ≠ .destructor && op.runs h (.returned r)
  | _ => true

/-- A method that has not returned keeps the object alive. -/
@[simp, grind =] def executes (op : Operation) : Phase → Bool
  | done _ _ => false
  | _ => op ≠ .destructor

@[simp, grind =] def destroys (op : Operation) (_ : Phase) : Bool :=
  op = .destructor

/-- The call has set `operation_in_progress_` and not cleared it yet. -/
@[simp, grind =] def between (op : Operation) : Phase → Bool
  | release _ | native _ _ | acquire _ _ | relock _ _ | second _ _ => op ≠ .destructor
  | _ => false

/-- The call has seen to it that `handle_` is zero and it has to stay so. -/
@[simp, grind =] def cleared (op : Operation) : Phase → Bool
  | release _ | acquire _ _ | relock _ _ | second _ _ => op = .startFromJSON || op = .stop
  | native _ _ => op = .startFromJSON || op = .stop || op = .destructor
  | leave _ _ | done _ _ => op = .destructor
  | _ => false

/-- The handle that a native start has returned and that is not in the object yet. -/
@[simp, grind =] def started : Phase → Handle
  | native _ p => p.startedHandle
  | acquire _ r | relock _ r | second _ r => r.started
  | _ => 0

/-- The handle that was taken out of the object and whose entry is not deleted yet. -/
@[simp, grind =] def taken (op : Operation) : Phase → Handle
  | release h => if op = .stop then h else 0
  | native _ p => p.takenHandle
  | _ => 0

end Phase

section NativeStep

variable {m m' : Shared} {c : CallId} {o : Outcome} {p p' : NativeCall}

private theorem Outcome.reply_cases (o : Outcome) : o.reply = .ok ∨ o.reply = .error := by
  cases o <;> simp [reply]

@[simp, grind =] private theorem Outcome.reply_started (o : Outcome) : o.reply.started = 0 := by
  cases o <;> rfl

private theorem callStep_runs (h : callStep c p o m = some (m', p')) {op : Operation} {k : Handle}
    (hp : op.runs k p = true) : op.runs k p' = true := by
  have hreply := o.reply_cases
  revert h
  fun_cases callStep c p o m <;> rintro ⟨⟩ <;> grind -linarith

/-- The handle in an object and the ones that a call on it has started or taken. -/
structure Handles where
  object : Handle
  started : Handle
  taken : Handle

/-- How one step moves handles between the object, the call and the registry: not at all, out of
the object, into the object, or a new entry is made, or the entry of the taken one is deleted. -/
def HandleMove (r r' : Registry) (u v : Handles) : Prop :=
  (r'.byID = r.byID ∧ v = u) ∨
  (r'.byID = r.byID ∧ u.object ≠ 0 ∧ u.taken = 0 ∧
    v = { u with object := 0, taken := u.object }) ∨
  (r'.byID = r.byID ∧ u.object = 0 ∧ v = { u with object := u.started, started := 0 }) ∨
  (∃ i, r'.byID = Function.update r.byID (nextHandle r.next) (some i) ∧
    r'.issued = r.issued + 1 ∧ u.started = 0 ∧ v = { u with started := nextHandle r.next }) ∨
  (r'.byID = Function.update r.byID u.taken none ∧ v = { u with taken := 0 })

private theorem callStep_startedHandle (h : callStep c p o m = some (m', p')) :
    p'.startedHandle = if p.inserts then nextHandle m.registry.next else p.startedHandle := by
  revert h
  fun_cases callStep c p o m <;> rintro ⟨⟩ <;> grind -linarith

private theorem callStep_takenHandle (h : callStep c p o m = some (m', p')) :
    p'.takenHandle = if p.deletes then 0 else p.takenHandle := by
  revert h
  fun_cases callStep c p o m <;> rintro ⟨⟩ <;> grind -linarith

private theorem callStep_handles (h : callStep c p o m = some (m', p')) (y : Handle) :
    HandleMove m.registry m'.registry ⟨y, p.startedHandle, p.takenHandle⟩
      ⟨y, p'.startedHandle, p'.takenHandle⟩ := by
  rw [callStep_startedHandle h, callStep_takenHandle h, HandleMove, callStep_byID h]
  cases p with
  | startInsert i => exact .inr (.inr (.inr (.inl ⟨i, rfl, (callStep_next h).2, rfl, rfl⟩)))
  | _ => simp

end NativeStep

section Step

attribute [elab_as_elim] memberStep.fun_cases_unfolding

variable {c : CallId} {op : Operation} {x : ObjectId} {o : Outcome} {yields : Bool}
  {w w' : World} {ph ph' : Phase}

theorem memberStep_typed (h : memberStep c op x o yields w ph = some (w', ph'))
    (hph : ph.typed op = true) : ph'.typed op = true := by
  revert h
  fun_cases memberStep c op x o yields w ph <;> rintro ⟨⟩ <;>
    grind -linarith [callStep_runs, Operation.entry]

theorem memberStep_shared (h : memberStep c op x o yields w ph = some (w', ph')) :
    w'.shared = w.shared ∨
      ∃ k p p', ph = .native k p ∧ callStep c p o w.shared = some (w'.shared, p') ∧
        ph' = .native k p' := by
  revert h
  fun_cases memberStep c op x o yields w ph <;> rintro ⟨⟩
  all_goals first
    | exact .inl rfl
    | exact .inr ⟨_, _, _, rfl, ‹_›, rfl⟩

theorem memberStep_gil (h : memberStep c op x o yields w ph = some (w', ph'))
    (hph : ph.typed op = true) (hown : ph.holdsGil op = true → w.gil = some c) :
    w'.gil = if ph'.holdsGil op then some c
      else if ph.holdsGil op then none else w.gil := by
  revert h
  fun_cases memberStep c op x o yields w ph <;> rintro ⟨⟩ <;>
    grind -linarith [World.setObject_gil, World.unlock]

theorem memberStep_gil_free (h : memberStep c op x o yields w ph = some (w', ph'))
    (hph' : ph'.holdsGil op = true) : ph.holdsGil op = true ∨ w.gil = none := by
  revert h
  fun_cases memberStep c op x o yields w ph <;> rintro ⟨⟩ <;> grind -linarith

theorem memberStep_frame (h : memberStep c op x o yields w ph = some (w', ph')) {y : ObjectId}
    (hy : y ≠ x) : w'.objects y = w.objects y := by
  revert h
  fun_cases memberStep c op x o yields w ph <;> rintro ⟨⟩ <;> simp [World.unlock, hy]

theorem memberStep_mutex (h : memberStep c op x o yields w ph = some (w', ph'))
    (hown : ph.holdsMutex op = true → (w.objects x).mutex = some c) :
    (w'.objects x).mutex = if ph'.holdsMutex op then some c
      else if ph.holdsMutex op then none else (w.objects x).mutex := by
  revert h
  fun_cases memberStep c op x o yields w ph <;> rintro ⟨⟩ <;>
    grind -linarith [World.setObject_objects, World.unlock]

theorem memberStep_mutex_free (h : memberStep c op x o yields w ph = some (w', ph'))
    (hph' : ph'.holdsMutex op = true) : (w.objects x).mutex = none := by
  revert h
  fun_cases memberStep c op x o yields w ph <;> rintro ⟨⟩ <;> grind -linarith

theorem memberStep_destroyed (h : memberStep c op x o yields w ph = some (w', ph')) :
    (w'.objects x).destroyed = (w.objects x).destroyed := by
  revert h
  fun_cases memberStep c op x o yields w ph <;> rintro ⟨⟩ <;>
    grind -linarith [World.setObject_objects, World.unlock]

theorem memberStep_executing (h : memberStep c op x o yields w ph = some (w', ph')) (d : CallId) :
    d ∈ (w'.objects x).executing ↔
      d ∈ (w.objects x).executing ∧ (d = c → ∀ k e, ph ≠ .leave k e) := by
  revert h
  fun_cases memberStep c op x o yields w ph <;> rintro ⟨⟩ <;>
    grind -linarith [World.setObject_objects, World.unlock]

theorem memberStep_executes (h : memberStep c op x o yields w ph = some (w', ph')) :
    ph'.executes op = true ↔ ph.executes op = true ∧ ∀ k e, ph ≠ .leave k e := by
  revert h
  fun_cases memberStep c op x o yields w ph <;> rintro ⟨⟩ <;> grind -linarith

theorem memberStep_busy (h : memberStep c op x o yields w ph = some (w', ph'))
    (hph : ph.typed op = true) :
    (w'.objects x).operationInProgress =
      if ph'.between op = ph.between op then (w.objects x).operationInProgress
      else ph'.between op := by
  revert h
  fun_cases memberStep c op x o yields w ph <;> rintro ⟨⟩ <;>
    grind -linarith [World.setObject_objects, World.unlock]

theorem memberStep_busy_free (h : memberStep c op x o yields w ph = some (w', ph'))
    (hph' : ph'.between op = true) :
    ph.between op = true ∨ (w.objects x).operationInProgress = false := by
  revert h
  fun_cases memberStep c op x o yields w ph <;> rintro ⟨⟩ <;> grind -linarith

theorem memberStep_handles (h : memberStep c op x o yields w ph = some (w', ph'))
    (hph : ph.typed op = true) (hclear : ph.cleared op = true → (w.objects x).handle = 0) :
    HandleMove w.shared.registry w'.shared.registry
      ⟨(w.objects x).handle, ph.started, ph.taken op⟩
      ⟨(w'.objects x).handle, ph'.started, ph'.taken op⟩ := by
  revert h
  fun_cases memberStep c op x o yields w ph <;> rintro ⟨⟩
  -- A native step is `callStep_handles`; the rest is the bookkeeping of the critical sections.
  all_goals first
    | exact callStep_handles ‹_› _
    | solve | simp_all +zetaDelta [HandleMove, World.unlock]
    | solve | cases ‹Reply› <;> simp_all +zetaDelta [HandleMove, World.unlock]
    | cases ‹Operation› <;> simp_all [HandleMove, Operation.entry]

theorem memberStep_handle_zero (h : memberStep c op x o yields w ph = some (w', ph'))
    (hzero : (w.objects x).handle = 0) (hph : ph.typed op = true)
    (hout : ph.between op = false) : (w'.objects x).handle = 0 := by
  revert h
  fun_cases memberStep c op x o yields w ph <;> rintro ⟨⟩ <;>
    grind -linarith [World.setObject_objects, World.unlock]

theorem memberStep_cleared (h : memberStep c op x o yields w ph = some (w', ph'))
    (hph : ph.typed op = true) (hclear : ph.cleared op = true → (w.objects x).handle = 0)
    (hquiet : ph.destroys op = true → (w.objects x).operationInProgress = false)
    (hph' : ph'.cleared op = true) : (w'.objects x).handle = 0 := by
  revert h
  fun_cases memberStep c op x o yields w ph <;> rintro ⟨⟩ <;>
    grind -linarith [World.setObject_objects, World.unlock]

end Step

end SingBoxPython.Binding
