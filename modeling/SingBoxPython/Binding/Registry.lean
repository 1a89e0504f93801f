import Mathlib.Data.Finset.Basic
import Mathlib.Logic.Function.Basic
import SingBoxPython.Framework.Transition

/-!
# The Go instance registry

The exported functions of `singbox-go/binding/main.go` as one step function over the registry
`instances`, the allocated `*instance` values and the program counters of any number of
concurrent native calls.  Every lock operation is a step of its own; the statements between two
lock operations that touch shared memory run in one step together with the unlock.
-/

namespace SingBoxPython.Binding

abbrev CallId := Nat

abbrev InstanceId := Nat

def Handle := BitVec 64
  deriving DecidableEq

namespace Handle

def ofNat (n : Nat) : Handle :=
  BitVec.ofNat 64 n

def toNat (h : Handle) : Nat :=
  BitVec.toNat h

instance : Zero Handle := ⟨ofNat 0⟩

instance : One Handle := ⟨ofNat 1⟩

instance : Add Handle := ⟨fun a b => BitVec.add a b⟩

end Handle

/-- `instance`, without the fields that only feed the snapshot.  `done` says that the channel of that
name in the box is closed, and `coreCloses` counts the calls of `Box.Close` that got past it, whoever
made them; the two `Option`s are the holders of `access` and of the statistics service's own
`access`. -/
structure Instance where
  access : Option CallId := none
  statsAccess : Option CallId := none
  v2rayStats : Bool := false
  cancelled : Bool := false
  closed : Bool := false
  done : Bool := false
  coreCloses : Nat := 0

/-- `Box.Close` on the box of the instance: the components are closed unless `done` is. -/
def Instance.coreClose (x : Instance) : Instance :=
  if x.done then x else { x with done := true, coreCloses := x.coreCloses + 1 }

/-- `instances`.  A writer that has announced itself blocks new readers and waits for the active
ones, as Go's `sync.RWMutex` does; `issued` counts the entries ever inserted. -/
structure Registry where
  writer : Option CallId := none
  readers : Finset CallId := ∅
  next : Handle := 0
  byID : Handle → Option InstanceId := fun _ => none
  issued : Nat := 0

/-- What an exported function reports: a nil error, a nil error with the handle written to
`handleOut`, or an error string. -/
inductive Reply
  | ok
  | handle (h : Handle)
  | error
  deriving DecidableEq

inductive NativeCall
  | idle
  | buildInstance
  | activateInstance (i : InstanceId)
  | earlyClose (i : InstanceId)
  | startCancel (i : InstanceId)
  | adoptServices (i : InstanceId)
  | startLock (i : InstanceId)
  | startDrain (i : InstanceId)
  | startInsert (i : InstanceId)
  | stopLock (h : Handle)
  | stopDrain (h : Handle)
  | stopDelete (h : Handle)
  | closeLock (i : InstanceId)
  | closeCheck (i : InstanceId)
  | closeCancel (i : InstanceId)
  | closeCore (i : InstanceId)
  | queryDecode (h : Handle)
  | queryRLock (h : Handle)
  | queryLookup (h : Handle)
  | queryLock (i : InstanceId)
  | queryCheck (i : InstanceId)
  | queryRuntime (i : InstanceId)
  | queryStatsLock (i : InstanceId)
  | queryStatsLoop (i : InstanceId)
  | queryMarshal (i : InstanceId)
  | returned (r : Reply)
  deriving DecidableEq

structure Shared where
  registry : Registry := {}
  heap : InstanceId → Instance := fun _ => {}
  allocated : Nat := 0

/-- How a part of the call that this model does not open came back.  `ok v2ray` is a return
without an error; after `Box.Start` it says whether the context holds a V2Ray service. -/
inductive Outcome
  | ok (v2ray : Bool)
  | error
  | panic
  deriving DecidableEq

def Outcome.reply : Outcome → Reply
  | .ok _ => .ok
  | _ => .error

def Shared.setInstance (m : Shared) (i : InstanceId) (x : Instance) : Shared :=
  { m with heap := Function.update m.heap i x }

/-- `instances.next++`, once more when the counter wrapped to zero. -/
def nextHandle (next : Handle) : Handle :=
  if next + 1 = 0 then next + 1 + 1 else next + 1

/-- The critical section of `start`. -/
def insertInstance (r : Registry) (i : InstanceId) : Registry :=
  { r with writer := none, next := nextHandle r.next, issued := r.issued + 1,
           byID := Function.update r.byID (nextHandle r.next) (some i) }

/-- The critical section of `stop`. -/
def deleteEntry (r : Registry) (h : Handle) : Registry :=
  { r with writer := none, byID := Function.update r.byID h none }

def Registry.rUnlock (r : Registry) (c : CallId) : Registry :=
  { r with readers := r.readers.erase c }

/-- One step of the call `c` standing at the given place: the shared state after it and the next
place, or `none` where the call waits for a lock, has not begun or has returned. -/
def callStep (c : CallId) (place : NativeCall) (o : Outcome) (m : Shared) :
    Option (Shared × NativeCall) :=
  match place with
  | .idle => none
  | .returned _ => none
  -- start
  | .buildInstance =>
      match o with
      | .ok _ => some ({ m with allocated := m.allocated + 1 }, .activateInstance m.allocated)
      | _ => some (m, .returned .error)
  | .activateInstance i =>
      match o with
      | .ok v2ray => some (m.setInstance i { m.heap i with v2rayStats := v2ray }, .startLock i)
      | .error => some (m, .earlyClose i)
      -- A panic leaves `Box.Start` and `activateInstance` before `s.Close()` and `loaded.cancel()`.
      | .panic => some (m, .returned .error)
  | .earlyClose i =>
      match o with
      -- `Box.Start` recovers the panic and returns nil.
      | .panic => some (m.setInstance i (m.heap i).coreClose, .adoptServices i)
      | _ => some (m.setInstance i (m.heap i).coreClose, .startCancel i)
  | .startCancel i => some (m.setInstance i { m.heap i with cancelled := true }, .returned .error)
  | .adoptServices i =>
      match o with
      | .ok v2ray => some (m.setInstance i { m.heap i with v2rayStats := v2ray }, .startLock i)
      | _ => some (m, .returned .error)
  | .startLock i =>
      if m.registry.writer = none then
        some ({ m with registry := { m.registry with writer := some c } }, .startDrain i)
      else none
  | .startDrain i => if m.registry.readers = ∅ then some (m, .startInsert i) else none
  | .startInsert i =>
      some ({ m with registry := insertInstance m.registry i },
        .returned (.handle (nextHandle m.registry.next)))
  -- stop
  | .stopLock h =>
      if m.registry.writer = none then
        some ({ m with registry := { m.registry with writer := some c } }, .stopDrain h)
      else none
  | .stopDrain h => if m.registry.readers = ∅ then some (m, .stopDelete h) else none
  | .stopDelete h =>
      match m.registry.byID h with
      | none => some ({ m with registry := deleteEntry m.registry h }, .returned .ok)
      | some i => some ({ m with registry := deleteEntry m.registry h }, .closeLock i)
  -- closeInstance, whose deferred unlock runs on every exit
  | .closeLock i =>
      if (m.heap i).access = none then
        some (m.setInstance i { m.heap i with access := some c }, .closeCheck i)
      else none
  | .closeCheck i =>
      if (m.heap i).closed then
        some (m.setInstance i { m.heap i with access := none }, .returned .ok)
      else some (m.setInstance i { m.heap i with closed := true }, .closeCancel i)
  | .closeCancel i => some (m.setInstance i { m.heap i with cancelled := true }, .closeCore i)
  | .closeCore i =>
      some (m.setInstance i { (m.heap i).coreClose with access := none }, .returned o.reply)
  -- singbox_query_stats up to loadInstance
  | .queryDecode h =>
      match o with
      | .ok _ => some (m, .queryRLock h)
      | _ => some (m, .returned .error)
  | .queryRLock h =>
      if m.registry.writer = none then
        some ({ m with registry := { m.registry with readers := insert c m.registry.readers } },
          .queryLookup h)
      else none
  | .queryLookup h =>
      match m.registry.byID h with
      | none => some ({ m with registry := m.registry.rUnlock c }, .returned .error)
      | some i => some ({ m with registry := m.registry.rUnlock c }, .queryLock i)
  -- queryStatistics and StatsService.QueryStats, with their deferred unlocks
  | .queryLock i =>
      if (m.heap i).access = none then
        some (m.setInstance i { m.heap i with access := some c }, .queryCheck i)
      else none
  | .queryCheck i =>
      if (m.heap i).closed then
        some (m.setInstance i { m.heap i with access := none }, .returned .error)
      else some (m, .queryRuntime i)
  | .queryRuntime i =>
      match o with
      | .ok _ =>
          if (m.heap i).v2rayStats then some (m, .queryStatsLock i) else some (m, .queryMarshal i)
      | _ => some (m.setInstance i { m.heap i with access := none }, .returned .error)
  | .queryStatsLock i =>
      if (m.heap i).statsAccess = none then
        some (m.setInstance i { m.heap i with statsAccess := some c }, .queryStatsLoop i)
      else none
  | .queryStatsLoop i =>
      match o with
      | .ok _ => some (m.setInstance i { m.heap i with statsAccess := none }, .queryMarshal i)
      | _ =>
          some (m.setInstance i { m.heap i with statsAccess := none, access := none },
            .returned .error)
  | .queryMarshal i => some (m.setInstance i { m.heap i with access := none }, .returned o.reply)

structure Native where
  shared : Shared := {}
  calls : CallId → NativeCall := fun _ => .idle

def Native.enter (s : Native) (c : CallId) (place : NativeCall) : Native :=
  { s with calls := Function.update s.calls c place }

def nativeStep (s : Native) (c : CallId) (o : Outcome) : Option Native :=
  (callStep c (s.calls c) o s.shared).map fun r =>
    { shared := r.1, calls := Function.update s.calls c r.2 }

inductive NativeAction
  | start
  | stop (h : Handle)
  | query (h : Handle)
  | advance (o : Outcome)
  deriving DecidableEq

def NativeAction.entry : NativeAction → Option NativeCall
  | .start => some .buildInstance
  | .stop h => some (.stopLock h)
  | .query h => some (.queryDecode h)
  | .advance _ => none

/-- The registry under arbitrary native callers; each call identifier serves one call. -/
def registryStep (s : Native) : CallId × NativeAction → Option Native
  | (c, .advance o) => nativeStep s c o
  | (c, a) =>
      if s.calls c = .idle then a.entry.map (s.enter c) else none

end SingBoxPython.Binding
