import SingBoxPython.Binding.Registry

/-!
# The Python class over the registry

The class `SingBox` of `src/singbox.cpp` under any number of Python threads: the GIL, each
object's members and mutex, and the program counter of every method call and destructor.  A call
that is inside a native function carries the place of that function, so that the native side
moves by `callStep` and by nothing else.
-/

namespace SingBoxPython.Binding

abbrev ObjectId := Nat

/-- The members of a `SingBox`; `mutex` is the holder of `mutex_`.  `executing` are the methods
running on the object, each of which keeps a Python reference to it, and `destroyed` says that the
last reference is gone. -/
structure Object where
  mutex : Option CallId := none
  handle : Handle := 0
  operationInProgress : Bool := false
  executing : Finset CallId := ∅
  destroyed : Bool := false

inductive Operation
  | startFromJSON
  | stop
  | queryStats
  | running
  | handle
  | destructor
  deriving DecidableEq

inductive Ending
  | returned
  | raised
  deriving DecidableEq

/-- Where a call stands.  The handle is the local variable `handle` of the source. -/
inductive Phase
  | enter
  | encode
  | encodeYield
  | lock
  | first
  | release (h : Handle)
  | native (h : Handle) (p : NativeCall)
  | acquire (h : Handle) (r : Reply)
  | relock (h : Handle) (r : Reply)
  | second (h : Handle) (r : Reply)
  | decode (h : Handle)
  | decodeYield (h : Handle)
  | leave (h : Handle) (e : Ending)
  | done (h : Handle) (e : Ending)
  deriving DecidableEq

inductive Call
  | idle
  | active (op : Operation) (x : ObjectId) (phase : Phase)
  deriving DecidableEq

structure World where
  gil : Option CallId := none
  objects : ObjectId → Object := fun _ => {}
  shared : Shared := {}

def World.setObject (w : World) (x : ObjectId) (y : Object) : World :=
  { w with objects := Function.update w.objects x y }

/-- The end of a critical section on `mutex_`, which leaves the members as in `y`. -/
def World.unlock (w : World) (x : ObjectId) (y : Object) : World :=
  w.setObject x { y with mutex := none }

def Operation.entry (h : Handle) : Operation → NativeCall
  | .startFromJSON => .buildInstance
  | .queryStats => .queryDecode h
  | _ => .stopLock h

/-- One step of the call `c` of `op` on the object `x`.  Where the call runs Python code it may
instead give the GIL away (`yields`) and wait for it again. -/
def memberStep (c : CallId) (op : Operation) (x : ObjectId) (o : Outcome) (yields : Bool)
    (w : World) : Phase → Option (World × Phase)
  | .enter =>
      if w.gil = none then
        if op = .queryStats then some ({ w with gil := some c }, .encode)
        else some ({ w with gil := some c }, .lock)
      else none
  | .encode =>
      if yields then some ({ w with gil := none }, .encodeYield)
      else match o with
        | .ok _ => some (w, .lock)
        | _ => some (w, .leave 0 .raised)
  | .encodeYield => if w.gil = none then some ({ w with gil := some c }, .encode) else none
  | .lock =>
      if (w.objects x).mutex = none then
        some (w.setObject x { w.objects x with mutex := some c }, .first)
      else none
  | .first =>
      let y := w.objects x
      match op with
      | .startFromJSON =>
          if y.operationInProgress ∨ y.handle ≠ 0 then some (w.unlock x y, .leave 0 .raised)
          else some (w.unlock x { y with operationInProgress := true }, .release 0)
      | .stop =>
          if y.operationInProgress then some (w.unlock x y, .leave 0 .raised)
          else if y.handle = 0 then some (w.unlock x y, .leave 0 .returned)
          else some (w.unlock x { y with operationInProgress := true, handle := 0 },
            .release y.handle)
      | .queryStats =>
          if y.operationInProgress ∨ y.handle = 0 then some (w.unlock x y, .leave 0 .raised)
          else some (w.unlock x { y with operationInProgress := true }, .release y.handle)
      | .running | .handle => some (w.unlock x y, .leave 0 .returned)
      -- `stop_noexcept` keeps the GIL and sets no flag.
      | .destructor =>
          if y.handle = 0 ∨ y.operationInProgress then some (w.unlock x y, .leave 0 .returned)
          else some (w.unlock x { y with handle := 0 }, .native y.handle (.stopLock y.handle))
  | .release h => some ({ w with gil := none }, .native h (op.entry h))
  | .native h p =>
      match p with
      | .returned r =>
          if op = .destructor then some (w, .leave h .returned) else some (w, .acquire h r)
      | p =>
          match callStep c p o w.shared with
          | some (m, q) => some ({ w with shared := m }, .native h q)
          | none => none
  | .acquire h r => if w.gil = none then some ({ w with gil := some c }, .relock h r) else none
  | .relock h r =>
      if (w.objects x).mutex = none then
        some (w.setObject x { w.objects x with mutex := some c }, .second h r)
      else none
  | .second h r =>
      let y := { w.objects x with operationInProgress := false }
      match op, r with
      | .startFromJSON, .handle k => some (w.unlock x { y with handle := k }, .leave h .returned)
      -- `throw_if_error`
      | _, .error => some (w.unlock x y, .leave h .raised)
      | .queryStats, _ => some (w.unlock x y, .decode h)
      | _, _ => some (w.unlock x y, .leave h .returned)
  | .decode h =>
      if yields then some ({ w with gil := none }, .decodeYield h)
      else match o with
        | .ok _ => some (w, .leave h .returned)
        | _ => some (w, .leave h .raised)
  | .decodeYield h => if w.gil = none then some ({ w with gil := some c }, .decode h) else none
  | .leave h e =>
      some ({ w.setObject x { w.objects x with executing := (w.objects x).executing.erase c } with
        gil := none }, .done h e)
  | .done _ _ => none

/-- A call begins on the object: a method while somebody has a reference to it, the destructor
once no method is executing. -/
def Object.begin (c : CallId) (op : Operation) (x : Object) : Option Object :=
  if x.destroyed then none
  else if op = .destructor then
    if x.executing = ∅ then some { x with destroyed := true } else none
  else some { x with executing := insert c x.executing }

structure Process where
  world : World := {}
  calls : CallId → Call := fun _ => .idle

abbrev Process.put (s : Process) (c : CallId) (w : World) (call : Call) : Process :=
  { world := w, calls := Function.update s.calls c call }

inductive Action
  | call (op : Operation) (x : ObjectId)
  | advance (o : Outcome) (yields : Bool)
  deriving DecidableEq

/-- Any thread calls any operation on any object, or a call goes on. -/
def processStep (s : Process) : CallId × Action → Option Process
  | (c, .call op x) =>
      if s.calls c = .idle then
        ((s.world.objects x).begin c op).map fun y =>
          s.put c (s.world.setObject x y) (.active op x .enter)
      else none
  | (c, .advance o yields) =>
      match s.calls c with
      | .idle => none
      | .active op x phase =>
          (memberStep c op x o yields s.world phase).map fun r => s.put c r.1 (.active op x r.2)

end SingBoxPython.Binding
