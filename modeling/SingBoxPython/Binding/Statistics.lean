import Mathlib.Data.Int.ModEq
import SingBoxPython.Framework.Text
import SingBoxPython.Binding.RegistrySafety

/-!
# V2Ray statistics

The counters of `experimental/v2rayapi/stats.go` under the native calls of the registry.  The loop
of `StatsService.QueryStats` is opened: each visit of a counter is a step of its own, between which
connections add to the counters without any lock.  Everything else a native call does is a step of
the registry model.
-/

namespace SingBoxPython.Binding
open Framework

abbrev CounterName := Text

/-- The sum of two values of an `atomic.Int64`, which wraps around. -/
def addInt64 (a b : Int) : Int :=
  Int.bmod (a + b) (2 ^ 64)

structure QueryRequest where
  patterns : List CounterName := []
  reset : Bool := false
  regexp : Bool := false
  deriving DecidableEq

structure Stat where
  name : CounterName
  value : Int
  deriving DecidableEq

/-- `counters`, a map from names to counters; `value` is read at the names of the map only. -/
structure CounterMap where
  names : List CounterName
  value : CounterName → Int
  nodup : names.Nodup

def CounterMap.empty : CounterMap :=
  ⟨[], fun _ => 0, List.nodup_nil⟩

/-- The local variables of a query: the visits of its loop that lie ahead, where the loop has
begun, and the response collected so far. -/
structure Query where
  request : QueryRequest := {}
  pending : Option (List CounterName) := none
  response : List Stat := []

structure Report where
  target : InstanceId
  reset : Bool
  counters : List Stat

/-- The native side with the counters of every instance and the local variables of every query.
`additions` and `reports` are the histories of what was added and returned. -/
structure Statistics where
  native : Native := {}
  counters : InstanceId → CounterMap := fun _ => .empty
  queries : CallId → Query := fun _ => {}
  additions : List (InstanceId × Stat) := []
  reports : List Report := []

namespace CounterMap

def loadOrCreateCounter (m : CounterMap) (name : CounterName) : CounterMap :=
  if h : name ∈ m.names then m
  else
    { names := m.names ++ [name]
      value := Function.update m.value name 0
      nodup := List.nodup_append_comm.2 (List.nodup_cons.2 ⟨h, m.nodup⟩) }

def add (m : CounterMap) (name : CounterName) (n : Int) : CounterMap :=
  { m with value := Function.update m.value name (addInt64 (m.value name) n) }

/-- `counter.Swap(0)`, as far as the counter is concerned. -/
def swap (m : CounterMap) (name : CounterName) : CounterMap :=
  { m with value := Function.update m.value name 0 }

end CounterMap

/-- `sort.Slice` by name.  It is not stable, so it may leave entries of one name in any order.  Go
compares the bytes, which for UTF-8 is the order of the code points. -/
structure SortSlice where
  sort : List Stat → List Stat
  perm : ∀ stats, (sort stats).Perm stats
  sorted : ∀ stats, (sort stats).Pairwise fun a b => Text.lt b.name a.name = false

/-- One such order. -/
def sortStats (stats : List Stat) : List Stat :=
  stats.insertionSort fun a b => Text.lt b.name a.name = false

theorem sortStats_perm (stats : List Stat) : (sortStats stats).Perm stats :=
  List.perm_insertionSort _ _

theorem sortStats_pairwise (stats : List Stat) :
    (sortStats stats).Pairwise fun a b => Text.lt b.name a.name = false := by
  have htotal : Std.Total fun a b : Stat => Text.lt b.name a.name = false :=
    ⟨fun a b => by
      cases h : Text.lt b.name a.name with
      | false => exact .inl rfl
      | true => exact .inr (Text.lt_asymm h)⟩
  have htrans : IsTrans Stat fun a b => Text.lt b.name a.name = false :=
    ⟨fun _ _ _ hab hbc => Text.not_lt_trans hab hbc⟩
  exact List.pairwise_insertionSort _ _

section Step

-- `compile` is `regexp.Compile`: the matcher of a pattern, or `none` where it is not well formed.
variable (compile : CounterName → Option (CounterName → Bool))

/-- The visits of the loop over the counters in the given order, once for each pattern that
matches; `none` where a pattern does not compile. -/
def visits (r : QueryRequest) (order : List CounterName) : Option (List CounterName) :=
  if r.patterns = [] then some order
  else if r.regexp then
    (r.patterns.mapM compile).map fun matchers =>
      order.flatMap fun name => (matchers.filter fun m => m name).map fun _ => name
  else
    some (order.flatMap fun name =>
      (r.patterns.filter fun p => decide (p <:+: name)).map fun _ => name)

def Statistics.setNative (s : Statistics) (n : Native) : Statistics :=
  { s with native := n }

def Statistics.setQuery (s : Statistics) (c : CallId) (q : Query) : Statistics :=
  { s with queries := Function.update s.queries c q }

def Statistics.setCounters (s : Statistics) (i : InstanceId) (m : CounterMap) : Statistics :=
  { s with counters := Function.update s.counters i m }

def Statistics.reply (s : Statistics) (c : CallId) (i : InstanceId) (n : Native) : Statistics :=
  { s with
    native := n
    reports := s.reports ++ [⟨i, (s.queries c).request.reset, sortStats (s.queries c).response⟩] }

/-- A step outside the loop.  The loop is left when no visit lies ahead, and `stdjson.Marshal` of
names and numbers does not fail, so these two steps have no other outcome. -/
def Statistics.advance (s : Statistics) (c : CallId) (o : Outcome) : Option Statistics :=
  match s.native.calls c with
  | .queryStatsLoop _ =>
      if (s.queries c).pending = some [] then
        (nativeStep s.native c (.ok true)).map s.setNative
      else none
  | .queryMarshal i => (nativeStep s.native c (.ok true)).map (s.reply c i)
  | _ => (nativeStep s.native c o).map s.setNative

/-- The patterns are compiled and the loop begins; the map hands out its names in any order.  The
query is left with an error where a pattern does not compile. -/
def Statistics.beginLoop (s : Statistics) (c : CallId) (order : List CounterName) :
    Option Statistics :=
  match s.native.calls c with
  | .queryStatsLoop i =>
      if (s.queries c).pending = none ∧ order.Perm (s.counters i).names then
        match visits compile (s.queries c).request order with
        | none => (nativeStep s.native c .error).map s.setNative
        | some ahead => some (s.setQuery c { s.queries c with pending := some ahead })
      else none
  | _ => none

def Query.visited (q : Query) (name : CounterName) (value : Int) (ahead : List CounterName) :
    Query :=
  { q with pending := some ahead, response := q.response ++ [⟨name, value⟩] }

def Statistics.visit (s : Statistics) (c : CallId) (i : InstanceId) (name : CounterName)
    (ahead : List CounterName) : Statistics :=
  if (s.queries c).request.reset then
    (s.setQuery c ((s.queries c).visited name ((s.counters i).value name) ahead)).setCounters
      i ((s.counters i).swap name)
  else s.setQuery c ((s.queries c).visited name ((s.counters i).value name) ahead)

def Statistics.visitNext (s : Statistics) (c : CallId) : Option Statistics :=
  match s.native.calls c, (s.queries c).pending with
  | .queryStatsLoop i, some (name :: ahead) => some (s.visit c i name ahead)
  | _, _ => none

inductive StatsAction
  | start
  | stop (h : Handle)
  | query (h : Handle) (r : QueryRequest)
  | advance (o : Outcome)
  | beginLoop (order : List CounterName)
  | visit

/-- A call takes a step, a new connection creates a counter, or a connection adds to one. -/
inductive StatsEvent
  | call (c : CallId) (a : StatsAction)
  | create (i : InstanceId) (name : CounterName)
  | add (i : InstanceId) (name : CounterName) (n : Int)

def statsStep (s : Statistics) : StatsEvent → Option Statistics
  | .call c .start => (registryStep s.native (c, .start)).map s.setNative
  | .call c (.stop h) => (registryStep s.native (c, .stop h)).map s.setNative
  | .call c (.query h r) =>
      (registryStep s.native (c, .query h)).map fun n => (s.setNative n).setQuery c { request := r }
  | .call c (.advance o) => s.advance c o
  | .call c (.beginLoop order) => s.beginLoop compile c order
  | .call c .visit => s.visitNext c
  -- `loadOrCreateCounter` runs under the lock of the statistics service
  | .create i name =>
      if (s.native.shared.heap i).statsAccess = none then
        some (s.setCounters i ((s.counters i).loadOrCreateCounter name))
      else none
  | .add i name n =>
      if name ∈ (s.counters i).names then
        some { s.setCounters i ((s.counters i).add name n) with
               additions := s.additions ++ [(i, ⟨name, n⟩)] }
      else none

end Step

end SingBoxPython.Binding
