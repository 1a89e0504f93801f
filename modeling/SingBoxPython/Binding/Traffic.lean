import Mathlib.Algebra.BigOperators.Group.List.Basic
import SingBoxPython.Binding.Statistics

/-!
# Conservation of traffic

What was added to a counter is, at any moment, what reset queries have returned for it, what the
reset query that is running has collected, and what the counter still holds.
-/

namespace SingBoxPython.Binding
open Framework

def total (name : CounterName) (stats : List Stat) : Int :=
  ((stats.filter fun x => x.name = name).map Stat.value).sum

@[simp] private theorem total_nil (name : CounterName) : total name [] = 0 := rfl

theorem total_append (name : CounterName) (xs ys : List Stat) :
    total name (xs ++ ys) = total name xs + total name ys := by
  simp [total]

theorem total_singleton (name : CounterName) (x : Stat) :
    total name [x] = if x.name = name then x.value else 0 := by
  by_cases h : x.name = name <;> simp [total, h]

private theorem total_sortStats (name : CounterName) (stats : List Stat) :
    total name (sortStats stats) = total name stats := by
  exact (((sortStats_perm stats).filter _).map _).sum_eq

/-- What a reset query has taken out of the named counter so far. -/
def Query.collected (q : Query) (name : CounterName) : Int :=
  if q.request.reset then total name q.response else 0

@[simp] private theorem Query.collected_of_nil {q : Query} (h : q.response = [])
    (name : CounterName) : q.collected name = 0 := by
  simp [Query.collected, h]

/-- What the reset query of the instance that is still running has collected; a query holds the
instance's `access` from its first visit to its return. -/
def inFlight (s : Statistics) (i : InstanceId) (name : CounterName) : Int :=
  match (s.native.shared.heap i).access with
  | some c => (s.queries c).collected name
  | none => 0

/-- The sum of the values that successful reset queries have returned for the counter. -/
def reported (s : Statistics) (i : InstanceId) (name : CounterName) : Int :=
  ((s.reports.filter fun r => r.target = i && r.reset).map fun r => total name r.counters).sum

def added (s : Statistics) (i : InstanceId) (name : CounterName) : Int :=
  total name ((s.additions.filter fun a => a.1 = i).map Prod.snd)

namespace NativeCall

/-- The places at which a query may have a response: from its loop on, unless it fails. -/
@[simp, grind =] def gathers : NativeCall → Bool
  | queryStatsLoop _ | queryMarshal _ | returned .ok => true
  | _ => false

end NativeCall

/-- The invariant of the counters: only a query in its loop or behind it has a response, and
nothing is lost. -/
structure StatsInv (s : Statistics) : Prop where
  native : NativeInv s.native
  gathered : ∀ c, (s.queries c).response ≠ [] → (s.native.calls c).gathers = true
  unbegun : ∀ c, (s.queries c).pending = none → (s.queries c).response = []
  absent : ∀ i name, name ∉ (s.counters i).names → (s.counters i).value name = 0
  conserved : ∀ i name,
    Int.ModEq (2 ^ 64) (reported s i name + inFlight s i name + (s.counters i).value name)
      (added s i name)

section Steps

variable {s : Statistics} {n : Native} {c : CallId} {o : Outcome} {i : InstanceId}

private theorem inFlight_setQuery (s : Statistics) (c : CallId) (q : Query) (i : InstanceId)
    (name : CounterName) :
    inFlight (s.setQuery c q) i name =
      if (s.native.shared.heap i).access = some c then q.collected name else inFlight s i name := by
  unfold inFlight Statistics.setQuery
  cases ha : (s.native.shared.heap i).access with
  | none => simp
  | some d => by_cases hd : d = c <;> simp [hd]

/-- A step of a call without a response leaves what is in flight alone, for it is the only call
whose lock changes hands. -/
private theorem inFlight_nativeStep (hs : NativeInv s.native) (h : nativeStep s.native c o = some n)
    (hc : (s.queries c).response = [] ∨ (n.calls c).accessOf = (s.native.calls c).accessOf)
    (i : InstanceId) (name : CounterName) :
    inFlight (s.setNative n) i name = inFlight s i name := by
  obtain ⟨m, p, hstep, rfl⟩ := nativeStep_eq_some.mp h
  have haccess := callStep_access hstep (fun j hj => (hs.owns.access j c).mpr hj) i
  have howner := hs.owns.access i c
  simp only [Function.update_self] at hc
  unfold inFlight Statistics.setNative
  rw [haccess]
  by_cases hsame : p.accessOf = (s.native.calls c).accessOf
  · by_cases hp : p.accessOf = some i
    · rw [if_pos hp, howner.2 (hsame ▸ hp)]
    · rw [if_neg hp, if_neg (hsame ▸ hp)]
  · have hnil : (s.queries c).collected name = 0 :=
      Query.collected_of_nil (hc.resolve_right hsame) name
    by_cases hp' : p.accessOf = some i
    · rw [if_pos hp', (callStep_access_free hstep hp').resolve_left (hp' ▸ Ne.symm hsame)]
      exact hnil
    · rw [if_neg hp']
      by_cases hp : (s.native.calls c).accessOf = some i
      · rw [if_pos hp, howner.2 hp]
        exact hnil.symm
      · rw [if_neg hp]

private theorem callStep_gathers {m m' : Shared} {p p' : NativeCall}
    (h : callStep c p (.ok true) m = some (m', p')) (hp : p.gathers = true) :
    p'.gathers = true ∧ ∀ j, p = .queryStatsLoop j → p' = .queryMarshal j := by
  cases p with
  | queryStatsLoop j =>
      obtain ⟨-, rfl⟩ := Prod.mk.inj (Option.some.inj h)
      exact ⟨rfl, fun k hk => by cases hk; rfl⟩
  | queryMarshal j =>
      obtain ⟨-, rfl⟩ := Prod.mk.inj (Option.some.inj h)
      exact ⟨rfl, fun k hk => by cases hk⟩
  | returned r => cases h
  | _ => cases hp

private theorem nativeStep_calls_other {s n : Native} {d : CallId} (h : nativeStep s c o = some n)
    (hd : d ≠ c) : n.calls d = s.calls d := by
  obtain ⟨m, p, -, rfl⟩ := nativeStep_eq_some.mp h
  exact Function.update_of_ne hd _ _

private theorem StatsInv.native_step (hs : StatsInv s) (h : nativeStep s.native c o = some n)
    (hc : (s.queries c).response = [] ∨
      ∃ j, s.native.calls c = .queryStatsLoop j ∧ n.calls c = .queryMarshal j) :
    StatsInv (s.setNative n) where
  native := hs.native.step h
  gathered := by
    intro d hd
    show (n.calls d).gathers = true
    by_cases hdc : d = c
    · subst hdc
      obtain ⟨j, -, hj⟩ := hc.resolve_left hd
      rw [hj]
      rfl
    · rw [nativeStep_calls_other h hdc]
      exact hs.gathered d hd
  unbegun := hs.unbegun
  absent := hs.absent
  conserved := by
    intro i name
    rw [inFlight_nativeStep hs.native h (hc.imp_right ?_)]
    · exact hs.conserved i name
    · rintro ⟨j, hj, hj'⟩
      rw [hj, hj']
      rfl

private theorem nativeStep_queryMarshal {s : Native} (hi : s.calls c = .queryMarshal i) :
    nativeStep s c (.ok true) = some
      { shared := s.shared.setInstance i { s.shared.heap i with access := none }
        calls := Function.update s.calls c (.returned .ok) } := by
  simp [nativeStep, hi, callStep, Outcome.reply]

private theorem reported_reply (j : InstanceId) (name : CounterName) :
    reported (s.reply c i n) j name =
      reported s j name + if i = j then (s.queries c).collected name else 0 := by
  by_cases hij : i = j <;> cases hr : (s.queries c).request.reset <;>
    simp [reported, Statistics.reply, Query.collected, List.filter_append, hij, hr, total_sortStats]

theorem StatsInv.report (hs : StatsInv s) (hi : s.native.calls c = .queryMarshal i)
    (h : nativeStep s.native c (.ok true) = some n) : StatsInv (s.reply c i n) where
  native := hs.native.step h
  gathered := by
    intro d hd
    show (n.calls d).gathers = true
    by_cases hdc : d = c
    · subst hdc
      rw [nativeStep_queryMarshal hi] at h
      obtain rfl := Option.some.inj h
      simp
    · rw [nativeStep_calls_other h hdc]
      exact hs.gathered d hd
  unbegun := hs.unbegun
  absent := hs.absent
  conserved := by
    intro j name
    have hold := hs.conserved j name
    have hholds := (hs.native.owns.access i c).2 (by rw [hi]; rfl)
    have hflight : inFlight (s.reply c i n) j name = if i = j then 0 else inFlight s j name := by
      rw [nativeStep_queryMarshal hi] at h
      obtain rfl := Option.some.inj h
      by_cases hij : i = j
      · simp [inFlight, Statistics.reply, hij]
      · simp [inFlight, Statistics.reply, Ne.symm hij, hij]
    show Int.ModEq _ (_ + _ + (s.counters j).value name) (added s j name)
    rw [reported_reply, hflight]
    by_cases hij : i = j
    · subst hij
      have hin : inFlight s i name = (s.queries c).collected name := by
        rw [inFlight, hholds]
      rw [hin] at hold
      simpa using hold
    · simpa [hij] using hold

theorem StatsInv.setQuery (hs : StatsInv s) {q : Query}
    (hgather : q.response ≠ [] → (s.native.calls c).gathers = true)
    (hunbegun : q.pending = none → q.response = [])
    (hcollected : ∀ name, q.collected name = (s.queries c).collected name) :
    StatsInv (s.setQuery c q) where
  native := hs.native
  gathered := by
    intro d hd
    by_cases hdc : d = c
    · subst hdc
      exact hgather (by simpa [Statistics.setQuery] using hd)
    · exact hs.gathered d (by simpa [Statistics.setQuery, hdc] using hd)
  unbegun := by
    intro d hd
    by_cases hdc : d = c
    · subst hdc
      simp only [Statistics.setQuery, Function.update_self] at hd ⊢
      exact hunbegun hd
    · simp only [Statistics.setQuery, Function.update_of_ne hdc] at hd ⊢
      exact hs.unbegun d hd
  absent := hs.absent
  conserved := by
    intro j name
    have hflight : inFlight (s.setQuery c q) j name = inFlight s j name := by
      rw [inFlight_setQuery]
      split
      case isTrue h => rw [hcollected, inFlight, h]
      case isFalse => rfl
    show Int.ModEq _ (reported s j name + _ + (s.counters j).value name) (added s j name)
    rw [hflight]
    exact hs.conserved j name

theorem StatsInv.enter (hs : StatsInv s) {place : NativeCall} (hidle : s.native.calls c = .idle)
    (hp : place.isEntry = true) : StatsInv (s.setNative (s.native.enter c place)) where
  native := hs.native.enter hidle hp
  gathered := by
    intro d hd
    have hold := hs.gathered d hd
    by_cases hdc : d = c
    · subst hdc
      rw [hidle] at hold
      cases hold
    · simpa [Statistics.setNative, Native.enter, hdc] using hold
  unbegun := hs.unbegun
  absent := hs.absent
  conserved := hs.conserved

private theorem CounterMap.swap_value (m : CounterMap) (name name' : CounterName) :
    (m.swap name).value name' = if name' = name then 0 else m.value name' := by
  simp [CounterMap.swap, Function.update_apply]

private theorem CounterMap.add_value (m : CounterMap) (name name' : CounterName) (n : Int) :
    (m.add name n).value name' =
      if name' = name then addInt64 (m.value name) n else m.value name' := by
  simp [CounterMap.add, Function.update_apply]

private theorem CounterMap.loadOrCreateCounter_value {m : CounterMap}
    (hm : ∀ name, name ∉ m.names → m.value name = 0) (name name' : CounterName) :
    (m.loadOrCreateCounter name).value name' = m.value name' := by
  unfold CounterMap.loadOrCreateCounter
  split
  · rfl
  · rename_i hname
    by_cases h : name' = name
    · simp [h, hm name hname]
    · simp [h]

private theorem CounterMap.mem_loadOrCreateCounter {m : CounterMap} {name name' : CounterName}
    (h : name' ∈ m.names) : name' ∈ (m.loadOrCreateCounter name).names := by
  unfold CounterMap.loadOrCreateCounter
  split
  · exact h
  · exact List.mem_append_left _ h

private theorem value_setCounters (s : Statistics) (i j : InstanceId) (m : CounterMap)
    (name : CounterName) :
    ((s.setCounters i m).counters j).value name =
      if j = i then m.value name else (s.counters j).value name := by
  by_cases h : j = i <;> simp [Statistics.setCounters, h]

private theorem absent_setCounters {m : CounterMap}
    (hs : ∀ j name, name ∉ (s.counters j).names → (s.counters j).value name = 0)
    (hm : ∀ name, name ∉ m.names → m.value name = 0) (j : InstanceId) (name : CounterName)
    (hname : name ∉ ((s.setCounters i m).counters j).names) :
    ((s.setCounters i m).counters j).value name = 0 := by
  by_cases h : j = i
  · subst h
    simp only [Statistics.setCounters, Function.update_self] at hname ⊢
    exact hm name hname
  · simp only [Statistics.setCounters, Function.update_of_ne h] at hname ⊢
    exact hs j name hname

private theorem collected_visited (q : Query) (name name' : CounterName) (value : Int)
    (ahead : List CounterName) :
    (q.visited name value ahead).collected name' =
      q.collected name' + if q.request.reset = true ∧ name = name' then value else 0 := by
  cases hr : q.request.reset <;>
    simp [Query.collected, Query.visited, hr, total_append, total_singleton]

theorem StatsInv.swap (hs : StatsInv s) {name : CounterName} {ahead : List CounterName}
    (hi : s.native.calls c = .queryStatsLoop i) (hr : (s.queries c).request.reset = true) :
    StatsInv ((s.setQuery c ((s.queries c).visited name ((s.counters i).value name) ahead)).setCounters
      i ((s.counters i).swap name)) where
  native := hs.native
  gathered := by
    intro d hd
    by_cases hdc : d = c
    · subst hdc
      show (s.native.calls d).gathers = true
      rw [hi]
      rfl
    · exact hs.gathered d (by simpa [Statistics.setQuery, Statistics.setCounters, hdc] using hd)
  unbegun := by
    intro d hd
    by_cases hdc : d = c
    · simp [Statistics.setQuery, Statistics.setCounters, hdc, Query.visited] at hd
    · simp only [Statistics.setQuery, Statistics.setCounters, Function.update_of_ne hdc] at hd ⊢
      exact hs.unbegun d hd
  absent := by
    refine absent_setCounters hs.absent fun name' hname' => ?_
    rw [CounterMap.swap_value, hs.absent i name' hname', ite_self]
  conserved := by
    intro j name'
    have hold := hs.conserved j name'
    have hholds := hs.native.owns.access j c
    rw [hi] at hholds
    show Int.ModEq _ (reported s j name' + inFlight (s.setQuery c _) j name' + _) (added s j name')
    rw [inFlight_setQuery, value_setCounters]
    by_cases hij : j = i
    · subst hij
      have hin : inFlight s j name' = (s.queries c).collected name' := by
        rw [inFlight, hholds.2 rfl]
      rw [if_pos (hholds.2 rfl), if_pos rfl, collected_visited, CounterMap.swap_value]
      rw [hin] at hold
      by_cases hname : name' = name
      · subst hname
        simpa [hr, add_assoc] using hold
      · simpa [hname, Ne.symm hname] using hold
    · rw [if_neg (fun h => hij (Option.some.inj (hholds.1 h)).symm), if_neg hij]
      exact hold

theorem StatsInv.create (hs : StatsInv s) (i : InstanceId) (name : CounterName) :
    StatsInv (s.setCounters i ((s.counters i).loadOrCreateCounter name)) where
  native := hs.native
  gathered := hs.gathered
  unbegun := hs.unbegun
  absent := by
    refine absent_setCounters hs.absent fun name' hname' => ?_
    rw [CounterMap.loadOrCreateCounter_value (hs.absent i)]
    exact hs.absent i name' fun h => hname' (CounterMap.mem_loadOrCreateCounter h)
  conserved := by
    intro j name'
    have hold := hs.conserved j name'
    show Int.ModEq _ (reported s j name' + inFlight s j name' + _) (added s j name')
    rw [value_setCounters]
    by_cases hij : j = i
    · rw [if_pos hij, CounterMap.loadOrCreateCounter_value (hs.absent i), ← hij]
      exact hold
    · rw [if_neg hij]
      exact hold

theorem StatsInv.add (hs : StatsInv s) {name : CounterName} (hname : name ∈ (s.counters i).names)
    (n : Int) :
    StatsInv { s.setCounters i ((s.counters i).add name n) with
               additions := s.additions ++ [(i, ⟨name, n⟩)] } where
  native := hs.native
  gathered := hs.gathered
  unbegun := hs.unbegun
  absent := by
    refine absent_setCounters hs.absent fun name' hname' => ?_
    rw [CounterMap.add_value, if_neg (by rintro rfl; exact hname' hname)]
    exact hs.absent i name' hname'
  conserved := by
    intro j name'
    have hold := hs.conserved j name'
    have hadded : total name' (((s.additions ++ [(i, (⟨name, n⟩ : Stat))]).filter
        fun a => a.1 = j).map Prod.snd) =
        added s j name' + if i = j ∧ name = name' then n else 0 := by
      by_cases hij : i = j <;> simp [added, hij, total_append, total_singleton]
    show Int.ModEq _ (reported s j name' + inFlight s j name' + _) (total _ _)
    rw [value_setCounters, hadded]
    by_cases hij : j = i
    · subst hij
      rw [if_pos rfl, CounterMap.add_value]
      by_cases hn : name' = name
      · subst hn
        rw [if_pos rfl, if_pos ⟨rfl, rfl⟩, addInt64]
        have hwrap : Int.ModEq (2 ^ 64) (Int.bmod ((s.counters j).value name' + n) (2 ^ 64))
            ((s.counters j).value name' + n) := Int.bmod_emod
        refine (hwrap.add_left _).trans ?_
        rw [← add_assoc]
        exact hold.add_right n
      · simpa [hn, Ne.symm hn] using hold
    · simpa [hij, Ne.symm hij] using hold

private theorem StatsInv.response_eq_nil (hs : StatsInv s)
    (h : (s.native.calls c).gathers = false) : (s.queries c).response = [] := by
  by_contra hne
  rw [hs.gathered c hne] at h
  cases h

theorem StatsInv.advance (hs : StatsInv s) {t : Statistics} (h : s.advance c o = some t) :
    StatsInv t := by
  unfold Statistics.advance at h
  split at h
  case h_1 i hi =>
    split at h
    · obtain ⟨n, hn, rfl⟩ := Option.map_eq_some_iff.1 h
      refine hs.native_step hn (.inr ⟨i, hi, ?_⟩)
      obtain ⟨m, p, hstep, rfl⟩ := nativeStep_eq_some.mp hn
      simpa using (callStep_gathers hstep (by rw [hi]; rfl)).2 i hi
    · cases h
  case h_2 i hi =>
    obtain ⟨n, hn, rfl⟩ := Option.map_eq_some_iff.1 h
    exact hs.report hi hn
  case h_3 hloop hmarshal =>
    obtain ⟨n, hn, rfl⟩ := Option.map_eq_some_iff.1 h
    -- A call that has returned takes no step, so the place is one without a response.
    refine hs.native_step hn (.inl (hs.response_eq_nil ?_))
    obtain ⟨m, p, hstep, rfl⟩ := nativeStep_eq_some.mp hn
    cases hc : s.native.calls c with
    | queryStatsLoop i => exact absurd hc (hloop i)
    | queryMarshal i => exact absurd hc (hmarshal i)
    | returned r =>
        rw [hc] at hstep
        cases hstep
    | _ => rfl

variable {compile : CounterName → Option (CounterName → Bool)} {e : StatsEvent} {t : Statistics}

theorem StatsInv.beginLoop (hs : StatsInv s) {order : List CounterName}
    (h : s.beginLoop compile c order = some t) : StatsInv t := by
  unfold Statistics.beginLoop at h
  split at h
  case h_1 i hi =>
    split at h
    case isTrue hbegin =>
      have hnil := hs.unbegun c hbegin.1
      split at h
      · obtain ⟨n, hn, rfl⟩ := Option.map_eq_some_iff.1 h
        exact hs.native_step hn (.inl hnil)
      · obtain rfl := Option.some.inj h
        exact hs.setQuery (fun hne => absurd hnil hne) (fun hnone => by cases hnone) fun _ => rfl
    case isFalse => cases h
  case h_2 => cases h

theorem StatsInv.visitNext (hs : StatsInv s) (h : s.visitNext c = some t) : StatsInv t := by
  unfold Statistics.visitNext at h
  split at h
  case h_1 i name ahead hi hahead =>
    obtain rfl := Option.some.inj h
    unfold Statistics.visit
    split
    case isTrue hr => exact hs.swap hi hr
    case isFalse hr =>
      refine hs.setQuery (fun _ => by rw [hi]; rfl) (fun hnone => by cases hnone) fun name' => ?_
      simp [collected_visited, hr]
  case h_2 => cases h

theorem StatsInv.step (hs : StatsInv s) (h : statsStep compile s e = some t) : StatsInv t := by
  cases e with
  | call c a =>
      cases a with
      | start | stop h =>
          obtain ⟨n, hn, rfl⟩ := Option.map_eq_some_iff.1 h
          obtain ⟨o, ho, -⟩ | ⟨place, hp, hidle, rfl⟩ := registryStep_cases hn
          · cases ho
          · exact hs.enter hidle hp
      | query h r =>
          obtain ⟨n, hn, rfl⟩ := Option.map_eq_some_iff.1 h
          obtain ⟨o, ho, -⟩ | ⟨place, hp, hidle, rfl⟩ := registryStep_cases hn
          · cases ho
          · have hnil := hs.response_eq_nil (by rw [hidle]; rfl)
            refine (hs.enter hidle hp).setQuery (fun hne => absurd rfl hne) (fun _ => rfl) ?_
            intro name
            exact (Query.collected_of_nil rfl name).trans (Query.collected_of_nil hnil name).symm
      | advance o => exact hs.advance h
      | beginLoop order => exact hs.beginLoop h
      | visit => exact hs.visitNext h
  | create i name =>
      simp only [statsStep] at h
      split at h
      · obtain rfl := Option.some.inj h
        exact hs.create i name
      · cases h
  | add i name n =>
      simp only [statsStep] at h
      split at h
      · obtain rfl := Option.some.inj h
        exact hs.add (by assumption) n
      · cases h

theorem StatsInv.initial : StatsInv {} where
  native := .initial
  gathered := by simp
  unbegun := by simp
  absent := fun _ _ _ => rfl
  conserved := fun _ _ => rfl

private theorem StatsInv.of_exec {run : List StatsEvent}
    (h : exec (statsStep compile) {} run = some s) : StatsInv s :=
  exec_invariant (fun _ _ _ hs hstep => hs.step hstep) .initial h

/-- What a step of a call does to the counters and to the query variables.  Only a visit of a
reset query changes counters, and it leaves the query with a response. -/
private theorem statsStep_call {a : StatsAction} (h : statsStep compile s (.call c a) = some t) :
    ∃ q, t.queries = Function.update s.queries c q ∧
      (t.counters = s.counters ∨ (s.queries c).request.reset = true ∧ q.response ≠ []) ∧
      (q.response = (s.queries c).response ∨ s.native.calls c = .idle ∨ q.response ≠ []) := by
  have hsame : s.queries = Function.update s.queries c (s.queries c) :=
    (Function.update_eq_self c s.queries).symm
  cases a with
  | start | stop h =>
      obtain ⟨n, -, rfl⟩ := Option.map_eq_some_iff.1 h
      exact ⟨s.queries c, hsame, .inl rfl, .inl rfl⟩
  | query h r =>
      obtain ⟨n, hn, rfl⟩ := Option.map_eq_some_iff.1 h
      obtain ⟨o, ho, -⟩ | ⟨place, -, hidle, -⟩ := registryStep_cases hn
      · cases ho
      · exact ⟨_, rfl, .inl rfl, .inr (.inl hidle)⟩
  | advance o =>
      simp only [statsStep, Statistics.advance] at h
      split at h
      · split at h
        · obtain ⟨n, -, rfl⟩ := Option.map_eq_some_iff.1 h
          exact ⟨s.queries c, hsame, .inl rfl, .inl rfl⟩
        · cases h
      all_goals
        obtain ⟨n, -, rfl⟩ := Option.map_eq_some_iff.1 h
        exact ⟨s.queries c, hsame, .inl rfl, .inl rfl⟩
  | beginLoop order =>
      simp only [statsStep, Statistics.beginLoop] at h
      split at h
      · split at h
        · split at h
          · obtain ⟨n, -, rfl⟩ := Option.map_eq_some_iff.1 h
            exact ⟨s.queries c, hsame, .inl rfl, .inl rfl⟩
          · obtain rfl := Option.some.inj h
            exact ⟨_, rfl, .inl rfl, .inl rfl⟩
        · cases h
      · cases h
  | visit =>
      simp only [statsStep, Statistics.visitNext] at h
      split at h
      · obtain rfl := Option.some.inj h
        unfold Statistics.visit
        split
        · rename_i hr
          exact ⟨_, rfl, .inr ⟨hr, by simp [Query.visited]⟩, .inr (.inr (by simp [Query.visited]))⟩
        · exact ⟨_, rfl, .inl rfl, .inr (.inr (by simp [Query.visited]))⟩
      · cases h

private theorem StatsInv.response_ne_nil (hs : StatsInv s) (h : statsStep compile s e = some t)
    (hc : (s.queries c).response ≠ []) : (t.queries c).response ≠ [] := by
  cases e with
  | call d a =>
      obtain ⟨q, hq, -, hresponse⟩ := statsStep_call h
      rw [hq]
      by_cases hcd : c = d
      · subst hcd
        rw [Function.update_self]
        rcases hresponse with hkeep | hidle | hne
        · rwa [hkeep]
        · exact absurd (hs.response_eq_nil (by rw [hidle]; rfl)) hc
        · exact hne
      · rwa [Function.update_of_ne hcd]
  | create i name =>
      simp only [statsStep] at h
      split at h
      · obtain rfl := Option.some.inj h
        exact hc
      · cases h
  | add i name n =>
      simp only [statsStep] at h
      split at h
      · obtain rfl := Option.some.inj h
        exact hc
      · cases h

/-- From its first response on, a query does not end in an error. -/
private theorem StatsInv.not_error (hs : StatsInv s) {run : List StatsEvent}
    (h : exec (statsStep compile) s run = some t) (hc : (s.queries c).response ≠ []) :
    t.native.calls c ≠ .returned .error := by
  have hinv := exec_invariant (I := fun u => StatsInv u ∧ (u.queries c).response ≠ [])
    (fun u e v hu hstep => ⟨hu.1.step hstep, hu.1.response_ne_nil hstep hu.2⟩) ⟨hs, hc⟩ h
  intro herror
  have hgathers := hinv.1.gathered c hinv.2
  rw [herror] at hgathers
  cases hgathers

end Steps

/-- No traffic is lost.  The values that successful reset queries returned, the values that a reset
query still running has collected and the counter's value add up to what was added to the counter,
so without a running query the first and the last do; and no step of a query that does not reset,
or that ends in an error, changes a counter. -/
theorem traffic_conserved (compile : CounterName → Option (CounterName → Bool))
    {run : List StatsEvent} {s : Statistics} (h : exec (statsStep compile) {} run = some s) :
    (∀ i name,
      Int.ModEq (2 ^ 64) (reported s i name + inFlight s i name + (s.counters i).value name)
        (added s i name)) ∧
    (∀ i name, (∀ c, (s.native.calls c).snapshotOf ≠ some i) →
      Int.ModEq (2 ^ 64) (reported s i name + (s.counters i).value name) (added s i name)) ∧
    ∀ before c a after t u, run = before ++ .call c a :: after →
      exec (statsStep compile) {} before = some t → statsStep compile t (.call c a) = some u →
      (t.queries c).request.reset = false ∨ s.native.calls c = .returned .error →
      u.counters = t.counters := by
  have hs := StatsInv.of_exec h
  refine ⟨hs.conserved, ?_, ?_⟩
  · intro i name hnone
    have hflight : inFlight s i name = 0 := by
      unfold inFlight
      cases hc : (s.native.shared.heap i).access with
      | none => rfl
      | some c =>
          apply Query.collected_of_nil
          apply hs.response_eq_nil
          have haccess := (hs.native.owns.access i c).1 hc
          have hidle := hnone c
          cases hp : s.native.calls c <;> simp_all
    have hold := hs.conserved i name
    rwa [hflight, add_zero] at hold
  · rintro before c a after t u rfl ht hu hc
    obtain ⟨q, hq, hcounters, -⟩ := statsStep_call hu
    rcases hcounters with hkeep | ⟨hreset, hne⟩
    · exact hkeep
    · have hinv := (StatsInv.of_exec ht).step hu
      have hafter : exec (statsStep compile) u after = some s := by
        obtain ⟨t', ht', hrest⟩ := exec_append.1 h
        obtain rfl := Option.some.inj (ht.symm.trans ht')
        obtain ⟨u', hu', hrest⟩ := exec_cons.1 hrest
        obtain rfl := Option.some.inj (hu.symm.trans hu')
        exact hrest
      have hresponse : (u.queries c).response ≠ [] := by
        rw [hq, Function.update_self]
        exact hne
      rcases hc with hfalse | herror
      · rw [hreset] at hfalse
        cases hfalse
      · exact absurd herror (hinv.not_error hafter hresponse)

def visitRun : List StatsEvent :=
  .call 0 .start :: List.replicate 5 (.call 0 (.advance (.ok true))) ++
    [.create 0 ['a'], .add 0 ['a'] 5, .call 1 (.query 1 { reset := true })] ++
    List.replicate 7 (.call 1 (.advance (.ok true))) ++
    [.call 1 (.beginLoop [['a']]), .call 1 .visit]

def queryRun : List StatsEvent :=
  visitRun ++ List.replicate 2 (.call 1 (.advance (.ok true)))

theorem traffic_conserved_at_queryRun :
    ∃ s, exec (statsStep fun _ => none) {} queryRun = some s ∧ reported s 0 ['a'] = 5 ∧
      Int.ModEq (2 ^ 64) (reported s 0 ['a'] + inFlight s 0 ['a'] + (s.counters 0).value ['a'])
        (added s 0 ['a']) := by
  have hrun : (exec (statsStep fun _ => none) {} queryRun).map (fun s => reported s 0 ['a']) =
      some 5 := by decide
  obtain ⟨s, hs, hreported⟩ := Option.map_eq_some_iff.1 hrun
  exact ⟨s, hs, hreported, (traffic_conserved _ hs).1 0 ['a']⟩

/-- Between its visit and its return the reset query alone has the 5: no query has returned it and
the counter no longer holds it. -/
theorem swapped_value_in_flight :
    ∃ s, exec (statsStep fun _ => none) {} visitRun = some s ∧
      ¬ Int.ModEq (2 ^ 64) (reported s 0 ['a'] + (s.counters 0).value ['a'])
        (added s 0 ['a']) := by
  have hrun : (exec (statsStep fun _ => none) {} visitRun).map (fun s =>
      (reported s 0 ['a'], (s.counters 0).value ['a'], added s 0 ['a'])) = some (0, 0, 5) := by
    decide
  obtain ⟨s, hs, hvalues⟩ := Option.map_eq_some_iff.1 hrun
  obtain ⟨hreported, hvalue, hadded⟩ := Prod.mk.inj hvalues |>.imp_right Prod.mk.inj
  refine ⟨s, hs, ?_⟩
  rw [hreported, hvalue, hadded]
  decide

end SingBoxPython.Binding
