import SingBoxPython.Binding.RegistrySafety

/-!
# Arbitrary native callers

Calls of `singbox_stop` and `singbox_query_stats` may carry any handle: one never issued, zero, a
stale one, or one that another call is stopping at that moment.  A handle whose entry was deleted
stays unknown until the 64-bit counter has wrapped and `start` issues it again.
-/

namespace SingBoxPython.Binding
open Framework

def Issues (h : Handle) (s : Native) (a : CallId × NativeAction) : Prop :=
  ∃ i, s.calls a.1 = .startInsert i ∧ nextHandle s.shared.registry.next = h

section Runs

variable {s t u v : Native} {c d : CallId} {o o' : Outcome} {h : Handle}
  {as bs : List (CallId × NativeAction)}

private theorem registryStep_byID_none {a : CallId × NativeAction}
    (hnone : s.shared.registry.byID h = none)
    (hissue : ¬ Issues h s a) (hstep : registryStep s a = some t) :
    t.shared.registry.byID h = none := by
  obtain ⟨o, _, hcall⟩ | ⟨place, _, _, rfl⟩ := registryStep_cases hstep
  · obtain ⟨m, p, hm, rfl⟩ := nativeStep_eq_some.mp hcall
    have hby := congrFun (callStep_byID hm) h
    simp only at hby ⊢
    rw [hby]
    cases hplace : s.calls a.1 <;> simp_all [Function.update_apply, Issues, eq_comm]
  · exact hnone

private theorem exec_byID_none (hnone : s.shared.registry.byID h = none)
    (hissue : Along (fun s a => ¬ Issues h s a) registryStep s as)
    (hrun : exec registryStep s as = some t) : t.shared.registry.byID h = none :=
  exec_invariant_along (I := fun s => s.shared.registry.byID h = none)
    (fun _ _ _ hI hok hstep => registryStep_byID_none hI hok hstep) hnone hissue hrun

/-- After its lookup a call keeps working on what it found, whatever the others do. -/
private theorem exec_confined {x : Option InstanceId} (hlooked : (s.calls c).lookedUp)
    (htarget : ∀ j, (s.calls c).targetOf = some j → x = some j)
    (hrun : exec registryStep s as = some t) :
    (t.calls c).lookedUp ∧ ∀ j, (t.calls c).targetOf = some j → x = some j := by
  refine exec_invariant
    (I := fun s => (s.calls c).lookedUp ∧ ∀ j, (s.calls c).targetOf = some j → x = some j)
    ?_ ⟨hlooked, htarget⟩ hrun
  intro s a t hI hstep
  obtain ⟨o, _, hcall⟩ | ⟨place, _, hidle, rfl⟩ := registryStep_cases hstep
  · obtain ⟨m, p, hm, rfl⟩ := nativeStep_eq_some.mp hcall
    by_cases hca : c = a.1
    · subst hca
      have hnext := callStep_target hm hI.1
      simp only [Function.update_self]
      exact ⟨hnext.1, fun j hj => hI.2 j (hnext.2.1 j hj)⟩
    · simpa only [Function.update_of_ne hca] using hI
  · have hca : c ≠ a.1 := by
      rintro rfl
      simp [hidle, NativeCall.lookedUp] at hI
    simpa only [Native.enter, Function.update_of_ne hca] using hI

end Runs

/-- What the registry guarantees to native callers in the state `s`. -/
structure RegistrySafe (s : Native) : Prop where
  /-- A core is closed at most once, by `closeInstance` or by the start that failed. -/
  closedOnce : ∀ i, (s.shared.heap i).coreCloses ≤ 1
  /-- Where `closeInstance` calls `core.Close` next, the context has been cancelled. -/
  cancelledBefore : ∀ c i, s.calls c = .closeCore i → (s.shared.heap i).cancelled = true
  /-- Where a statistics step of a query comes next, the instance is not marked closed. -/
  openWhileQueried : ∀ c i, (s.calls c).snapshotOf = some i → (s.shared.heap i).closed = false
  /-- Once `stop` deleted the entry of `h`, a lookup of `h` ends its query with an error until
  `start` issues `h` again. -/
  deletedUnknown : ∀ {c d : CallId} {h : Handle} {i : InstanceId} {o o' : Outcome}
    {t u v : Native} {bs : List (CallId × NativeAction)},
    s.calls c = .stopDelete h → s.shared.registry.byID h = some i → nativeStep s c o = some t →
    exec registryStep t bs = some u → Along (fun s a => ¬ Issues h s a) registryStep t bs →
    u.calls d = .queryLookup h → nativeStep u d o' = some v → v.calls d = .returned .error
  /-- A call that finds no entry for its handle changes no instance, no entry and not the
  counter, neither on the way to its lookup nor there, where it ends. -/
  unknownHarmless : ∀ {c : CallId} {h : Handle} {o : Outcome} {t : Native},
    (s.calls c).handleOf = some h →
    ((s.calls c).looksUp = some h → s.shared.registry.byID h = none) → nativeStep s c o = some t →
    t.shared.heap = s.shared.heap ∧ t.shared.registry.byID = s.shared.registry.byID ∧
      t.shared.registry.next = s.shared.registry.next
  /-- Up to its lookup a call changes no instance. -/
  beforeLookup : ∀ {c : CallId} {h : Handle} {o : Outcome} {t : Native},
    (s.calls c).handleOf = some h → nativeStep s c o = some t → t.shared.heap = s.shared.heap
  /-- From its lookup on it changes only the instance registered under its handle then. -/
  afterLookup : ∀ {c : CallId} {h : Handle} {o o' : Outcome} {t u v : Native}
    {bs : List (CallId × NativeAction)} {j : InstanceId},
    (s.calls c).looksUp = some h → nativeStep s c o = some t → exec registryStep t bs = some u →
    nativeStep u c o' = some v → v.shared.heap j ≠ u.shared.heap j →
    s.shared.registry.byID h = some j

/-- The registry is safe for any interleaving of any number of native calls. -/
theorem registry_safe_for_native_callers {s : Native} (hs : Reachable registryStep {} s) :
    RegistrySafe s := by
  have hinv := NativeInv.of_reachable hs
  constructor
  · exact hinv.life.closes
  · exact hinv.life.cancelled
  · exact hinv.life.snapshot
  · intro c d h i o o' t u v bs hc _ hdel hrun hissue hd hquery
    obtain ⟨m, p, hm, rfl⟩ := nativeStep_eq_some.mp hdel
    have hgone : m.registry.byID h = none := by
      rw [callStep_byID hm, hc]
      simp
    have hnone := exec_byID_none (s := { shared := m, calls := _ }) hgone hissue hrun
    obtain ⟨m', p', hm', rfl⟩ := nativeStep_eq_some.mp hquery
    rw [hd] at hm'
    simp only [callStep, hnone, Option.some.injEq, Prod.mk.injEq] at hm'
    simp [← hm'.2]
  · intro c h o t hc hnone hstep
    obtain ⟨m, p, hm, rfl⟩ := nativeStep_eq_some.mp hstep
    refine ⟨callStep_heap_of_handleOf hm hc, ?_, callStep_next_of_handleOf hm hc⟩
    rw [callStep_byID hm]
    cases hplace : s.calls c <;> simp_all
  · intro c h o t hc hstep
    obtain ⟨m, p, hm, rfl⟩ := nativeStep_eq_some.mp hstep
    exact callStep_heap_of_handleOf hm hc
  · intro c h o o' t u v bs j hc hlook hrun hstep hj
    obtain ⟨m, p, hm, rfl⟩ := nativeStep_eq_some.mp hlook
    have hfound := callStep_lookup hm hc
    have hconf := exec_confined (c := c) (x := s.shared.registry.byID h)
      (s := { shared := m, calls := Function.update s.calls c p })
      (by simpa only [Function.update_self] using hfound.1)
      (by simp only [Function.update_self, hfound.2]; exact fun _ hj => hj) hrun
    obtain ⟨m', p', hm', rfl⟩ := nativeStep_eq_some.mp hstep
    exact hconf.2 j ((callStep_target hm' hconf.1).2.2 j hj)

/-- The call `c` takes one step per outcome while no other call moves. -/
def callRun (c : CallId) : NativeCall → List Outcome → Shared → Option (Shared × NativeCall)
  | p, [], m => some (m, p)
  | p, o :: os, m => (callStep c p o m).bind fun r => callRun c r.2 os r.1

private theorem exec_alone {s : Native} {c : CallId} {os : List Outcome} {m : Shared}
    {p : NativeCall} (hrun : callRun c (s.calls c) os s.shared = some (m, p)) :
    exec registryStep s (os.map fun o => (c, .advance o)) =
      some { shared := m, calls := Function.update s.calls c p } := by
  induction os generalizing s with
  | nil =>
      obtain ⟨rfl, rfl⟩ : s.shared = m ∧ s.calls c = p := by simpa [callRun] using hrun
      simp [exec_nil]
  | cons o os ih =>
      obtain ⟨⟨m', p'⟩, hstep, hrest⟩ := Option.bind_eq_some_iff.mp hrun
      refine exec_cons.mpr ⟨{ shared := m', calls := Function.update s.calls c p' }, ?_, ?_⟩
      · exact nativeStep_eq_some.mpr ⟨m', p', hstep, rfl⟩
      · rw [ih (by simpa using hrest)]
        simp

private theorem exec_entry_alone {s : Native} {c : CallId} {a : NativeAction} {p q : NativeCall}
    {os : List Outcome} {m : Shared} (hidle : s.calls c = .idle) (hentry : a.entry = some p)
    (hrun : callRun c p os s.shared = some (m, q)) :
    exec registryStep s ((c, a) :: os.map fun o => (c, .advance o)) =
      some { shared := m, calls := Function.update s.calls c q } := by
  refine exec_cons.mpr ⟨s.enter c p, ?_, ?_⟩
  · cases a <;> simp_all [registryStep, NativeAction.entry]
  · rw [exec_alone (m := m) (p := q) (by simpa [Native.enter] using hrun)]
    simp [Native.enter]

structure Quiet (r : Registry) : Prop where
  writer : r.writer = none
  readers : r.readers = ∅

/-- A `start` that nobody interrupts registers an instance under the next handle. -/
private theorem exec_start {s : Native} {c : CallId} (hs : Quiet s.shared.registry)
    (hidle : s.calls c = .idle) :
    ∃ as t, exec registryStep s as = some t ∧ Quiet t.shared.registry ∧
      t.shared.registry.next = nextHandle s.shared.registry.next ∧
      t.shared.registry.byID (nextHandle s.shared.registry.next) = some s.shared.allocated ∧
      ∀ d, d ≠ c → t.calls d = s.calls d := by
  have hrun : callRun c .buildInstance (List.replicate 5 (.ok false)) s.shared =
      some ({ registry := insertInstance s.shared.registry s.shared.allocated,
              heap := Function.update s.shared.heap s.shared.allocated
                { s.shared.heap s.shared.allocated with v2rayStats := false },
              allocated := s.shared.allocated + 1 },
        .returned (.handle (nextHandle s.shared.registry.next))) := by
    simp [callRun, List.replicate, callStep, hs.writer, hs.readers, Shared.setInstance,
      insertInstance]
  refine ⟨_, _, exec_entry_alone (a := .start) hidle rfl hrun, ⟨rfl, hs.readers⟩, rfl, ?_, ?_⟩
  · simp [insertInstance]
  · intro d hd
    simp [Function.update_of_ne hd]

private theorem exec_starts {s : Native} {b : Nat} (n : Nat) (hs : Quiet s.shared.registry)
    (hidle : ∀ c : Nat, b ≤ c → s.calls c = .idle)
    (hn : s.shared.registry.next.toNat + n < 2 ^ 64) :
    ∃ as t, exec registryStep s as = some t ∧ Quiet t.shared.registry ∧
      t.shared.registry.next.toNat = s.shared.registry.next.toNat + n ∧
      ∀ c : Nat, b + n ≤ c → t.calls c = .idle := by
  induction n with
  | zero => exact ⟨[], s, rfl, hs, rfl, hidle⟩
  | succ n ih =>
      obtain ⟨as, t, hrun, ht, hnext, hfree⟩ := ih (by omega)
      obtain ⟨bs, u, hu, hquiet, hnext', _, hcalls⟩ :=
        exec_start ht (hfree (b + n) (Nat.le_refl _))
      have hlt : t.shared.registry.next.toNat + 1 < 2 ^ 64 := by omega
      refine ⟨as ++ bs, u, exec_append.mpr ⟨t, hrun, hu⟩, hquiet, ?_, ?_⟩
      · rw [hnext', nextHandle_toNat hlt, hnext]
        omega
      · intro c hc
        rw [hcalls c (Nat.ne_of_gt (by omega))]
        exact hfree c (by omega)

private theorem exec_query {s : Native} {c : CallId} (h : Handle) (hs : Quiet s.shared.registry)
    (hidle : s.calls c = .idle) :
    ∃ as t, exec registryStep s as = some t ∧ t.calls c = .queryLookup h ∧
      t.shared.registry.byID = s.shared.registry.byID := by
  have hrun : callRun c (.queryDecode h) (List.replicate 2 (.ok false)) s.shared =
      some ({ s.shared with registry := { s.shared.registry with readers := {c} } },
        .queryLookup h) := by
    simp [callRun, List.replicate, callStep, hs.writer, hs.readers]
  exact ⟨_, _, exec_entry_alone (a := .query h) hidle rfl hrun, by simp, rfl⟩

def firstStop : List (CallId × NativeAction) :=
  (0, .start) :: (List.replicate 5 (.ok false)).map (fun o => (0, .advance o)) ++
    (1, .stop 1) :: (List.replicate 2 (.ok false)).map (fun o => (1, .advance o))

private theorem exec_firstStop :
    ∃ s t, exec registryStep {} firstStop = some s ∧ s.calls 1 = .stopDelete 1 ∧
      s.shared.registry.byID 1 = some 0 ∧ nativeStep s 1 (.ok false) = some t ∧
      Quiet t.shared.registry ∧ t.shared.registry.next = 1 ∧
      ∀ c : Nat, 2 ≤ c → t.calls c = .idle := by
  refine ⟨_, _, rfl, rfl, rfl, rfl, ⟨rfl, rfl⟩, rfl, ?_⟩
  intro c hc
  have h0 : c ≠ 0 := by omega
  have h1 : c ≠ 1 := by omega
  simp [Native.enter, Function.update_of_ne h0, Function.update_of_ne h1]

theorem registry_safe_at_firstStop :
    ∃ s, exec registryStep {} firstStop = some s ∧ s.calls 1 = .stopDelete 1 ∧
      s.shared.registry.byID 1 = some 0 ∧ RegistrySafe s := by
  obtain ⟨s, _, hs, hcall, hentry, _⟩ := exec_firstStop
  exact ⟨s, hs, hcall, hentry, registry_safe_for_native_callers ⟨_, hs⟩⟩

def failingStart : List (CallId × NativeAction) :=
  [(0, .start), (0, .advance (.ok false)), (0, .advance .error), (0, .advance .error)]

/-- Handle 1 is issued, stopped, and issued again after the counter has wrapped: a query that
looks it up long after the deletion finds the new instance.  And a start that fails closes the core
while its context is not cancelled. -/
theorem stale_handle_reissued :
    (∃ (s t u v : Native) (c d : CallId) (h : Handle) (i : InstanceId) (o o' : Outcome)
      (bs : List (CallId × NativeAction)),
      Reachable registryStep {} s ∧ s.calls c = .stopDelete h ∧
      s.shared.registry.byID h = some i ∧ nativeStep s c o = some t ∧
      exec registryStep t bs = some u ∧ u.calls d = .queryLookup h ∧
      nativeStep u d o' = some v ∧ v.calls d ≠ .returned .error) ∧
    ∃ s, exec registryStep {} failingStart = some s ∧ (s.shared.heap 0).coreCloses = 1 ∧
      (s.shared.heap 0).cancelled = false := by
  refine ⟨?_, _, rfl, rfl, rfl⟩
  obtain ⟨s, t, hs, hcall, hentry, hdel, hquiet, hnext, hidle⟩ := exec_firstStop
  -- Issue the handles 2 to 2^64 - 1, then one more: the counter skips zero and returns to 1.
  obtain ⟨as, r, hr, hquiet, hlast, hidle⟩ :=
    exec_starts (2 ^ 64 - 2) hquiet hidle (by rw [hnext]; decide)
  have hwrap : nextHandle r.shared.registry.next = 1 := by
    have hlast : r.shared.registry.next = .ofNat (2 ^ 64 - 1) := by
      rw [hnext] at hlast
      exact BitVec.eq_of_toNat_eq hlast
    rw [hlast]
    decide
  obtain ⟨bs, w, hw, hquiet, _, hagain, hidle'⟩ := exec_start hquiet (hidle (2 ^ 64) (by decide))
  obtain ⟨cs, u, hu, hquery, hby⟩ := exec_query (c := 2 ^ 64 + 1) 1 hquiet
    (by rw [hidle' _ (by decide)]; exact hidle _ (by decide))
  rw [hwrap, ← hby] at hagain
  refine ⟨s, t, u, _, 1, 2 ^ 64 + 1, 1, 0, .ok false, .ok false, as ++ bs ++ cs, ⟨_, hs⟩, hcall,
    hentry, hdel, ?_, hquery,
    nativeStep_eq_some.mpr ⟨_, _, by simp only [hquery, callStep, hagain]; rfl, rfl⟩, ?_⟩
  · exact exec_append.mpr ⟨w, exec_append.mpr ⟨r, hr, hw⟩, hu⟩
  · simp

end SingBoxPython.Binding
