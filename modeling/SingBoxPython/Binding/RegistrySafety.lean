import Mathlib.Algebra.Group.Nat.Defs
import Mathlib.Tactic.Common
import SingBoxPython.Binding.Registry

/-!
# Safety of the registry under arbitrary callers

What one step of a native call can change, then who holds which lock, then the life of an
instance: opened, marked closed, cancelled, its core closed.  Handles are arbitrary 64-bit
values throughout.
-/

namespace SingBoxPython.Binding
open Framework

@[simp] theorem Shared.setInstance_registry (m : Shared) (i : InstanceId) (x : Instance) :
    (m.setInstance i x).registry = m.registry := rfl

@[simp] private theorem Shared.setInstance_allocated (m : Shared) (i : InstanceId) (x : Instance) :
    (m.setInstance i x).allocated = m.allocated := rfl

@[simp] theorem Shared.setInstance_heap (m : Shared) (i j : InstanceId) (x : Instance) :
    (m.setInstance i x).heap j = if j = i then x else m.heap j := by
  simp [setInstance, Function.update_apply]

@[simp, grind =] private theorem Instance.coreClose_access (x : Instance) : x.coreClose.access = x.access := by
  unfold coreClose
  split <;> rfl

@[simp, grind =] private theorem Instance.coreClose_statsAccess (x : Instance) :
    x.coreClose.statsAccess = x.statsAccess := by
  unfold coreClose
  split <;> rfl

@[simp, grind =] private theorem Instance.coreClose_closed (x : Instance) : x.coreClose.closed = x.closed := by
  unfold coreClose
  split <;> rfl

@[simp, grind =] private theorem Instance.coreClose_cancelled (x : Instance) :
    x.coreClose.cancelled = x.cancelled := by
  unfold coreClose
  split <;> rfl

@[simp, grind =] private theorem Instance.coreClose_done (x : Instance) : x.coreClose.done = true := by
  unfold coreClose
  split
  · assumption
  · rfl

/-- The box was closed once if `done` is closed, and else not. -/
def Instance.Counted (x : Instance) : Prop :=
  x.coreCloses = if x.done then 1 else 0

theorem Instance.Counted.coreClose {x : Instance} (hx : x.Counted) : x.coreClose.Counted := by
  cases hdone : x.done with
  | true => simpa only [Instance.coreClose, hdone, if_true] using hx
  | false =>
      rw [Instance.Counted, hdone] at hx
      simp [Instance.coreClose, Instance.Counted, hdone, hx]

theorem nextHandle_toNat {x : Handle} (hx : x.toNat + 1 < 2 ^ 64) :
    (nextHandle x).toNat = x.toNat + 1 := by
  have hsucc : (x + 1).toNat = x.toNat + 1 := by
    have hadd : (x + 1).toNat = (x.toNat + 1) % 2 ^ 64 := BitVec.toNat_add x (BitVec.ofNat 64 1)
    rw [hadd, Nat.mod_eq_of_lt hx]
  have hne : x + 1 ≠ 0 := by
    intro h0
    rw [h0] at hsucc
    exact absurd hsucc (Nat.succ_ne_zero _).symm
  rw [nextHandle, if_neg hne, hsucc]

theorem nextHandle_ne_zero (x : Handle) : nextHandle x ≠ 0 := by
  unfold nextHandle
  split
  · rename_i hwrap
    rw [hwrap]
    decide
  · assumption

namespace NativeCall

@[simp, grind =] def accessOf : NativeCall → Option InstanceId
  | closeCheck i | closeCancel i | closeCore i | queryCheck i | queryRuntime i
  | queryStatsLock i | queryStatsLoop i | queryMarshal i => some i
  | _ => none

@[simp, grind =] def statsOf : NativeCall → Option InstanceId
  | queryStatsLoop i => some i
  | _ => none

@[simp, grind =] def isEntry : NativeCall → Bool
  | buildInstance | stopLock _ | queryDecode _ => true
  | _ => false

@[simp, grind =] def isWriter : NativeCall → Bool
  | startDrain _ | startInsert _ | stopDrain _ | stopDelete _ => true
  | _ => false

@[simp, grind =] def isReader : NativeCall → Bool
  | queryLookup _ => true
  | _ => false

/-- The instance on which the next step of a query is a statistics step. -/
@[simp, grind =] def snapshotOf : NativeCall → Option InstanceId
  | queryRuntime i | queryStatsLock i | queryStatsLoop i | queryMarshal i => some i
  | _ => none

/-- The instance that the call has marked closed and whose core it has yet to close. -/
@[simp, grind =] def closingOf : NativeCall → Option InstanceId
  | closeCancel i | closeCore i => some i
  | _ => none

@[simp, grind =] def handleOf : NativeCall → Option Handle
  | stopLock h | stopDrain h | stopDelete h | queryDecode h | queryRLock h | queryLookup h => some h
  | _ => none

@[simp, grind =] def looksUp : NativeCall → Option Handle
  | stopDelete h | queryLookup h => some h
  | _ => none

@[simp, grind =] def targetOf : NativeCall → Option InstanceId
  | closeLock i | closeCheck i | closeCancel i | closeCore i | queryLock i | queryCheck i
  | queryRuntime i | queryStatsLock i | queryStatsLoop i | queryMarshal i => some i
  | _ => none

@[simp, grind =] def inserts : NativeCall → Bool
  | startInsert _ => true
  | _ => false

@[simp, grind =] def deletes : NativeCall → Bool
  | stopDelete _ => true
  | _ => false

def lookedUp (p : NativeCall) : Prop :=
  p.targetOf.isSome = true ∨ ∃ r, p = returned r

private theorem accessOf_of_snapshotOf {p : NativeCall} {i : InstanceId}
    (h : p.snapshotOf = some i) : p.accessOf = some i := by
  cases p <;> simp_all

theorem accessOf_of_closingOf {p : NativeCall} {i : InstanceId} (h : p.closingOf = some i) :
    p.accessOf = some i := by
  cases p <;> simp_all

end NativeCall

@[simp] def entriesAfter (r : Registry) : NativeCall → Handle → Option InstanceId
  | .startInsert i => Function.update r.byID (nextHandle r.next) (some i)
  | .stopDelete h => Function.update r.byID h none
  | _ => r.byID

section Step

attribute [elab_as_elim] callStep.fun_cases_unfolding

variable {m m' : Shared} {c : CallId} {o : Outcome} {p p' : NativeCall}

theorem callStep_closed (h : callStep c p o m = some (m', p')) (j : InstanceId) :
    (m'.heap j).closed = ((m.heap j).closed || decide (p = .closeCheck j)) := by
  revert h
  fun_cases callStep c p o m <;> rintro ⟨⟩ <;> grind -linarith [Shared.setInstance_heap]

theorem callStep_done (h : callStep c p o m = some (m', p')) (j : InstanceId) :
    (m'.heap j).done =
      ((m.heap j).done || decide (p = .closeCore j) || decide (p = .earlyClose j)) := by
  revert h
  fun_cases callStep c p o m <;> rintro ⟨⟩ <;>
    grind -linarith [Shared.setInstance_heap]

private theorem callStep_counted (h : callStep c p o m = some (m', p'))
    (hm : ∀ j, (m.heap j).Counted) (j : InstanceId) : (m'.heap j).Counted := by
  have hj := hm j
  have hclose := hj.coreClose
  revert h
  fun_cases callStep c p o m <;> rintro ⟨⟩ <;>
    grind -linarith [Shared.setInstance_heap, Instance.Counted]

private theorem callStep_cancelled (h : callStep c p o m = some (m', p')) {j : InstanceId}
    (hj : (m.heap j).cancelled = true ∨ p = .closeCancel j) : (m'.heap j).cancelled = true := by
  revert h
  fun_cases callStep c p o m <;> rintro ⟨⟩ <;> grind -linarith [Shared.setInstance_heap]

theorem callStep_byID (h : callStep c p o m = some (m', p')) :
    m'.registry.byID = entriesAfter m.registry p := by
  revert h
  fun_cases callStep c p o m <;> rintro ⟨⟩ <;>
    simp [insertInstance, deleteEntry, Registry.rUnlock]

private theorem callStep_snapshot (h : callStep c p o m = some (m', p')) {j : InstanceId}
    (hj : p'.snapshotOf = some j) :
    p.snapshotOf = some j ∨ p = .queryCheck j ∧ (m.heap j).closed = false := by
  revert h hj
  fun_cases callStep c p o m <;> rintro ⟨⟩ <;> grind -linarith

private theorem callStep_closing (h : callStep c p o m = some (m', p')) {j : InstanceId}
    (hj : p'.closingOf = some j) :
    p = .closeCheck j ∧ (m.heap j).closed = false ∨ p = .closeCancel j := by
  revert h hj
  fun_cases callStep c p o m <;> rintro ⟨⟩ <;> grind -linarith

private theorem callStep_marks (h : callStep c p o m = some (m', p')) {j : InstanceId}
    (hp : p = .closeCheck j) (hopen : (m.heap j).closed = false) : p'.closingOf = some j := by
  subst hp
  simp only [callStep, hopen, Bool.false_eq_true, if_false, Option.some.injEq, Prod.mk.injEq] at h
  rw [← h.2]
  rfl

private theorem callStep_closeCore (h : callStep c p o m = some (m', p')) {j : InstanceId}
    (hj : p' = .closeCore j) : p = .closeCancel j := by
  revert h hj
  fun_cases callStep c p o m <;> rintro ⟨⟩ <;> grind -linarith

private theorem callStep_closing_left (h : callStep c p o m = some (m', p')) {j : InstanceId}
    (hj : p.closingOf = some j) : p'.closingOf = some j ∨ p = .closeCore j := by
  revert h
  fun_cases callStep c p o m <;> rintro ⟨⟩ <;> simp_all

theorem callStep_access (h : callStep c p o m = some (m', p'))
    (hown : ∀ j, p.accessOf = some j → (m.heap j).access = some c) (j : InstanceId) :
    (m'.heap j).access = if p'.accessOf = some j then some c
      else if p.accessOf = some j then none else (m.heap j).access := by
  revert h
  fun_cases callStep c p o m <;> rintro ⟨⟩ <;>
    grind -linarith [Shared.setInstance_heap]

theorem callStep_access_free (h : callStep c p o m = some (m', p')) {j : InstanceId}
    (hj : p'.accessOf = some j) : p.accessOf = some j ∨ (m.heap j).access = none := by
  revert h hj
  fun_cases callStep c p o m <;> rintro ⟨⟩ <;> grind -linarith

private theorem callStep_stats (h : callStep c p o m = some (m', p')) (j : InstanceId) :
    (m'.heap j).statsAccess = if p'.statsOf = some j then some c
      else if p.statsOf = some j then none else (m.heap j).statsAccess := by
  revert h
  fun_cases callStep c p o m <;> rintro ⟨⟩ <;>
    grind -linarith [Shared.setInstance_heap]

private theorem callStep_stats_free (h : callStep c p o m = some (m', p')) {j : InstanceId}
    (hj : p'.statsOf = some j) : (m.heap j).statsAccess = none := by
  revert h hj
  fun_cases callStep c p o m <;> rintro ⟨⟩ <;> grind -linarith

private theorem callStep_writer (h : callStep c p o m = some (m', p'))
    (hown : p.isWriter = true → m.registry.writer = some c) :
    m'.registry.writer = if p'.isWriter then some c
      else if p.isWriter then none else m.registry.writer := by
  revert h
  fun_cases callStep c p o m <;> rintro ⟨⟩ <;>
    grind -linarith [Shared.setInstance_registry, insertInstance, deleteEntry, Registry.rUnlock]

private theorem callStep_writer_free (h : callStep c p o m = some (m', p'))
    (hw : p'.isWriter = true) : p.isWriter = true ∨ m.registry.writer = none := by
  revert h hw
  fun_cases callStep c p o m <;> rintro ⟨⟩ <;> grind -linarith

private theorem callStep_readers (h : callStep c p o m = some (m', p')) (d : CallId) :
    d ∈ m'.registry.readers ↔
      if d = c then p'.isReader = true ∨ p.isReader = false ∧ c ∈ m.registry.readers
      else d ∈ m.registry.readers := by
  revert h
  fun_cases callStep c p o m <;> rintro ⟨⟩ <;>
    grind -linarith [Shared.setInstance_registry, insertInstance, deleteEntry, Registry.rUnlock]

theorem callStep_next (h : callStep c p o m = some (m', p')) :
    m'.registry.next = (if p.inserts then nextHandle m.registry.next else m.registry.next) ∧
      m'.registry.issued = m.registry.issued + if p.inserts then 1 else 0 := by
  revert h
  fun_cases callStep c p o m <;> rintro ⟨⟩ <;>
    simp [insertInstance, deleteEntry, Registry.rUnlock]

private theorem entriesAfter_ne_none {r : Registry} {p : NativeCall} {k : Handle}
    (hk : entriesAfter r p k ≠ none) :
    r.byID k ≠ none ∨ p.inserts = true ∧ k = nextHandle r.next := by
  cases p <;> simp_all [Function.update_apply]
  grind -linarith

/-- As long as fewer than 2^64 handles have been issued, the counter counts them and every entry
has one of them. -/
def Numbered (r : Registry) : Prop :=
  r.issued < 2 ^ 64 → r.next.toNat = r.issued ∧ ∀ h, r.byID h ≠ none → h.toNat ≤ r.issued

private theorem callStep_numbered (h : callStep c p o m = some (m', p'))
    (hm : Numbered m.registry) : Numbered m'.registry := by
  intro hfew
  obtain ⟨hnext, hissued⟩ := callStep_next h
  obtain ⟨hcount, hentries⟩ := hm (by omega)
  have hlive : ∀ k, m'.registry.byID k ≠ none →
      k.toNat ≤ m.registry.issued ∨ p.inserts = true ∧ k = nextHandle m.registry.next := by
    intro k hk
    rw [callStep_byID h] at hk
    exact (entriesAfter_ne_none hk).imp_left (hentries k)
  cases hp : p.inserts with
  | false =>
      simp only [hp, Bool.false_eq_true, if_false, false_and, or_false, Nat.add_zero] at hnext hissued hlive
      rw [hnext, hissued]
      exact ⟨hcount, hlive⟩
  | true =>
      simp only [hp, if_true, true_and] at hnext hissued hlive
      have hnew : (nextHandle m.registry.next).toNat = m.registry.issued + 1 := by
        rw [nextHandle_toNat (by omega), hcount]
      rw [hnext, hissued]
      refine ⟨hnew, fun k hk => ?_⟩
      obtain hold | rfl := hlive k hk <;> omega

theorem callStep_heap_of_handleOf (h : callStep c p o m = some (m', p')) {x : Handle}
    (hp : p.handleOf = some x) : m'.heap = m.heap := by
  revert h
  fun_cases callStep c p o m <;> rintro ⟨⟩ <;> simp_all

theorem callStep_next_of_handleOf (h : callStep c p o m = some (m', p')) {x : Handle}
    (hp : p.handleOf = some x) : m'.registry.next = m.registry.next := by
  revert h
  fun_cases callStep c p o m <;> rintro ⟨⟩ <;> simp_all [deleteEntry, Registry.rUnlock]

theorem callStep_lookup (h : callStep c p o m = some (m', p')) {x : Handle}
    (hp : p.looksUp = some x) : p'.lookedUp ∧ p'.targetOf = m.registry.byID x := by
  revert h
  fun_cases callStep c p o m <;> rintro ⟨⟩ <;>
    grind -linarith [NativeCall.lookedUp]

theorem callStep_target (h : callStep c p o m = some (m', p')) (hp : p.lookedUp) :
    p'.lookedUp ∧ (∀ j, p'.targetOf = some j → p.targetOf = some j) ∧
      ∀ j, m'.heap j ≠ m.heap j → p.targetOf = some j := by
  revert h
  fun_cases callStep c p o m <;> rintro ⟨⟩ <;>
    grind -linarith [NativeCall.lookedUp, Shared.setInstance_heap]

end Step

section Invariant

variable {s t : Native} {c d : CallId} {o : Outcome}

theorem nativeStep_eq_some :
    nativeStep s c o = some t ↔ ∃ m p, callStep c (s.calls c) o s.shared = some (m, p) ∧
      t = { shared := m, calls := Function.update s.calls c p } := by
  simp [nativeStep, Prod.exists, eq_comm]

/-- Who holds which lock, read off the places of the calls. -/
structure Ownership (s : Native) : Prop where
  writer : ∀ c, s.shared.registry.writer = some c ↔ (s.calls c).isWriter = true
  readers : ∀ c, c ∈ s.shared.registry.readers ↔ (s.calls c).isReader = true
  access : ∀ i c, (s.shared.heap i).access = some c ↔ (s.calls c).accessOf = some i
  stats : ∀ i c, (s.shared.heap i).statsAccess = some c ↔ (s.calls c).statsOf = some i

theorem Ownership.access_unique (hs : Ownership s) {i : InstanceId}
    (hc : (s.calls c).accessOf = some i) (hd : (s.calls d).accessOf = some i) : c = d := by
  have h := (hs.access i c).mpr hc
  rw [(hs.access i d).mpr hd] at h
  exact (Option.some.inj h).symm

theorem Ownership.step (hs : Ownership s) (h : nativeStep s c o = some t) : Ownership t := by
  obtain ⟨m, p, hstep, rfl⟩ := nativeStep_eq_some.mp h
  have hw := callStep_writer hstep fun hw => (hs.writer c).mpr hw
  have hr := callStep_readers hstep
  have ha := callStep_access hstep fun j hj => (hs.access j c).mpr hj
  have ht := callStep_stats hstep
  constructor
  · intro d
    have hfree := callStep_writer_free hstep
    have hd := hs.writer d
    have hc := hs.writer c
    simp only [Function.update_apply]
    grind -linarith
  · intro d
    have hd := hs.readers d
    have hdr := hr d
    simp only [Function.update_apply]
    grind -linarith
  · intro i d
    have hfree := callStep_access_free hstep (j := i)
    have hd := hs.access i d
    have hc := hs.access i c
    have hia := ha i
    simp only [Function.update_apply]
    grind -linarith
  · intro i d
    have hfree := callStep_stats_free hstep (j := i)
    have hd := hs.stats i d
    have hc := hs.stats i c
    have hit := ht i
    simp only [Function.update_apply]
    grind -linarith

/-- The life of every instance.  A call past its check has kept the lock since, so what it saw
still holds. -/
structure Lifecycle (s : Native) : Prop where
  snapshot : ∀ c i, (s.calls c).snapshotOf = some i → (s.shared.heap i).closed = false
  closing : ∀ c i, (s.calls c).closingOf = some i → (s.shared.heap i).closed = true
  cancelled : ∀ c i, s.calls c = .closeCore i → (s.shared.heap i).cancelled = true
  counted : ∀ i, (s.shared.heap i).Counted
  finished : ∀ i, (s.shared.heap i).closed = true →
    (s.shared.heap i).done = true ∨ ∃ c, (s.calls c).closingOf = some i

theorem Lifecycle.closes (hs : Lifecycle s) (i : InstanceId) :
    (s.shared.heap i).coreCloses ≤ 1 := by
  rw [hs.counted i]
  split <;> omega

/-- What the holder of `access` has seen of its instance survives the steps of other calls. -/
theorem Ownership.frame (hown : Ownership s) (h : nativeStep s c o = some t) {i : InstanceId}
    (hd : d ≠ c) (ha : (s.calls d).accessOf = some i) :
    (t.shared.heap i).closed = (s.shared.heap i).closed := by
  obtain ⟨m, p, hstep, rfl⟩ := nativeStep_eq_some.mp h
  have hother : s.calls c ≠ .closeCheck i := by
    intro hc
    exact hd (hown.access_unique ha (by rw [hc]; rfl))
  rw [callStep_closed hstep i]
  simp [hother]

theorem Lifecycle.step (hs : Lifecycle s) (hown : Ownership s) (h : nativeStep s c o = some t) :
    Lifecycle t := by
  have hframe := fun {d : CallId} {i : InstanceId} => hown.frame (d := d) (i := i) h
  obtain ⟨m, p, hstep, rfl⟩ := nativeStep_eq_some.mp h
  have hclosed := callStep_closed hstep
  have hdone := callStep_done hstep
  have hkeep := fun {j : InstanceId} => callStep_cancelled hstep (j := j)
  simp only at hframe
  constructor
  · intro d i hd
    by_cases hdc : d = c
    · subst d
      simp only [Function.update_self] at hd
      rcases callStep_snapshot hstep hd with hold | ⟨hcheck, hopen⟩
      · have hne : s.calls c ≠ .closeCheck i := by intro hc; simp [hc] at hold
        simp [hclosed i, hs.snapshot c i hold, hne]
      · simp [hclosed i, hcheck, hopen]
    · simp only [Function.update_of_ne hdc] at hd
      rw [hframe hdc (NativeCall.accessOf_of_snapshotOf hd)]
      exact hs.snapshot d i hd
  · intro d i hd
    by_cases hdc : d = c
    · subst d
      simp only [Function.update_self] at hd
      rcases callStep_closing hstep hd with ⟨hcheck, -⟩ | hcancel
      · simp [hclosed i, hcheck]
      · have hold := hs.closing c i (by rw [hcancel]; rfl)
        simp [hclosed i, hold]
    · simp only [Function.update_of_ne hdc] at hd
      rw [hframe hdc (NativeCall.accessOf_of_closingOf hd)]
      exact hs.closing d i hd
  · intro d i hd
    by_cases hdc : d = c
    · subst d
      simp only [Function.update_self] at hd
      exact hkeep (.inr (callStep_closeCore hstep hd))
    · simp only [Function.update_of_ne hdc] at hd
      exact hkeep (.inl (hs.cancelled d i hd))
  · exact callStep_counted hstep hs.counted
  · intro i hi
    cases hopen : (s.shared.heap i).closed with
    | false =>
        rw [hclosed i, hopen, Bool.false_or, decide_eq_true_eq] at hi
        exact .inr ⟨c, by simpa using callStep_marks hstep hi hopen⟩
    | true =>
        rcases hs.finished i hopen with hold | ⟨d, hd⟩
        · exact .inl (by simp [hdone i, hold])
        · by_cases hdc : d = c
          · subst d
            rcases callStep_closing_left hstep hd with hnext | hc
            · exact .inr ⟨c, by simpa using hnext⟩
            · exact .inl (by simp [hdone i, hc])
          · exact .inr ⟨d, by simpa [Function.update_of_ne hdc] using hd⟩

theorem Ownership.enter (hs : Ownership s) {place : NativeCall} (hc : s.calls c = .idle)
    (hp : place.isEntry = true) : Ownership (s.enter c place) := by
  have hplace : ∀ d, (Function.update s.calls c place d).isWriter = (s.calls d).isWriter ∧
      (Function.update s.calls c place d).isReader = (s.calls d).isReader ∧
      (Function.update s.calls c place d).accessOf = (s.calls d).accessOf ∧
      (Function.update s.calls c place d).statsOf = (s.calls d).statsOf := by
    intro d
    by_cases hdc : d = c
    · subst d
      cases place <;> simp_all
    · simp [Function.update_of_ne hdc]
  constructor
  · intro d; rw [Native.enter, (hplace d).1]; exact hs.writer d
  · intro d; rw [Native.enter, (hplace d).2.1]; exact hs.readers d
  · intro i d; rw [Native.enter, (hplace d).2.2.1]; exact hs.access i d
  · intro i d; rw [Native.enter, (hplace d).2.2.2]; exact hs.stats i d

theorem Lifecycle.enter (hs : Lifecycle s) {place : NativeCall} (hc : s.calls c = .idle)
    (hp : place.isEntry = true) : Lifecycle (s.enter c place) := by
  have hplace : ∀ d, (Function.update s.calls c place d).snapshotOf = (s.calls d).snapshotOf ∧
      (Function.update s.calls c place d).closingOf = (s.calls d).closingOf ∧
      ∀ i, Function.update s.calls c place d = .closeCore i → s.calls d = .closeCore i := by
    intro d
    by_cases hdc : d = c
    · subst d
      cases place <;> simp_all
    · simp [Function.update_of_ne hdc]
  refine ⟨?_, ?_, ?_, hs.counted, ?_⟩
  · intro d i hd; exact hs.snapshot d i ((hplace d).1 ▸ hd)
  · intro d i hd; exact hs.closing d i ((hplace d).2.1 ▸ hd)
  · intro d i hd; exact hs.cancelled d i ((hplace d).2.2 i hd)
  · intro i hi
    obtain hdone | ⟨d, hd⟩ := hs.finished i hi
    · exact .inl hdone
    · exact .inr ⟨d, by rw [Native.enter, (hplace d).2.1]; exact hd⟩

/-- Lock ownership and the life of the instances, the invariant of every run. -/
structure NativeInv (s : Native) : Prop where
  owns : Ownership s
  life : Lifecycle s

theorem NativeInv.initial : NativeInv {} := by
  constructor <;> constructor <;> simp [Instance.Counted]

theorem NativeInv.step (hs : NativeInv s) (h : nativeStep s c o = some t) : NativeInv t :=
  ⟨hs.owns.step h, hs.life.step hs.owns h⟩

theorem NativeInv.enter (hs : NativeInv s) {place : NativeCall} (hc : s.calls c = .idle)
    (hp : place.isEntry = true) : NativeInv (s.enter c place) :=
  ⟨hs.owns.enter hc hp, hs.life.enter hc hp⟩

/-- A step of the registry is a step of a running call or the beginning of a new one. -/
theorem registryStep_cases {a : CallId × NativeAction} (h : registryStep s a = some t) :
    (∃ o, a.2 = .advance o ∧ nativeStep s a.1 o = some t) ∨
      ∃ place, place.isEntry = true ∧ s.calls a.1 = .idle ∧ t = s.enter a.1 place := by
  obtain ⟨c, a⟩ := a
  cases a with
  | advance o => exact .inl ⟨o, rfl, h⟩
  | start | stop x | query x =>
      right
      simp only [registryStep, NativeAction.entry, Option.map_some] at h
      split at h
      · rename_i hidle
        exact ⟨_, rfl, hidle, (Option.some.inj h).symm⟩
      · cases h

theorem registryStep_enter {place : NativeCall} (hidle : s.calls c = .idle)
    (hp : place.isEntry = true) : ∃ a, Binding.registryStep s (c, a) = some (s.enter c place) := by
  cases place with
  | buildInstance => exact ⟨.start, by simp [Binding.registryStep, hidle, NativeAction.entry]⟩
  | stopLock h => exact ⟨.stop h, by simp [Binding.registryStep, hidle, NativeAction.entry]⟩
  | queryDecode h => exact ⟨.query h, by simp [Binding.registryStep, hidle, NativeAction.entry]⟩
  | _ => simp at hp

theorem NativeInv.registryStep (hs : NativeInv s) {a : CallId × NativeAction}
    (h : registryStep s a = some t) : NativeInv t := by
  obtain ⟨o, _, hstep⟩ | ⟨place, hp, hidle, rfl⟩ := registryStep_cases h
  · exact hs.step hstep
  · exact hs.enter hidle hp

theorem NativeInv.of_reachable (h : Reachable Binding.registryStep {} s) : NativeInv s :=
  h.invariant .initial fun _ _ _ hI hstep => hI.registryStep hstep

theorem Numbered.of_reachable (h : Reachable Binding.registryStep {} s) :
    Numbered s.shared.registry := by
  refine h.invariant (I := fun s => Numbered s.shared.registry) (fun _ => ⟨rfl, by simp⟩) ?_
  intro s a t hs hstep
  obtain ⟨o, _, hcall⟩ | ⟨place, _, _, rfl⟩ := registryStep_cases hstep
  · obtain ⟨m, p, hm, rfl⟩ := nativeStep_eq_some.mp hcall
    exact callStep_numbered hm hs
  · exact hs

end Invariant

end SingBoxPython.Binding
