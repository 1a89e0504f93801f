import SingBoxPython.Binding.WrapperSafety

/-!
# No deadlock

The five kinds of locks of the binding form a hierarchy: the GIL, the mutex of an object, the
registry (a writer first announces itself, then waits for the readers), the instance, its
statistics service.  A call waits only for a lock above all those it holds, the destructor with
its GIL included.
-/

namespace SingBoxPython.Binding
open Framework

inductive Lock
  | gil
  | mutex (x : ObjectId)
  | registryWriter
  | registryReaders
  | access (i : InstanceId)
  | stats (i : InstanceId)
  deriving DecidableEq

def Lock.rank : Lock → Nat
  | gil => 0
  | mutex _ => 1
  | registryWriter => 2
  | registryReaders => 3
  | access _ => 4
  | stats _ => 5

def NativeCall.waitsFor : NativeCall → Option Lock
  | startLock _ | stopLock _ | queryRLock _ => some .registryWriter
  | startDrain _ | stopDrain _ => some .registryReaders
  | closeLock i | queryLock i => some (.access i)
  | queryStatsLock i => some (.stats i)
  | _ => none

def NativeCall.holds (p : NativeCall) : Lock → Prop
  | .registryWriter => p.isWriter = true
  | .registryReaders => p.isReader = true
  | .access i => p.accessOf = some i
  | .stats i => p.statsOf = some i
  | _ => False

def Phase.waitsFor (x : ObjectId) : Phase → Option Lock
  | .enter => some .gil
  | .encodeYield => some .gil
  | .lock => some (.mutex x)
  | .native _ p => p.waitsFor
  | .acquire _ _ => some .gil
  | .relock _ _ => some (.mutex x)
  | .decodeYield _ => some .gil
  | _ => none

def Phase.holds (op : Operation) (x : ObjectId) (ph : Phase) : Lock → Prop
  | .gil => ph.holdsGil op = true
  | .mutex y => y = x ∧ ph.holdsMutex op = true
  | l => ∃ k p, ph = native k p ∧ p.holds l

def Call.waits : Call → Lock → Prop
  | .idle, _ => False
  | .active _ x ph, l => ph.waitsFor x = some l

def Call.holds : Call → Lock → Prop
  | .idle, _ => False
  | .active op x ph, l => ph.holds op x l

def Process.waits (s : Process) (c : CallId) : Lock → Prop :=
  (s.calls c).waits

def Process.holds (s : Process) (c : CallId) : Lock → Prop :=
  (s.calls c).holds

def Call.unfinished : Call → Prop
  | .idle => False
  | .active _ _ ph => ∀ k e, ph ≠ .done k e

private theorem NativeCall.rank_lt {p : NativeCall} {l l' : Lock} (hw : p.waitsFor = some l)
    (hh : p.holds l') : l'.rank < l.rank := by
  cases p <;> cases l' <;> simp_all [waitsFor, holds, Lock.rank] <;> subst hw <;> simp

private theorem Phase.rank_lt {op : Operation} {x : ObjectId} {ph : Phase} {l l' : Lock}
    (hw : ph.waitsFor x = some l) (hh : ph.holds op x l') : l'.rank < l.rank := by
  cases ph with
  | native k p =>
      have hlow : 1 < l.rank := by
        cases p <;> simp [waitsFor, NativeCall.waitsFor] at hw <;> subst hw <;> simp [Lock.rank]
      cases l' with
      | gil | mutex y => exact Nat.lt_of_le_of_lt (by simp [Lock.rank]) hlow
      | _ =>
          obtain ⟨_, q, heq, hq⟩ := hh
          cases heq
          exact NativeCall.rank_lt hw hq
  | _ => cases l' <;> simp_all [waitsFor, holds, Lock.rank] <;> subst hw <;> simp

private theorem lockOrdered (s : Process) :
    LockOrdered s.waits s.holds Lock.rank := by
  intro c l l' hw hh
  unfold Process.waits Process.holds at *
  cases hc : s.calls c with
  | idle =>
      rw [hc] at hw
      exact hw.elim
  | active op x ph =>
      rw [hc] at hw hh
      exact Phase.rank_lt hw hh

/-! ## A call that waits for nobody can take a step -/

/-- The registry, the instances and the GIL and mutexes name the holders that the places show. -/
def Free (w : World) : Lock → Prop
  | .gil => w.gil = none
  | .mutex x => (w.objects x).mutex = none
  | .registryWriter => w.shared.registry.writer = none
  | .registryReaders => w.shared.registry.readers = ∅
  | .access i => (w.shared.heap i).access = none
  | .stats i => (w.shared.heap i).statsAccess = none

private theorem callStep_enabled (c : CallId) {p : NativeCall} {w : World} (hidle : p ≠ .idle)
    (hret : ∀ r, p ≠ .returned r) (hfree : ∀ l, p.waitsFor = some l → Free w l) :
    ∃ r, callStep c p (.ok false) w.shared = some r := by
  cases p <;> simp_all [callStep, NativeCall.waitsFor, Free] <;> split <;> simp

private theorem memberStep_native {c : CallId} {op : Operation} {x : ObjectId} {o : Outcome}
    {yields : Bool} {w : World} {k : Handle} {p q : NativeCall} {m : Shared}
    (h : callStep c p o w.shared = some (m, q)) :
    memberStep c op x o yields w (.native k p) = some ({ w with shared := m }, .native k q) := by
  cases p with
  | returned r => cases h
  | _ => simp only [memberStep, h]

private theorem memberStep_enabled (c : CallId) {op : Operation} {x : ObjectId} {w : World}
    {ph : Phase} (htyped : ph.typed op = true) (hdone : ∀ k e, ph ≠ .done k e)
    (hfree : ∀ l, ph.waitsFor x = some l → Free w l) :
    ∃ r, memberStep c op x (.ok false) false w ph = some r := by
  cases ph with
  | native k p =>
      by_cases hret : ∃ r, p = .returned r
      · obtain ⟨r, rfl⟩ := hret
        simp only [memberStep]
        split <;> simp
      · have hidle : p ≠ .idle := by
          rintro rfl
          simp at htyped
        obtain ⟨⟨m, q⟩, hr⟩ := callStep_enabled c (w := w) hidle (fun r h => hret ⟨r, h⟩) hfree
        exact ⟨_, memberStep_native hr⟩
  | first =>
      cases op with
      | running | handle => exact ⟨_, rfl⟩
      | _ =>
          simp only [memberStep]
          split_ifs <;> simp
  | second k r => cases op <;> cases r <;> simp [memberStep]
  | done k e => exact absurd rfl (hdone k e)
  | _ => simp_all [memberStep, Phase.waitsFor, Free] <;> split <;> simp

theorem Mirrors.holds {call : Call} {p : NativeCall} {l : Lock} (hm : Mirrors call p)
    (hp : p.holds l) : call.holds l := by
  have hnot : p ≠ .idle ∧ ∀ r, p ≠ .returned r := by
    constructor
    · rintro rfl
      cases l <;> simp [NativeCall.holds] at hp
    · rintro r rfl
      cases l <;> simp [NativeCall.holds] at hp
  cases call with
  | idle => exact absurd hm hnot.1
  | active op x ph =>
      cases ph with
      | native k q =>
          obtain rfl : p = q := hm
          cases l with
          | gil | mutex y => exact hp.elim
          | _ => exact ⟨k, p, rfl, hp⟩
      | acquire k r | relock k r | second k r => exact absurd hm (hnot.2 r)
      | decode k | decodeYield k | leave k e | done k e =>
          obtain hidle | ⟨r, hr⟩ := hm
          · exact absurd hidle hnot.1
          · exact absurd hr (hnot.2 r)
      | _ => exact absurd hm hnot.1

variable {s : Process}

private theorem exists_holder (hs : Reachable processStep {} s) {l : Lock} (hl : ¬ Free s.world l) :
    ∃ c, (s.calls c).holds l := by
  have hinv := ProcessInv.of_reachable hs
  obtain ⟨n, hn, hshared, hcalls⟩ := exists_native_run hs
  have hinvn := NativeInv.of_reachable hn
  have hnative : ∀ {d : CallId}, (n.calls d).holds l → (s.calls d).holds l :=
    fun hd => (hcalls _).holds hd
  cases l with
  | gil =>
      obtain ⟨c, hc⟩ := Option.ne_none_iff_exists'.mp hl
      obtain ⟨x, hx⟩ := (hinv.gil c).mp hc
      refine ⟨c, ?_⟩
      cases hcall : s.calls c with
      | idle => simp [hcall] at hx
      | active op y ph =>
          rw [hcall] at hx
          exact hx.2
  | mutex x =>
      obtain ⟨c, hc⟩ := Option.ne_none_iff_exists'.mp hl
      have hx := (hinv.mutex x c).mp hc
      refine ⟨c, ?_⟩
      cases hcall : s.calls c with
      | idle => simp [hcall] at hx
      | active op y ph =>
          rw [hcall] at hx
          exact ⟨hx.1.symm, hx.2⟩
  | registryWriter =>
      rw [Free, ← hshared] at hl
      obtain ⟨c, hc⟩ := Option.ne_none_iff_exists'.mp hl
      exact ⟨c, hnative ((hinvn.owns.writer c).mp hc)⟩
  | registryReaders =>
      rw [Free, ← hshared] at hl
      obtain ⟨c, hc⟩ := Finset.nonempty_iff_ne_empty.mpr hl
      exact ⟨c, hnative ((hinvn.owns.readers c).mp hc)⟩
  | access i =>
      rw [Free, ← hshared] at hl
      obtain ⟨c, hc⟩ := Option.ne_none_iff_exists'.mp hl
      exact ⟨c, hnative ((hinvn.owns.access i c).mp hc)⟩
  | stats i =>
      rw [Free, ← hshared] at hl
      obtain ⟨c, hc⟩ := Option.ne_none_iff_exists'.mp hl
      exact ⟨c, hnative ((hinvn.owns.stats i c).mp hc)⟩

private theorem unfinished_of_holds {call : Call} {l : Lock}
    (h : call.holds l) : call.unfinished := by
  cases call with
  | idle => exact h.elim
  | active op x ph =>
      rintro k e rfl
      cases l <;> simp [Call.holds, Phase.holds] at h

private theorem exists_step_of_not_waiting (hs : Reachable processStep {} s) {d : CallId}
    (hd : (s.calls d).unfinished)
    (hfree : ∀ e, ¬ WaitsFor s.waits s.holds d e) :
    ∃ o t, processStep s (d, .advance o false) = some t := by
  cases hcall : s.calls d with
  | idle =>
      rw [hcall] at hd
      exact hd.elim
  | active op x ph =>
      rw [hcall] at hd
      have hlocks : ∀ l, ph.waitsFor x = some l → Free s.world l := by
        intro l hl
        by_contra hheld
        obtain ⟨e, he⟩ := exists_holder hs hheld
        refine hfree e ⟨l, ?_, he⟩
        rw [Process.waits, hcall]
        exact hl
      have htyped := (ProcessInv.of_reachable hs).typed d op x ph hcall
      obtain ⟨r, hr⟩ := memberStep_enabled d htyped hd hlocks
      exact ⟨.ok false, s.put d r.1 (.active op x r.2), by simp [processStep, hcall, hr]⟩

/-- In every reachable state no calls wait for each other in a circle, and unless all calls have
returned one of the unfinished ones can take a step. -/
theorem binding_deadlock_free (hs : Reachable processStep {} s) :
    (∀ c, ¬ Relation.TransGen (WaitsFor s.waits s.holds) c c) ∧
    ((∃ c, (s.calls c).unfinished) →
      ∃ d, (s.calls d).unfinished ∧ ∃ o t, processStep s (d, .advance o false) = some t) := by
  have hord := lockOrdered s
  refine ⟨waitsFor_acyclic hord, ?_⟩
  rintro ⟨c, hc⟩
  have hbound : ∀ l : Lock, l.rank ≤ 5 := by
    intro l
    cases l <;> simp [Lock.rank]
  obtain ⟨d, hchain, hd⟩ := exists_not_waiting hord hbound c
  have hunfinished : (s.calls d).unfinished := by
    obtain rfl | ⟨e, _, l, _, hl⟩ := hchain.cases_tail
    · exact hc
    · exact unfinished_of_holds hl
  exact ⟨d, hunfinished, exists_step_of_not_waiting hs hunfinished hd⟩

/-- Object 0 is started; a start on object 1 has returned from the native side and wants the GIL,
which the destructor of object 0 keeps during its native stop. -/
def contendedGil : List (CallId × Action) :=
  (0, .call .startFromJSON 0) :: List.replicate 14 (0, .advance (.ok false) false) ++
    (1, .call .startFromJSON 1) :: List.replicate 10 (1, .advance (.ok false) false) ++
    (2, .call .destructor 0) :: List.replicate 3 (2, .advance (.ok false) false)

theorem binding_deadlock_free_at_contendedGil :
    ∃ s, exec processStep {} contendedGil = some s ∧
      s.calls 1 = .active .startFromJSON 1 (.acquire 0 (.handle (.ofNat 2))) ∧
      s.calls 2 = .active .destructor 0 (.native 1 (.stopLock 1)) ∧ s.world.gil = some 2 ∧
      (∀ c, ¬ Relation.TransGen (WaitsFor s.waits s.holds) c c) ∧
      ∃ d, (s.calls d).unfinished ∧ ∃ o t, processStep s (d, .advance o false) = some t := by
  obtain ⟨s, hs, h1, h2, hgil⟩ : ∃ s, exec processStep {} contendedGil = some s ∧
      s.calls 1 = .active .startFromJSON 1 (.acquire 0 (.handle (.ofNat 2))) ∧
      s.calls 2 = .active .destructor 0 (.native 1 (.stopLock 1)) ∧ s.world.gil = some 2 :=
    ⟨_, rfl, rfl, rfl, rfl⟩
  have hfree := binding_deadlock_free ⟨_, hs⟩
  refine ⟨s, hs, h1, h2, hgil, hfree.1, hfree.2 ⟨1, ?_⟩⟩
  rw [h1]
  intro k e
  simp

end SingBoxPython.Binding
