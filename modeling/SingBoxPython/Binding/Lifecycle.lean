import SingBoxPython.Framework.Keys
import SingBoxPython.Binding.WrapperSafety

/-!
# Lifecycle ownership

Every entry of the Go registry has exactly one owner on the Python side: the object that stores
its handle, a start whose handle is not stored yet, or a stop or destructor that has taken the
handle out of the object and not deleted the entry yet.
-/

namespace SingBoxPython.Binding
open Framework

inductive Owner
  | object (x : ObjectId)
  | starting (c : CallId)
  | stopping (c : CallId)
  deriving DecidableEq

def Call.started : Call → Handle
  | .idle => 0
  | .active _ _ ph => ph.started

def Call.taken : Call → Handle
  | .idle => 0
  | .active op _ ph => ph.taken op

def ownedHandle (s : Process) : Owner → Handle
  | .object x => (s.world.objects x).handle
  | .starting c => (s.calls c).started
  | .stopping c => (s.calls c).taken

def entries (s : Process) : Set Handle :=
  {h | s.world.shared.registry.byID h ≠ none}

def issued (s : Process) : Nat :=
  s.world.shared.registry.issued

section Step

variable {s t : Process} {c : CallId} {op : Operation} {x : ObjectId} {o : Outcome} {yields : Bool}
  {w : World} {ph ph' : Phase}

private theorem Numbered.of_process (hs : Reachable processStep {} s) :
    Numbered s.world.shared.registry := by
  obtain ⟨n, hn, hshared, _⟩ := exists_native_run hs
  exact hshared ▸ Numbered.of_reachable hn

private theorem processStep_issued_le {a : CallId × Action} (h : processStep s a = some t) :
    issued s ≤ issued t := by
  obtain ⟨op, x, y, _, _, rfl⟩ | ⟨op, x, ph, o, yields, w, ph', _, hstep, rfl⟩ :=
    processStep_cases h
  · exact Nat.le_refl _
  · obtain hsame | ⟨k, p, p', _, hcall, _⟩ := memberStep_shared hstep
    · simp [issued, hsame]
    · simp only [issued, (callStep_next hcall).2]
      omega

private theorem ownedHandle_member (hstep : memberStep c op x o yields s.world ph = some (w, ph')) :
    ownedHandle (s.put c w (.active op x ph')) =
      Function.update (Function.update (Function.update (ownedHandle s)
        (.object x) (w.objects x).handle) (.starting c) ph'.started) (.stopping c)
        (ph'.taken op) := by
  funext v
  cases v with
  | object y =>
      by_cases hy : y = x
      · simp [ownedHandle, hy]
      · simp [ownedHandle, hy, memberStep_frame hstep hy]
  | starting d =>
      by_cases hd : d = c
      · simp [ownedHandle, hd, Call.started]
      · simp [ownedHandle, hd, Function.update_of_ne]
  | stopping d =>
      by_cases hd : d = c
      · simp [ownedHandle, hd, Call.taken]
      · simp [ownedHandle, hd, Function.update_of_ne]

private theorem owns_begin {y : Object} (hown : Owns (ownedHandle s) (entries s))
    (hidle : s.calls c = .idle) (hbegin : (s.world.objects x).begin c op = some y) :
    Owns (ownedHandle (s.put c (s.world.setObject x y) (.active op x .enter)))
      (entries (s.put c (s.world.setObject x y) (.active op x .enter))) := by
  have hsame : ownedHandle (s.put c (s.world.setObject x y) (.active op x .enter)) =
      ownedHandle s := by
    obtain ⟨_, hy⟩ := Object.begin_cases hbegin
    have hhandle : y.handle = (s.world.objects x).handle := by
      rcases hy with ⟨_, _, rfl⟩ | ⟨_, rfl⟩ <;> rfl
    funext v
    cases v with
    | object z => by_cases hz : z = x <;> simp [ownedHandle, hz, hhandle]
    | starting d =>
        by_cases hd : d = c
        · subst hd
          simp [ownedHandle, hidle, Call.started]
        · simp [ownedHandle, Function.update_of_ne hd]
    | stopping d =>
        by_cases hd : d = c
        · subst hd
          simp [ownedHandle, hidle, Call.taken]
        · simp [ownedHandle, Function.update_of_ne hd]
  rw [hsame]
  exact hown

private theorem owns_member (hown : Owns (ownedHandle s) (entries s)) (hs : ProcessInv s)
    (hnum : Numbered s.world.shared.registry) (hc : s.calls c = .active op x ph)
    (hstep : memberStep c op x o yields s.world ph = some (w, ph'))
    (hfew : w.shared.registry.issued < 2 ^ 64) :
    Owns (ownedHandle (s.put c w (.active op x ph'))) (entries (s.put c w (.active op x ph'))) := by
  have hmove := memberStep_handles hstep (hs.typed c op x ph hc)
    (fun h => hs.cleared x c (by simp only [hc, Call.at_active, true_and]; exact h))
  have hafter := ownedHandle_member hstep
  have hobject : ownedHandle s (.object x) = (s.world.objects x).handle := rfl
  have hstart : ownedHandle s (.starting c) = ph.started := by
    simp only [ownedHandle, hc, Call.started]
  have hstop : ownedHandle s (.stopping c) = ph.taken op := by
    simp only [ownedHandle, hc, Call.taken]
  have hkeep : w.shared.registry.byID = s.world.shared.registry.byID →
      entries (s.put c w (.active op x ph')) = entries s := by
    intro hby
    simp only [entries, hby]
  rcases hmove with ⟨hby, hv⟩ | ⟨hby, hne, hzero, hv⟩ | ⟨hby, hzero, hv⟩ |
    ⟨i, hby, hcount, hzero, hv⟩ | ⟨hby, hv⟩ <;>
    simp only [Handles.mk.injEq] at hv <;> obtain ⟨hh, hst, htk⟩ := hv
  · have hsame : ownedHandle (s.put c w (.active op x ph')) = ownedHandle s := by
      rw [hafter, hh, hst, htk, ← hobject, ← hstart, ← hstop]
      simp only [Function.update_eq_self]
    rw [hsame, hkeep hby]
    exact hown
  · have hmoved : ownedHandle (s.put c w (.active op x ph')) =
        Function.update (Function.update (ownedHandle s) (.object x) 0) (.stopping c)
          (ownedHandle s (.object x)) := by
      have hmid : Function.update (Function.update (ownedHandle s) (.object x) 0) (.starting c)
          (ownedHandle s (.starting c)) = Function.update (ownedHandle s) (.object x) 0 :=
        Function.update_eq_self_iff.mpr (by simp)
      rw [hafter, hh, hst, htk, ← hobject, ← hstart, hmid]
    rw [hmoved, hkeep hby]
    exact hown.transfer (by simp) (by rw [hstop]; exact hzero)
  · have hmoved : ownedHandle (s.put c w (.active op x ph')) =
        Function.update (Function.update (ownedHandle s) (.starting c) 0) (.object x)
          (ownedHandle s (.starting c)) := by
      rw [hafter, hh, hst, htk, ← hstart, ← hstop, Function.update_eq_self_iff.mpr (by simp),
        Function.update_comm (by simp)]
    rw [hmoved, hkeep hby]
    exact hown.transfer (by simp) hzero
  · have hnew : ownedHandle (s.put c w (.active op x ph')) =
        Function.update (ownedHandle s) (.starting c)
          (nextHandle s.world.shared.registry.next) := by
      rw [hafter, hh, hst, htk, ← hobject, ← hstop, Function.update_eq_self,
        Function.update_eq_self_iff.mpr (by simp)]
    have hinsert : entries (s.put c w (.active op x ph')) =
        insert (nextHandle s.world.shared.registry.next) (entries s) := by
      ext k
      by_cases hk : k = nextHandle s.world.shared.registry.next <;> simp [entries, hby, hk]
    obtain ⟨hnext, hlive⟩ := hnum (by omega)
    have hfresh : nextHandle s.world.shared.registry.next ∉ entries s := by
      intro hmem
      have hle := hlive _ hmem
      rw [nextHandle_toNat (by omega), hnext] at hle
      omega
    rw [hnew, hinsert]
    exact hown.issue (by rw [hstart]; exact hzero) (nextHandle_ne_zero _) hfresh
  · have hgone : ownedHandle (s.put c w (.active op x ph')) =
        Function.update (ownedHandle s) (.stopping c) 0 := by
      rw [hafter, hh, hst, htk, ← hobject, ← hstart]
      simp only [Function.update_eq_self]
    have hdelete : entries (s.put c w (.active op x ph')) =
        entries s \ {ownedHandle s (.stopping c)} := by
      ext k
      have hby : w.shared.registry.byID =
          Function.update s.world.shared.registry.byID (ph.taken op) none := hby
      rw [hstop]
      generalize ph.taken op = tk at hby ⊢
      by_cases hk : k = tk <;> simp [entries, hby, hk]
    rw [hgone, hdelete]
    exact hown.retire _

private theorem owns_of_reachable (hs : Reachable processStep {} s) (hfew : issued s < 2 ^ 64) :
    Owns (ownedHandle s) (entries s) := by
  refine hs.induction (I := fun s => issued s < 2 ^ 64 → Owns (ownedHandle s) (entries s))
    ?_ ?_ hfew
  · intro _
    have hzero : ∀ v, ownedHandle {} v = 0 := fun v => by cases v <;> rfl
    exact ⟨fun v hv => absurd (hzero v) hv, fun v hv => absurd (hzero v) hv,
      fun k hk => absurd rfl hk⟩
  · intro s a t hs hown hstep hfew
    have hown := hown (Nat.lt_of_le_of_lt (processStep_issued_le hstep) hfew)
    obtain ⟨op, x, y, hidle, hbegin, rfl⟩ | ⟨op, x, ph, o, yields, w, ph', hc, hmember, rfl⟩ :=
      processStep_cases hstep
    · exact owns_begin hown hidle hbegin
    · exact owns_member hown (.of_reachable hs) (.of_process hs) hc hmember hfew

end Step

/-! ## What a stop leaves behind -/

/-- The entry of `h` is gone and the core of `i` has been closed. -/
structure Stopped (h : Handle) (i : InstanceId) (m : Shared) : Prop where
  deleted : m.registry.byID h = none
  closed : (m.heap i).closed = true
  done : (m.heap i).done = true

/-- How far a native stop of `h`, under which `i` is registered, has come. -/
@[grind =] def StopReaches (h : Handle) (i : InstanceId) (m : Shared) : NativeCall → Prop
  | .stopLock k | .stopDrain k | .stopDelete k => k = h ∧ m.registry.byID h = some i
  | .closeLock j | .closeCheck j | .closeCancel j | .closeCore j =>
      j = i ∧ m.registry.byID h = none
  | .returned _ => Stopped h i m
  | _ => False

section Stop

variable {m m' : Shared} {c d : CallId} {o : Outcome} {p p' q q' : NativeCall} {h : Handle}
  {i : InstanceId}

private theorem deleteEntry_byID (r : Registry) (h k : Handle) :
    (deleteEntry r h).byID k = if k = h then none else r.byID k := by
  simp [deleteEntry, Function.update_apply]

private theorem callStep_stopReaches (hstep : callStep c p o m = some (m', p'))
    (hp : StopReaches h i m p)
    (hcheck : p = .closeCheck i → (m.heap i).closed = true → (m.heap i).done = true)
    (hclosing : p = .closeCore i → (m.heap i).closed = true) :
    StopReaches h i m' p' := by
  revert hstep
  fun_cases callStep c p o m <;> rintro ⟨⟩ <;>
    grind -linarith [deleteEntry_byID, Stopped, Shared.setInstance_heap, Shared.setInstance_registry]

private theorem callStep_stop_other (hstep : callStep d q o m = some (m', q'))
    (hdelete : q = .stopDelete h → m.registry.byID h = none)
    (hinsert : q.inserts = true → nextHandle m.registry.next ≠ h) :
    m'.registry.byID h = m.registry.byID h ∧ (Stopped h i m → Stopped h i m') := by
  have hby : m'.registry.byID h = m.registry.byID h := by
    rw [callStep_byID hstep]
    cases q with
    | startInsert j => exact Function.update_of_ne (hinsert rfl).symm _ _
    | stopDelete k =>
        by_cases hk : k = h
        · subst hk
          simp [hdelete rfl]
        · exact Function.update_of_ne (Ne.symm hk) _ _
    | _ => rfl
  refine ⟨hby, ?_⟩
  rintro ⟨hdeleted, hclosed, hdone⟩
  exact ⟨by rw [hby, hdeleted], by rw [callStep_closed hstep i, hclosed]; rfl,
    by rw [callStep_done hstep i, hdone]; rfl⟩

end Stop

@[grind =] def StopPhase (h : Handle) (i : InstanceId) (m : Shared) : Phase → Prop
  | .release k => k = h ∧ m.registry.byID h = some i
  | .native _ p => StopReaches h i m p
  | .acquire _ _ | .relock _ _ | .second _ _ | .leave _ _ | .done _ _ => Stopped h i m
  | _ => False

section StopRun

variable {s t : Process} {c d : CallId} {x : ObjectId} {h : Handle} {i : InstanceId}

theorem StopPhase.congr {m m' : Shared} {ph : Phase} (hph : StopPhase h i m ph)
    (hby : m'.registry.byID h = m.registry.byID h) (hkeep : Stopped h i m → Stopped h i m') :
    StopPhase h i m' ph := by
  cases ph with
  | native k p => cases p <;> grind -linarith
  | _ => grind -linarith

private theorem StopPhase.owner {m : Shared} {ph : Phase} (hph : StopPhase h i m ph) :
    m.registry.byID h = none ∨ ph.taken .stop = h := by
  cases ph with
  | native k p => cases p <;> grind -linarith [Stopped]
  | _ => grind -linarith [Stopped]

private theorem memberStep_stopPhase {o : Outcome} {yields : Bool} {w w' : World} {ph ph' : Phase}
    (hstep : memberStep c .stop x o yields w ph = some (w', ph'))
    (hph : StopPhase h i w.shared ph)
    (hcheck : ∀ k, ph = .native k (.closeCheck i) → (w.shared.heap i).closed = true →
      (w.shared.heap i).done = true)
    (hclosing : ∀ k, ph = .native k (.closeCore i) → (w.shared.heap i).closed = true) :
    StopPhase h i w'.shared ph' := by
  revert hstep
  generalize hop : Operation.stop = op
  fun_cases memberStep c op x o yields w ph <;> rintro ⟨⟩
  all_goals first
    | exact callStep_stopReaches ‹_› hph (fun hp => hcheck _ (by rw [hp]))
        (fun hp => hclosing _ (by rw [hp]))
    | grind -linarith [World.unlock, World.setObject_shared, Operation.entry]

private theorem exists_native_at (hs : Reachable processStep {} s) :
    ∃ n, NativeInv n ∧ n.shared = s.world.shared ∧
      ∀ c op x k p, s.calls c = .active op x (.native k p) → n.calls c = p := by
  obtain ⟨n, hn, hshared, hcalls⟩ := exists_native_run hs
  refine ⟨n, .of_reachable hn, hshared, ?_⟩
  intro c op x k p hc
  have hmirror := hcalls c
  rw [hc] at hmirror
  exact hmirror

/-- The stop `c` on `x`, which took the handle `h` of the instance `i`, and how far it is. -/
def StopAt (c : CallId) (x : ObjectId) (h : Handle) (i : InstanceId) (s : Process) : Prop :=
  ∃ ph, s.calls c = .active .stop x ph ∧ StopPhase h i s.world.shared ph

private theorem stopAt_own (hs : Reachable processStep {} s) {o : Outcome} {yields : Bool}
    {w : World} {ph ph' : Phase} (hc : s.calls c = .active .stop x ph)
    (hstep : memberStep c .stop x o yields s.world ph = some (w, ph'))
    (hph : StopPhase h i s.world.shared ph) : StopPhase h i w.shared ph' := by
  obtain ⟨n, hn, hshared, hcalls⟩ := exists_native_at hs
  rw [← hshared] at hph
  refine memberStep_stopPhase hstep (hshared ▸ hph) ?_ ?_
  · rintro k rfl hclosed
    have hcall := hcalls c _ _ k _ hc
    rw [← hshared] at hclosed ⊢
    -- Whoever marked the instance closed and is not done holds its lock, which is ours.
    obtain hdone | ⟨d, hd⟩ := hn.life.finished i hclosed
    · exact hdone
    · have haccess : (n.calls c).accessOf = some i := by rw [hcall]; rfl
      obtain rfl := hn.owns.access_unique haccess (NativeCall.accessOf_of_closingOf hd)
      rw [hcall] at hd
      exact absurd hd (by simp)
  · rintro k rfl
    rw [← hshared]
    exact hn.life.closing c i (by rw [hcalls c _ _ k _ hc]; rfl)

private theorem stopAt_other (hs : Reachable processStep {} s) (hfew : issued t < 2 ^ 64)
    {op : Operation} {y : ObjectId} {o : Outcome} {yields : Bool}
    {w : World} {ph ph' phc : Phase} (hd : s.calls d = .active op y ph) (hdc : d ≠ c)
    (hc : s.calls c = .active .stop x phc)
    (hstep : memberStep d op y o yields s.world ph = some (w, ph')) (hw : t.world = w)
    (hle : h.toNat ≤ issued s)
    (hph : StopPhase h i s.world.shared phc) : StopPhase h i w.shared phc := by
  obtain hsame | ⟨k, q, q', rfl, hcall, rfl⟩ := memberStep_shared hstep
  · rw [hsame]
    exact hph
  · have hcount := (callStep_next hcall).2
    have hfew' : issued s < 2 ^ 64 := by
      simp only [issued, hw] at hfew ⊢
      omega
    have hown := owns_of_reachable hs hfew'
    have hdelete : q = .stopDelete h → s.world.shared.registry.byID h = none := by
      rintro rfl
      rcases hph.owner with hnone | htaken
      · exact hnone
      · by_contra hentry
        have hsame : ownedHandle s (.stopping c) = ownedHandle s (.stopping d) := by
          simp only [ownedHandle, hc, hd, Call.taken, htaken]
          rfl
        have hne : ownedHandle s (.stopping c) ≠ 0 := by
          simp only [ownedHandle, hc, Call.taken, htaken]
          rintro rfl
          exact hown.zero_notMem hentry
        have heq := hown.unique hne hsame
        exact hdc (by simpa using heq.symm)
    have hinsert : q.inserts = true → nextHandle s.world.shared.registry.next ≠ h := by
      intro hins heq
      obtain ⟨hnext, _⟩ := Numbered.of_process hs hfew'
      rw [hins] at hcount
      simp only [issued, hw, if_true] at hfew hle hcount
      rw [← heq, nextHandle_toNat (by omega)] at hle
      omega
    obtain ⟨hby, hkeep⟩ := callStep_stop_other hcall hdelete hinsert
    exact hph.congr hby hkeep

private theorem stopAt_step (hs : Reachable processStep {} s) {a : CallId × Action}
    (hstep : processStep s a = some t) (hfew : issued t < 2 ^ 64) (hle : h.toNat ≤ issued s)
    (hat : StopAt c x h i s) : StopAt c x h i t := by
  obtain ⟨phc, hc, hph⟩ := hat
  obtain ⟨op, y, z, hidle, _, rfl⟩ | ⟨op, y, ph, o, yields, w, ph', hd, hmember, rfl⟩ :=
    processStep_cases hstep
  · have hca : c ≠ a.1 := by
      rintro rfl
      rw [hidle] at hc
      cases hc
    exact ⟨phc, by simpa [Function.update_of_ne hca] using hc, hph⟩
  · by_cases hca : c = a.1
    · subst hca
      obtain ⟨rfl, rfl, rfl⟩ : op = .stop ∧ y = x ∧ ph = phc := by
        simpa using hd.symm.trans hc
      exact ⟨ph', by simp, stopAt_own hs hc hmember hph⟩
    · exact ⟨phc, by simpa [Function.update_of_ne hca] using hc,
        stopAt_other hs hfew hd (Ne.symm hca) hc hmember rfl hle hph⟩

private theorem stopAt_exec (hs : Reachable processStep {} s) {as : List (CallId × Action)}
    (hrun : exec processStep s as = some t) (hfew : issued t < 2 ^ 64) (hle : h.toNat ≤ issued s)
    (hat : StopAt c x h i s) : StopAt c x h i t := by
  induction as generalizing s with
  | nil =>
      obtain rfl : s = t := by simpa using hrun
      exact hat
  | cons a as ih =>
      obtain ⟨u, hu, hrest⟩ := exec_cons.mp hrun
      have hmono : issued u ≤ issued t := exec_invariant (I := fun v => issued u ≤ issued v)
        (fun _ _ _ hI hv => Nat.le_trans hI (processStep_issued_le hv)) (Nat.le_refl _) hrest
      have hsu := processStep_issued_le hu
      exact ih (hs.snoc hu) hrest (by omega) (stopAt_step hs hu (by omega) hle hat)

end StopRun

/-- What holds in every state of a process with fewer than 2^64 started instances. -/
structure LifecycleOwned (s : Process) : Prop where
  /-- The entries and their owners are in one-to-one correspondence. -/
  owners : Set.BijOn (ownedHandle s) {v | ownedHandle s v ≠ 0} (entries s)
  /-- An object whose destructor has returned owns nothing. -/
  destroyed : ∀ c x k e, s.calls c = .active .destructor x (.done k e) →
    (s.world.objects x).handle = 0
  /-- `operation_in_progress_` is set exactly while a call is between its critical sections, -/
  busy : ∀ x, (s.world.objects x).operationInProgress = true ↔ ∃ c, (s.calls c).At x Phase.between
  /-- and then it is one call. -/
  alone : ∀ x c d, (s.calls c).At x Phase.between → (s.calls d).At x Phase.between → c = d
  closedOnce : ∀ i, (s.world.shared.heap i).coreCloses ≤ 1
  /-- The handle that `stop()` took has an entry; when `stop()` returns, however it ends, that
  entry is gone and the core registered there has been closed exactly once. -/
  stopped : ∀ c x h, s.calls c = .active .stop x (.release h) →
    ∃ i, s.world.shared.registry.byID h = some i ∧
      ∀ as t k e, exec processStep s as = some t → issued t < 2 ^ 64 →
        t.calls c = .active .stop x (.done k e) →
          t.world.shared.registry.byID h = none ∧ (t.world.shared.heap i).closed = true ∧
            (t.world.shared.heap i).coreCloses = 1

/-- Ownership of the started instances, in every interleaving. -/
theorem lifecycle_owned {s : Process} (hs : Reachable processStep {} s)
    (hfew : issued s < 2 ^ 64) : LifecycleOwned s := by
  have hinv := ProcessInv.of_reachable hs
  have hown := owns_of_reachable hs hfew
  obtain ⟨n, hn, hshared, _⟩ := exists_native_at hs
  refine ⟨hown, ?_, hinv.busy, hinv.alone, ?_, ?_⟩
  · intro c x k e hc
    exact hinv.cleared x c (by rw [hc]; exact ⟨rfl, rfl⟩)
  · intro i
    rw [← hshared]
    exact hn.life.closes i
  · intro c x h hc
    have htyped := hinv.typed c _ _ _ hc
    have htaken : ownedHandle s (.stopping c) = h := by simp [ownedHandle, hc, Call.taken]
    have hentry : h ∈ entries s := htaken ▸ hown.mem (by rw [htaken]; simpa using htyped)
    obtain ⟨i, hi⟩ := Option.ne_none_iff_exists'.mp hentry
    refine ⟨i, hi, ?_⟩
    intro as t k e hrun hfew' hdone
    have hle := (Numbered.of_process hs hfew).2 h hentry
    obtain ⟨ph, hph, hstop⟩ := stopAt_exec hs hrun hfew' hle ⟨.release h, hc, rfl, hi⟩
    rw [hdone] at hph
    obtain rfl : Phase.done k e = ph := by simpa using hph
    obtain ⟨n', hn', hshared', _⟩ := exists_native_at (hs.exec hrun)
    have hcounted := hn'.life.counted i
    rw [hshared', Instance.Counted, hstop.done, if_pos rfl] at hcounted
    exact ⟨hstop.deleted, hstop.closed, hcounted⟩

def startThenStop : List (CallId × Action) :=
  (0, .call .startFromJSON 0) :: List.replicate 14 (0, .advance (.ok false) false) ++
    (1, .call .stop 0) :: List.replicate 3 (1, .advance (.ok false) false)

private theorem exec_startThenStop :
    ∃ s, exec processStep {} startThenStop = some s ∧ issued s < 2 ^ 64 ∧
      s.calls 1 = .active .stop 0 (.release 1) :=
  ⟨_, rfl, by decide, rfl⟩

theorem lifecycle_owned_at_stop :
    ∃ s, exec processStep {} startThenStop = some s ∧ issued s < 2 ^ 64 ∧
      s.calls 1 = .active .stop 0 (.release 1) ∧ LifecycleOwned s := by
  obtain ⟨s, hs, hfew, hstop⟩ := exec_startThenStop
  exact ⟨s, hs, hfew, hstop, lifecycle_owned ⟨_, hs⟩ hfew⟩

/-- Between the exchange of `handle_` in `stop()` and the deletion in the registry the entry
belongs to no object and to no start. -/
theorem entry_owned_by_stop_only :
    ∃ s, Reachable processStep {} s ∧ issued s < 2 ^ 64 ∧
      ¬ Set.BijOn (ownedHandle s) {v | ownedHandle s v ≠ 0 ∧ ∀ c, v ≠ .stopping c}
        (entries s) := by
  obtain ⟨s, hs, hfew, hstop⟩ := exec_startThenStop
  have hown := owns_of_reachable ⟨_, hs⟩ hfew
  have htaken : ownedHandle s (.stopping 1) = 1 := by simp [ownedHandle, hstop, Call.taken]
  have hne : ownedHandle s (.stopping 1) ≠ 0 := by rw [htaken]; decide
  refine ⟨s, ⟨_, hs⟩, hfew, ?_⟩
  intro hbij
  obtain ⟨v, ⟨_, hv⟩, heq⟩ := hbij.surjOn (hown.mem hne)
  exact hv 1 (hown.unique hne heq.symm).symm

end SingBoxPython.Binding
