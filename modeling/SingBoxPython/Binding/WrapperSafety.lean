import SingBoxPython.Framework.Locks
import SingBoxPython.Binding.WrapperSteps

/-!
# Who may touch what

The invariant of every run of the Python class: the holders of the GIL and of the mutexes, the
references that keep an object alive, and the call between its two critical sections.  The native
half of a run is a run of the registry under arbitrary callers, so all of its guarantees carry
over.
-/

namespace SingBoxPython.Binding
open Framework

/-- The call runs on the object `x` and stands in a phase with the property `P`. -/
def Call.At (x : ObjectId) (P : Operation → Phase → Bool) : Call → Prop
  | .idle => False
  | .active op y ph => y = x ∧ P op ph = true

@[simp, grind =] private theorem Call.at_idle (x : ObjectId) (P : Operation → Phase → Bool) :
    Call.idle.At x P ↔ False := Iff.rfl

@[simp, grind =] theorem Call.at_active (x y : ObjectId) (P : Operation → Phase → Bool)
    (op : Operation) (ph : Phase) : (Call.active op y ph).At x P ↔ y = x ∧ P op ph = true :=
  Iff.rfl

theorem processStep_cases {s t : Process} {a : CallId × Action} (h : processStep s a = some t) :
    (∃ op x y, s.calls a.1 = .idle ∧ (s.world.objects x).begin a.1 op = some y ∧
      t = s.put a.1 (s.world.setObject x y) (.active op x .enter)) ∨
    ∃ op x ph o yields w ph', s.calls a.1 = .active op x ph ∧
      memberStep a.1 op x o yields s.world ph = some (w, ph') ∧
      t = s.put a.1 w (.active op x ph') := by
  obtain ⟨c, a⟩ := a
  cases a with
  | call op x =>
      left
      simp only [processStep] at h
      split at h
      · rename_i hidle
        obtain ⟨y, hy, rfl⟩ := Option.map_eq_some_iff.mp h
        exact ⟨op, x, y, hidle, hy, rfl⟩
      · cases h
  | advance o yields =>
      right
      cases hcall : s.calls c with
      | idle => simp [processStep, hcall] at h
      | active op x ph =>
          simp only [processStep, hcall] at h
          obtain ⟨⟨w, ph'⟩, hstep, rfl⟩ := Option.map_eq_some_iff.mp h
          exact ⟨op, x, ph, o, yields, w, ph', rfl, hstep, rfl⟩

theorem Object.begin_cases {c : CallId} {op : Operation} {x y : Object}
    (h : x.begin c op = some y) :
    x.destroyed = false ∧
      (op = .destructor ∧ x.executing = ∅ ∧ y = { x with destroyed := true } ∨
        op ≠ .destructor ∧ y = { x with executing := insert c x.executing }) := by
  unfold Object.begin at h
  grind -linarith

private theorem at_executes_of_between {call : Call} {x : ObjectId} (h : call.At x Phase.between) :
    call.At x Phase.executes := by
  cases call with
  | idle => exact h
  | active op y ph => cases ph <;> simp_all

private theorem at_between_or_destroys {call : Call} {x : ObjectId} (h : call.At x Phase.cleared) :
    call.At x Phase.between ∨ call.At x Phase.destroys := by
  cases call with
  | idle => exact h.elim
  | active op y ph => cases op <;> cases ph <;> simp_all

structure ProcessInv (s : Process) : Prop where
  typed : ∀ c op x ph, s.calls c = .active op x ph → ph.typed op = true
  gil : ∀ c, s.world.gil = some c ↔ ∃ x, (s.calls c).At x Phase.holdsGil
  mutex : ∀ x c, (s.world.objects x).mutex = some c ↔ (s.calls c).At x Phase.holdsMutex
  executing : ∀ x c, c ∈ (s.world.objects x).executing ↔ (s.calls c).At x Phase.executes
  destroyed : ∀ x c, (s.calls c).At x Phase.destroys → (s.world.objects x).destroyed = true
  unreferenced : ∀ x, (s.world.objects x).destroyed = true → (s.world.objects x).executing = ∅
  busy : ∀ x, (s.world.objects x).operationInProgress = true ↔ ∃ c, (s.calls c).At x Phase.between
  alone : ∀ x c d, (s.calls c).At x Phase.between → (s.calls d).At x Phase.between → c = d
  cleared : ∀ x c, (s.calls c).At x Phase.cleared → (s.world.objects x).handle = 0

variable {s t : Process}

theorem ProcessInv.initial : ProcessInv {} := by
  constructor <;> simp

/-- A destructor finds no operation in progress: nobody refers to the object any more. -/
private theorem ProcessInv.idle_of_destroys (hs : ProcessInv s) {c : CallId} {x : ObjectId}
    (hc : (s.calls c).At x Phase.destroys) :
    (s.world.objects x).operationInProgress = false := by
  have hempty := hs.unreferenced x (hs.destroyed x c hc)
  rw [Bool.eq_false_iff, ne_eq, hs.busy x]
  rintro ⟨e, he⟩
  have hmem := (hs.executing x e).mpr (at_executes_of_between he)
  rw [hempty] at hmem
  exact absurd hmem (by simp)

/-- A call that begins is in none of the phases the invariant speaks of, except that it refers to
its object. -/
private theorem at_begin {c : CallId} {op : Operation} {x : ObjectId}
    {P : Operation → Phase → Bool} (hidle : s.calls c = .idle) (hP : P op .enter = false)
    (z : ObjectId) (d : CallId) :
    (Function.update s.calls c (.active op x .enter) d).At z P ↔ (s.calls d).At z P := by
  by_cases hd : d = c
  · subst hd
    simp [hidle, hP]
  · rw [Function.update_of_ne hd]

theorem ProcessInv.begin (hs : ProcessInv s) {c : CallId} {op : Operation} {x : ObjectId}
    {y : Object} (hidle : s.calls c = .idle) (hbegin : (s.world.objects x).begin c op = some y) :
    ProcessInv (s.put c (s.world.setObject x y) (.active op x .enter)) := by
  obtain ⟨hlive, hy⟩ := Object.begin_cases hbegin
  have hsame : ∀ z, ((s.world.setObject x y).objects z).mutex = (s.world.objects z).mutex ∧
      ((s.world.setObject x y).objects z).handle = (s.world.objects z).handle ∧
      ((s.world.setObject x y).objects z).operationInProgress =
        (s.world.objects z).operationInProgress := by
    intro z
    rcases hy with ⟨_, _, rfl⟩ | ⟨_, rfl⟩ <;> grind -linarith [World.setObject_objects]
  have hnone : ¬ (s.calls c).At x Phase.executes := by simp [hidle]
  refine ⟨?_, ?_, ?_, ?_, ?_, ?_, ?_, ?_, ?_⟩
  · intro d
    have htyped := hs.typed d
    grind -linarith [Function.update_apply]
  · intro d
    simp only [World.setObject_gil, at_begin (P := Phase.holdsGil) hidle rfl]
    exact hs.gil d
  · intro z d
    rw [(hsame z).1, at_begin hidle rfl]
    exact hs.mutex z d
  · intro z d
    have hd := hs.executing z d
    rcases hy with ⟨_, _, rfl⟩ | ⟨_, rfl⟩ <;> grind -linarith [World.setObject_objects, Function.update_apply]
  · intro z d
    have hd := hs.destroyed z d
    rcases hy with ⟨_, _, rfl⟩ | ⟨_, rfl⟩ <;> grind -linarith [World.setObject_objects, Function.update_apply]
  · intro z
    have hz := hs.unreferenced z
    rcases hy with ⟨_, _, rfl⟩ | ⟨_, rfl⟩ <;> grind -linarith [World.setObject_objects]
  · intro z
    simp only [(hsame z).2.2, at_begin (P := Phase.between) hidle rfl]
    exact hs.busy z
  · intro z d e
    rw [at_begin hidle rfl, at_begin hidle rfl]
    exact hs.alone z d e
  · intro z d
    rw [(hsame z).2.1, at_begin hidle rfl]
    exact hs.cleared z d

theorem ProcessInv.member (hs : ProcessInv s) {c : CallId} {op : Operation} {x : ObjectId}
    {o : Outcome} {yields : Bool} {w : World} {ph ph' : Phase} (hc : s.calls c = .active op x ph)
    (hstep : memberStep c op x o yields s.world ph = some (w, ph')) :
    ProcessInv (s.put c w (.active op x ph')) := by
  have htyped := hs.typed c op x ph hc
  have hat : ∀ z P, (s.calls c).At z P ↔ x = z ∧ P op ph = true := by simp [hc]
  have hat' : ∀ z P, (Function.update s.calls c (.active op x ph') c).At z P ↔
      x = z ∧ P op ph' = true := by simp
  have hother : ∀ z P d, d ≠ c → ((Function.update s.calls c (.active op x ph') d).At z P ↔
      (s.calls d).At z P) := by
    intro z P d hd
    rw [Function.update_of_ne hd]
  have hframe : ∀ {z}, z ≠ x → w.objects z = s.world.objects z := memberStep_frame hstep
  have hfar : ∀ {z}, z ≠ x → ∀ P d, (Function.update s.calls c (.active op x ph') d).At z P ↔
      (s.calls d).At z P := by
    intro z hz P d
    by_cases hd : d = c
    · subst hd
      simp [hat, Ne.symm hz]
    · exact hother z P d hd
  have halone : ∀ e, e ≠ c → (s.calls e).At x Phase.between →
      ph.between op = false ∧ ph'.between op = false := by
    intro e hec he
    have hph : ph.between op = false := by
      rw [Bool.eq_false_iff]
      exact fun hb => hec (hs.alone x e c he ((hat x _).mpr ⟨rfl, hb⟩))
    refine ⟨hph, ?_⟩
    rw [Bool.eq_false_iff]
    intro hb
    rcases memberStep_busy_free hstep hb with hold | hfree
    · rw [hph] at hold
      cases hold
    · rw [(hs.busy x).mpr ⟨e, he⟩] at hfree
      cases hfree
  refine ⟨?_, ?_, ?_, ?_, ?_, ?_, ?_, ?_, ?_⟩
  · intro d op' x' ph'' hd
    by_cases hdc : d = c
    · subst hdc
      obtain ⟨rfl, rfl, rfl⟩ : op = op' ∧ x = x' ∧ ph' = ph'' := by simpa using hd
      exact memberStep_typed hstep htyped
    · exact hs.typed d op' x' ph'' (by simpa [Function.update_of_ne hdc] using hd)
  · refine holder_step (c := c) (b := ph.holdsGil op = true) (a := ph'.holdsGil op = true) hs.gil
      (by simp only [hat, exists_eq_left']) (by simp only [hat', exists_eq_left'])
      (fun d hd => by simp only [hother _ _ d hd]) ?_ (memberStep_gil_free hstep)
    exact memberStep_gil hstep htyped fun h => (hs.gil c).mpr ⟨x, (hat x _).mpr ⟨rfl, h⟩⟩
  · intro z
    by_cases hz : z = x
    · subst hz
      refine holder_step (c := c) (b := ph.holdsMutex op = true) (a := ph'.holdsMutex op = true)
        (hs.mutex z) (by simp only [hat, true_and]) (by simp only [hat', true_and]) (hother z _) ?_
        (fun h => .inr (memberStep_mutex_free hstep h))
      exact memberStep_mutex hstep fun h => (hs.mutex z c).mpr ((hat z _).mpr ⟨rfl, h⟩)
    · intro d
      rw [hframe hz, hfar hz]
      exact hs.mutex z d
  · intro z d
    by_cases hz : z = x
    · subst hz
      by_cases hd : d = c
      · subst hd
        rw [memberStep_executing hstep, hat', memberStep_executes hstep, hs.executing z d, hat]
        simp
      · rw [memberStep_executing hstep, hother z _ d hd, ← hs.executing z d]
        simp [hd]
    · rw [hframe hz, hfar hz]
      exact hs.executing z d
  · intro z d hd
    by_cases hz : z = x
    · subst hz
      rw [memberStep_destroyed hstep]
      by_cases hdc : d = c
      · subst hdc
        exact hs.destroyed z d ((hat z _).mpr ⟨rfl, ((hat' z _).mp hd).2⟩)
      · exact hs.destroyed z d ((hother z _ d hdc).mp hd)
    · rw [hframe hz]
      exact hs.destroyed z d ((hfar hz _ d).mp hd)
  · intro z hd
    by_cases hz : z = x
    · subst hz
      rw [memberStep_destroyed hstep] at hd
      refine Finset.eq_empty_of_forall_notMem fun d hmem => ?_
      rw [memberStep_executing hstep, hs.unreferenced z hd] at hmem
      exact absurd hmem.1 (by simp)
    · rw [hframe hz] at hd ⊢
      exact hs.unreferenced z hd
  · intro z
    by_cases hz : z = x
    · subst hz
      rw [memberStep_busy hstep htyped]
      constructor
      · intro hb
        by_cases hsame : ph'.between op = ph.between op
        · rw [if_pos hsame] at hb
          obtain ⟨e, he⟩ := (hs.busy z).mp hb
          by_cases hec : e = c
          · subst hec
            exact ⟨e, (hat' z _).mpr ⟨rfl, hsame.trans ((hat z _).mp he).2⟩⟩
          · exact ⟨e, (hother z _ e hec).mpr he⟩
        · rw [if_neg hsame] at hb
          exact ⟨c, (hat' z _).mpr ⟨rfl, hb⟩⟩
      · rintro ⟨e, he⟩
        by_cases hec : e = c
        · subst hec
          have hph' := ((hat' z _).mp he).2
          split
          · rename_i hsame
            exact (hs.busy z).mpr ⟨e, (hat z _).mpr ⟨rfl, hsame.symm.trans hph'⟩⟩
          · exact hph'
        · have he := (hother z _ e hec).mp he
          obtain ⟨hph, hph'⟩ := halone e hec he
          rw [if_pos (hph'.trans hph.symm)]
          exact (hs.busy z).mpr ⟨e, he⟩
    · rw [hframe hz]
      simp only [hfar hz]
      exact hs.busy z
  · intro z d e hd he
    by_cases hz : z = x
    · subst hz
      by_cases hdc : d = c <;> by_cases hec : e = c
      · rw [hdc, hec]
      · subst hdc
        have hnot := (halone e hec ((hother z _ e hec).mp he)).2
        exact absurd ((hat' z _).mp hd).2 (Bool.eq_false_iff.mp hnot)
      · subst hec
        have hnot := (halone d hdc ((hother z _ d hdc).mp hd)).2
        exact absurd ((hat' z _).mp he).2 (Bool.eq_false_iff.mp hnot)
      · exact hs.alone z d e ((hother z _ d hdc).mp hd) ((hother z _ e hec).mp he)
    · exact hs.alone z d e ((hfar hz _ d).mp hd) ((hfar hz _ e).mp he)
  · intro z d hd
    by_cases hz : z = x
    · subst hz
      by_cases hdc : d = c
      · subst hdc
        refine memberStep_cleared hstep htyped (fun h => hs.cleared z d ((hat z _).mpr ⟨rfl, h⟩)) ?_
          ((hat' z _).mp hd).2
        exact fun h => hs.idle_of_destroys ((hat z _).mpr ⟨rfl, h⟩)
      · have hd := (hother z _ d hdc).mp hd
        refine memberStep_handle_zero hstep (hs.cleared z d hd) htyped ?_
        rw [Bool.eq_false_iff]
        intro hb
        have hcb : (s.calls c).At z Phase.between := (hat z _).mpr ⟨rfl, hb⟩
        rcases at_between_or_destroys hd with hdb | hdd
        · exact hdc (hs.alone z d c hdb hcb)
        · have hidle := hs.idle_of_destroys hdd
          rw [(hs.busy z).mpr ⟨c, hcb⟩] at hidle
          cases hidle
    · rw [hframe hz]
      exact hs.cleared z d ((hfar hz _ d).mp hd)

theorem ProcessInv.step (hs : ProcessInv s) {a : CallId × Action}
    (h : processStep s a = some t) : ProcessInv t := by
  obtain ⟨op, x, y, hidle, hbegin, rfl⟩ | ⟨op, x, ph, o, yields, w, ph', hc, hstep, rfl⟩ :=
    processStep_cases h
  · exact hs.begin hidle hbegin
  · exact hs.member hc hstep

theorem ProcessInv.of_reachable (h : Reachable processStep {} s) : ProcessInv s :=
  h.invariant .initial fun _ _ _ hI hstep => hI.step hstep

/-! ## The native half of a run -/

/-- A call and the native call that it makes under its own identifier. -/
def Mirrors : Call → NativeCall → Prop
  | .idle, n => n = .idle
  | .active _ _ ph, n =>
      match ph with
      | .native _ p => n = p
      | .acquire _ r | .relock _ r | .second _ r => n = .returned r
      | .decode _ | .decodeYield _ | .leave _ _ | .done _ _ => n = .idle ∨ ∃ r, n = .returned r
      | _ => n = .idle

private theorem Operation.entry_isEntry (op : Operation) (h : Handle) :
    (op.entry h).isEntry = true := by
  cases op <;> rfl

private theorem memberStep_mirrors {c : CallId} {op : Operation} {x : ObjectId} {o : Outcome}
    {yields : Bool} {w w' : World} {ph ph' : Phase} {n : NativeCall}
    (h : memberStep c op x o yields w ph = some (w', ph')) (hn : Mirrors (.active op x ph) n) :
    (w'.shared = w.shared ∧ Mirrors (.active op x ph') n) ∨
    (w'.shared = w.shared ∧ n = .idle ∧
      ∃ p, p.isEntry = true ∧ Mirrors (.active op x ph') p) ∨
    ∃ p, callStep c n o w.shared = some (w'.shared, p) ∧ Mirrors (.active op x ph') p := by
  revert h
  fun_cases memberStep c op x o yields w ph <;> rintro ⟨⟩
  all_goals first
    -- The exported function is entered, after the release of the GIL or by the destructor.
    | exact .inr (.inl ⟨rfl, hn, _, Operation.entry_isEntry _ _, rfl⟩)
    | exact .inr (.inl ⟨rfl, hn, _, rfl, rfl⟩)
    | exact .inl ⟨rfl, hn⟩
    | exact .inl ⟨rfl, .inl hn⟩
    | exact .inl ⟨rfl, .inr ⟨_, hn⟩⟩
    | exact .inr (.inr ⟨_, hn ▸ ‹_›, rfl⟩)

/-- Every run of the class is, on its native side, a run of the registry. -/
theorem exists_native_run (hs : Reachable processStep {} s) :
    ∃ n, Reachable registryStep {} n ∧ n.shared = s.world.shared ∧
      ∀ c, Mirrors (s.calls c) (n.calls c) := by
  refine hs.invariant (I := fun s => ∃ n, Reachable registryStep {} n ∧
    n.shared = s.world.shared ∧ ∀ c, Mirrors (s.calls c) (n.calls c)) ?_ ?_
  · exact ⟨{}, .refl _, rfl, fun _ => rfl⟩
  · rintro s ⟨c, a⟩ t ⟨n, hn, hshared, hcalls⟩ hstep
    have hupdate : ∀ {v p}, Mirrors v p →
        ∀ d, Mirrors (Function.update s.calls c v d) (Function.update n.calls c p d) := by
      intro v p hvp d
      by_cases hd : d = c
      · subst hd
        simpa only [Function.update_self] using hvp
      · simpa only [Function.update_of_ne hd] using hcalls d
    obtain ⟨op, x, y, hidle, hbegin, rfl⟩ | ⟨op, x, ph, o, yields, w, ph', hc, hmember, rfl⟩ :=
      processStep_cases hstep
    · have hc := hcalls c
      rw [hidle] at hc
      refine ⟨n, hn, hshared, ?_⟩
      simpa using hupdate (v := .active op x .enter) (p := n.calls c) hc
    · have hold := hcalls c
      rw [hc] at hold
      obtain ⟨hsame, hnew⟩ | ⟨hsame, hidle, p, hp, hnew⟩ | ⟨p, hcall, hnew⟩ :=
        memberStep_mirrors hmember hold
      · exact ⟨n, hn, hshared.trans hsame.symm, by simpa using hupdate hnew⟩
      · obtain ⟨b, hb⟩ := registryStep_enter hidle hp
        exact ⟨n.enter c p, hn.snoc hb, hshared.trans hsame.symm, hupdate hnew⟩
      · rw [← hshared] at hcall
        exact ⟨_, hn.snoc (a := (c, .advance o)) (nativeStep_eq_some.mpr ⟨_, p, hcall, rfl⟩), rfl,
          hupdate hnew⟩

end SingBoxPython.Binding
