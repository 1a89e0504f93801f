import SingBoxPython.Core.TrafficManager

/-!
# The totals of the traffic manager

The counters are `int64` and wrap around.  A run on them is the image of a run on natural numbers, so
its books balance modulo `2^64`, and its totals are in order while fewer than `2^63` bytes were added.
-/

namespace SingBoxPython.Core
open Framework

section Map

variable {ι α β : Type}

def Critical.map (f : α → β) : Critical ι α → Critical ι β
  | .leave id => .leave id
  | .evict id ahead => .evict id ahead
  | .clear ahead => .clear ahead
  | .total before acc ahead => .total (f ∘ before) (f ∘ acc) ahead
  | .range before acc pending visited ahead => .range (f ∘ before) (f ∘ acc) pending visited ahead

def TotalReport.map (f : α → β) (r : TotalReport α) : TotalReport β where
  before := f ∘ r.before
  result := f ∘ r.result
  after := f ∘ r.after

def TrafficEvent.map (f : α → β) : TrafficEvent ι α → TrafficEvent ι β
  | .add id d n => .add id d (f n)
  | .join id => .join id
  | .enterLeave id => .enterLeave id
  | .enterTotal => .enterTotal
  | .enterClear => .enterClear
  | .advance => .advance
  | .visit id => .visit id

def TrafficEvent.added [Zero α] (d : Direction) : TrafficEvent ι α → α
  | .add _ e n => if e = d then n else 0
  | _ => 0

private theorem TrafficEvent.added_map [Zero α] [Zero β] {f : α → β} (hzero : f 0 = 0)
    (d : Direction) (e : TrafficEvent ι α) : (e.map f).added d = f (e.added d) := by
  cases e with
  | add id e n =>
      change (if e = d then f n else 0) = f (if e = d then n else 0)
      rw [apply_ite f, hzero]
  | _ => exact hzero.symm

end Map

namespace TrafficManager

section Map

variable {ι α β : Type} [Zero α] [Zero β]

def map (f : α → β) (m : TrafficManager ι α) : TrafficManager ι β where
  counters d := f ∘ m.counters d
  connections := m.connections
  closedConnections := m.closedConnections
  closedTotal := f ∘ m.closedTotal
  critical := m.critical.map (Critical.map f)
  joined := m.joined
  frozen := m.frozen
  lost := f ∘ m.lost
  reports := m.reports.map (TotalReport.map f)

variable {f : α → β}

private theorem map_initial (hzero : f 0 = 0) :
    map f ({} : TrafficManager ι α) = ({} : TrafficManager ι β) := by
  have hcomp : ∀ {κ : Type}, (f ∘ fun _ : κ => (0 : α)) = fun _ => 0 := funext fun _ => hzero
  unfold map
  simp only [hcomp]
  rfl

private theorem held_map (m : TrafficManager ι α) (d : Direction) :
    (m.map f).held d = m.held d := by
  unfold held behind map
  rcases m.critical with _ | ⟨_ | _ | _ | _ | _⟩ <;> rfl

variable [DecidableEq ι] [Add α] [Add β] (hzero : f 0 = 0) (hadd : ∀ x y, f (x + y) = f x + f y)

include hzero hadd

omit [DecidableEq ι] in
private theorem recorded_map (m : TrafficManager ι α) : (m.map f).recorded = f ∘ m.recorded := by
  funext d
  rw [recorded, held_map, Function.comp_apply, recorded, hadd, ← tally_comp hzero hadd]
  rfl

private theorem addTo_map (m : TrafficManager ι α) (id : ι) (d : Direction) (n : α) :
    (m.map f).addTo id d (f n) = (m.addTo id d n).map f := by
  have hcounters : Function.update (fun e => f ∘ m.counters e) d (f ∘ bump (m.counters d) id n) =
      fun e => f ∘ Function.update m.counters d (bump (m.counters d) id n) e :=
    (Function.comp_update (fun v : ι → α => f ∘ v) m.counters d _).symm
  have hlost : (if id ∈ m.frozen d then f n else 0) = f (if id ∈ m.frozen d then n else 0) := by
    rw [apply_ite f, hzero]
  unfold addTo map
  simp only [bump_comp hadd, hcounters, hlost]

omit [DecidableEq ι] hzero in
private theorem takeOver_map (m : TrafficManager ι α) (id : ι) (d : Direction) :
    (m.map f).takeOver id d = (m.takeOver id d).map f := by
  have htotal : bump (f ∘ m.closedTotal) d (f (m.counters d id)) =
      f ∘ bump m.closedTotal d (m.counters d id) := bump_comp hadd _ _ _
  unfold takeOver map
  simp only [Function.comp_apply, htotal]

private theorem advance_map (m : TrafficManager ι α) :
    (m.map f).advance = m.advance.map (TrafficManager.map f) := by
  have hcritical : (m.map f).critical = m.critical.map (Critical.map f) := rfl
  cases hc : m.critical with
  | none =>
      rw [hc] at hcritical
      unfold advance
      simp only [hcritical, hc, Option.map_none]
  | some c =>
      rw [hc, Option.map_some] at hcritical
      unfold advance
      simp only [hcritical, hc]
      cases c with
      | leave id =>
          have hconnections : (m.map f).connections = m.connections := rfl
          have hclosed : (m.map f).closedConnections = m.closedConnections := rfl
          simp only [Critical.map, hconnections, hclosed]
          split
          · split
            · split <;> rfl
            · rfl
          · rfl
      | evict id ahead =>
          cases ahead with
          | nil => rfl
          | cons load ahead =>
              simp only [Critical.map, takeOver_map hadd]
              rfl
      | clear ahead =>
          cases ahead with
          | nil => rfl
          | cons load ahead =>
              simp only [Critical.map, takeOver_map hadd]
              rfl
      | total before acc ahead =>
          cases ahead with
          | nil => rfl
          | cons load ahead =>
              have hload := bump_comp hadd acc load.2 (m.counters load.2 load.1)
              exact congrArg (fun acc => some { m.map f with
                critical := some (.total (f ∘ before) acc ahead) }) hload
      | range before acc pending visited ahead =>
          cases ahead with
          | nil =>
              cases pending with
              | nil =>
                  simp only [Critical.map, recorded_map hzero hadd]
                  simp [map, TotalReport.map]
              | cons id pending => rfl
          | cons load ahead =>
              have hload := bump_comp hadd acc load.2 (m.counters load.2 load.1)
              exact congrArg (fun acc => some { m.map f with
                critical := some (.range (f ∘ before) acc pending visited ahead) }) hload

private theorem step_map (m : TrafficManager ι α) (e : TrafficEvent ι α) :
    (m.map f).step (e.map f) = (m.step e).map (TrafficManager.map f) := by
  have hidle : (m.map f).critical.isSome = m.critical.isSome := Option.isSome_map
  cases e with
  | add id d n => exact congrArg some (addTo_map hzero hadd m id d n)
  | join id =>
      have hjoined : (m.map f).joined = m.joined := rfl
      simp only [TrafficEvent.map, step, hjoined]
      split <;> rfl
  | enterLeave id =>
      simp only [TrafficEvent.map, step, hidle]
      split <;> rfl
  | enterTotal =>
      simp only [TrafficEvent.map, step, hidle, recorded_map hzero hadd]
      split <;> rfl
  | enterClear =>
      simp only [TrafficEvent.map, step, hidle]
      split <;> rfl
  | advance => exact advance_map hzero hadd m
  | visit id =>
      have hconnections : (m.map f).connections = m.connections := rfl
      have hcritical : (m.map f).critical = m.critical.map (Critical.map f) := rfl
      simp only [TrafficEvent.map, step, visit, hconnections, hcritical]
      cases m.critical with
      | none => rfl
      | some c =>
          cases c with
          | range before acc pending visited ahead =>
              cases ahead with
              | nil =>
                  simp only [Option.map_some, Critical.map]
                  split <;> rfl
              | cons load ahead => rfl
          | _ => rfl

end Map

section Bound

variable {ι : Type} [DecidableEq ι] {m m' : TrafficManager ι Nat}

private theorem counters_advance (h : m.advance = some m') : m'.counters = m.counters := by
  unfold advance at h
  split at h
  · cases h
  · split at h
    · split at h
      · split at h
        · cases h
        · cases h
          rfl
      · cases h
        rfl
    · cases h
      rfl
  all_goals cases h
  all_goals rfl

private theorem counters_step {e : TrafficEvent ι Nat} (h : m.step e = some m') :
    (∃ id d n, e = .add id d n ∧ m' = m.addTo id d n) ∨ m'.counters = m.counters := by
  cases e with
  | add id d n =>
      cases h
      exact .inl ⟨id, d, n, rfl, rfl⟩
  | advance => exact .inr (counters_advance h)
  | visit id =>
      simp only [step, visit] at h
      split at h
      · split at h
        · cases h
          exact .inr rfl
        · cases h
      · cases h
  | _ =>
      simp only [step] at h
      split at h
      · cases h
      · cases h
        exact .inr rfl

private theorem tally_step {e : TrafficEvent ι Nat} (h : m.step e = some m') (d : Direction)
    {ids : List ι} (hnodup : ids.Nodup) :
    tally (m'.counters d) ids ≤ tally (m.counters d) ids + e.added d := by
  obtain ⟨id, d', n, rfl, rfl⟩ | hcounters := counters_step h
  · change _ ≤ _ + if d' = d then n else 0
    by_cases hd : d' = d
    · subst hd
      have hcount := Nat.mul_le_mul_right n (List.nodup_iff_count_le_one.1 hnodup id)
      rw [counters_addTo_self, tally_bump, if_pos rfl]
      omega
    · rw [counters_addTo_of_ne id n (Ne.symm hd), if_neg hd]
      exact Nat.le_refl _
  · rw [hcounters]
    exact Nat.le_add_right _ _

private theorem tally_exec {es : List (TrafficEvent ι Nat)} (h : exec step m es = some m')
    (d : Direction) {ids : List ι} (hnodup : ids.Nodup) :
    tally (m'.counters d) ids ≤ tally (m.counters d) ids + (es.map (TrafficEvent.added d)).sum := by
  induction es generalizing m with
  | nil =>
      cases h
      exact Nat.le_refl _
  | cons e es ih =>
      obtain ⟨t, ht, hrun⟩ := exec_cons.1 h
      have hstep := tally_step ht d hnodup
      have hrest := ih hrun
      rw [List.map_cons, List.sum_cons]
      omega

private theorem recorded_le_added {es : List (TrafficEvent ι Nat)} (h : exec step {} es = some m)
    (d : Direction) : m.recorded d ≤ (es.map (TrafficEvent.added d)).sum := by
  have hinv := inv_of_reachable ⟨es, h⟩
  have hbalance := (hinv.books d).balance
  have hadded := tally_exec h d hinv.nodup
  have hzero : tally (({} : TrafficManager ι Nat).counters d) m.joined = 0 := by
    induction m.joined with
    | nil => rfl
    | cons id ids ih => rw [tally_cons, ih]
  rw [recorded]
  omega

end Bound

section Wrapping

variable {ι : Type} [DecidableEq ι] {m : TrafficManager ι Int64}

/-- The amount as an unsigned number.  The amounts are lengths of data, which are not negative; a
negative one would count as `2^63` or more. -/
def amount (n : Int64) : Nat :=
  n.toUInt64.toNat

private theorem ofNat_amount (n : Int64) : Int64.ofNat (amount n) = n := by
  rw [amount, ← UInt64.toInt64_ofNat', UInt64.ofNat_toNat, Int64.toInt64_toUInt64]

omit [DecidableEq ι] in
private theorem map_map_amount (e : TrafficEvent ι Int64) : (e.map amount).map Int64.ofNat = e := by
  cases e with
  | add id d n => exact congrArg (TrafficEvent.add id d) (ofNat_amount n)
  | _ => rfl

/-- A run on wrapping counters is the image of a run on natural numbers. -/
private theorem exists_unwrapped {es : List (TrafficEvent ι Int64)} (h : exec step {} es = some m) :
    ∃ u : TrafficManager ι Nat, exec step {} (es.map (TrafficEvent.map amount)) = some u ∧
      m = u.map Int64.ofNat := by
  have hrun := exec_map (step_map (f := Int64.ofNat) rfl Int64.ofNat_add) ({} : TrafficManager ι Nat)
    (es.map (TrafficEvent.map amount))
  have hevents : (es.map (TrafficEvent.map amount)).map (TrafficEvent.map Int64.ofNat) = es := by
    rw [List.map_map]
    exact (List.map_congr_left fun e _ => map_map_amount e).trans (List.map_id es)
  rw [hevents, map_initial rfl, h] at hrun
  obtain ⟨u, hu, hm⟩ := Option.map_eq_some_iff.1 hrun.symm
  exact ⟨u, hu, hm.symm⟩

private theorem ofNat_le_ofNat {a b : Nat} (hab : a ≤ b) (hb : b < 2 ^ 63) :
    Int64.ofNat a ≤ Int64.ofNat b := by
  rw [Int64.le_iff_toInt_le, Int64.toInt_ofNat_of_lt (Nat.lt_of_le_of_lt hab hb),
    Int64.toInt_ofNat_of_lt hb]
  exact Int.ofNat_le.2 hab

/-- Along every run that adds less than `2^63` bytes in a direction, the totals that were returned
never decrease, and each lies between what was recorded when the call took the lock and when it gave
it back. -/
theorem total_between {es : List (TrafficEvent ι Int64)} (h : exec step {} es = some m)
    (d : Direction) (hbound : (es.map fun e => amount (e.added d)).sum < 2 ^ 63) :
    ((m.reports.flatMap fun r => [r.before d, r.result d, r.after d]) ++
      [m.recorded d]).Pairwise (· ≤ ·) := by
  obtain ⟨u, hu, rfl⟩ := exists_unwrapped h
  have hsorted : ((u.reports.flatMap fun r => [r.before d, r.result d, r.after d]) ++
      [u.recorded d]).Pairwise (· ≤ ·) := by
    refine ((inv_of_reachable ⟨_, hu⟩).sorted d).sublist (List.Sublist.append_right ?_ _)
    exact List.sublist_append_left _ _
  have hadded : ((es.map (TrafficEvent.map amount)).map (TrafficEvent.added d)).sum < 2 ^ 63 := by
    rw [List.map_map]
    have hevent : ∀ e ∈ es, (e.map amount).added d = amount (e.added d) :=
      fun e _ => TrafficEvent.added_map rfl d e
    exact Nat.lt_of_le_of_lt (Nat.le_of_eq (congrArg List.sum (List.map_congr_left hevent))) hbound
  have hrecorded := Nat.lt_of_le_of_lt (recorded_le_added hu d) hadded
  have himage : (((u.map Int64.ofNat).reports.flatMap fun r => [r.before d, r.result d, r.after d]) ++
      [(u.map Int64.ofNat).recorded d]) =
        ((u.reports.flatMap fun r => [r.before d, r.result d, r.after d]) ++
          [u.recorded d]).map Int64.ofNat := by
    rw [recorded_map rfl Int64.ofNat_add]
    simp [map, TotalReport.map, List.flatMap_map, List.map_flatMap]
  rw [himage, List.pairwise_map]
  refine hsorted.imp_of_mem ?_
  intro a b _ hb hab
  refine ofNat_le_ofNat hab (Nat.lt_of_le_of_lt ?_ hrecorded)
  rcases List.mem_append.1 hb with hb | hb
  · exact (List.pairwise_append.1 hsorted).2.2 b hb _ (List.mem_singleton_self _)
  · exact Nat.le_of_eq (List.mem_singleton.1 hb)

def busyTotal : List (TrafficEvent Nat Int64) :=
  [.join 0, .add 0 .upload 5, .enterTotal, .advance, .add 0 .upload 2, .join 1, .visit 0, .advance,
    .add 0 .upload 1, .advance, .advance]

theorem total_between_at_busyTotal :
    (((exec TrafficManager.step {} busyTotal).getD {}).reports.map fun r => r.result .upload) = [7] ∧
      ((((exec TrafficManager.step {} busyTotal).getD {}).reports.flatMap fun r =>
        [r.before .upload, r.result .upload, r.after .upload]) ++
          [((exec TrafficManager.step {} busyTotal).getD {}).recorded .upload]).Pairwise (· ≤ ·) := by
  have hrun : exec TrafficManager.step {} busyTotal =
      some ((exec TrafficManager.step {} busyTotal).getD {}) := rfl
  exact ⟨by decide +kernel, total_between hrun .upload (by decide)⟩

/-- Along every run, the amounts being `int64` that wrap around, every byte of a connection that
joined is recorded exactly once, unless it was added after the counter of the closed connection had
been added to the closed totals; and no more closed connections are kept than the limit. -/
theorem traffic_recorded (h : Reachable TrafficManager.step ({} : TrafficManager ι Int64) m)
    (d : Direction) :
    m.recorded d + m.lost d = tally (m.counters d) m.joined ∧
      (m.held d ++ m.frozen d).Perm m.joined ∧ m.joined.Nodup ∧
      m.closedConnections.length ≤ closedConnectionsLimit := by
  obtain ⟨es, hes⟩ := h
  obtain ⟨u, hu, rfl⟩ := exists_unwrapped hes
  have hinv := inv_of_reachable ⟨_, hu⟩
  refine ⟨?_, ?_, hinv.nodup, hinv.limit⟩
  · have hbalance := congrArg Int64.ofNat (hinv.books d).balance
    rw [Int64.ofNat_add, ← tally_comp rfl Int64.ofNat_add] at hbalance
    rw [recorded_map rfl Int64.ofNat_add]
    exact hbalance
  · rw [held_map]
    exact (hinv.books d).partition

def lateAdd : List (TrafficEvent Nat Int64) :=
  [.join 0, .add 0 .upload 5, .enterLeave 0, .advance, .advance, .add 0 .upload 3, .enterClear,
    .advance, .advance, .advance, .add 0 .upload 4]

theorem traffic_recorded_at_lateAdd :
    ((exec TrafficManager.step {} lateAdd).getD {}).recorded .upload = 8 ∧
      ((exec TrafficManager.step {} lateAdd).getD {}).recorded .upload +
          ((exec TrafficManager.step {} lateAdd).getD {}).lost .upload =
        tally (((exec TrafficManager.step {} lateAdd).getD {}).counters .upload)
          ((exec TrafficManager.step {} lateAdd).getD {}).joined :=
  ⟨by decide +kernel, (traffic_recorded ⟨lateAdd, by rfl⟩ .upload).1⟩

end Wrapping

end TrafficManager

end SingBoxPython.Core
