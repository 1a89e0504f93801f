import SingBoxPython.Framework.Tally
import SingBoxPython.Framework.Transition

/-!
# The traffic manager

`common/trafficcontrol/manager.go` under any interleaving of its callers.  Connections join and add
to their counters without a lock; `leave`, `Total` and `Clear` hold `closedConnectionsAccess`, and
each of their loads of a counter is a step of its own.  The amounts are of any type that has an
addition, and the invariant is about the natural numbers.
-/

namespace SingBoxPython.Core
open Framework

inductive Direction
  | upload
  | download
  deriving DecidableEq

def closedConnectionsLimit : Nat :=
  1000

/-- The loads of both counters of a connection, in the order of the source. -/
def loads {ι : Type} (id : ι) : List (ι × Direction) :=
  [(id, .upload), (id, .download)]

def loadIds {ι : Type} (d : Direction) (ahead : List (ι × Direction)) : List ι :=
  (ahead.filter fun load => load.2 = d).map Prod.fst

/-- The call that holds `closedConnectionsAccess`, with its local variables and the loads that lie
ahead.  `before` is the history variable of a `Total`: what was recorded when it took the lock. -/
inductive Critical (ι α : Type)
  | leave (id : ι)
  | evict (id : ι) (ahead : List (ι × Direction))
  | clear (ahead : List (ι × Direction))
  | total (before acc : Direction → α) (ahead : List (ι × Direction))
  /-- In `m.connections.Range`: `pending` was there when it began and was not visited. -/
  | range (before acc : Direction → α) (pending visited : List ι) (ahead : List (ι × Direction))

/-- What a `Total` returned, between what was recorded when it took the lock and when it gave it
back. -/
structure TotalReport (α : Type) where
  before : Direction → α
  result : Direction → α
  after : Direction → α

/-- The traffic manager with the counters of all connections.  `joined`, `frozen`, `lost` and
`reports` are histories: the connections that ever joined, those whose counter was added to the
closed totals, what was added to such a counter afterwards, and the totals returned. -/
structure TrafficManager (ι α : Type) [Zero α] where
  counters : Direction → ι → α := fun _ _ => 0
  connections : List ι := []
  closedConnections : List ι := []
  closedTotal : Direction → α := fun _ => 0
  critical : Option (Critical ι α) := none
  joined : List ι := []
  frozen : Direction → List ι := fun _ => []
  lost : Direction → α := fun _ => 0
  reports : List (TotalReport α) := []

inductive TrafficEvent (ι α : Type)
  | add (id : ι) (d : Direction) (n : α)
  | join (id : ι)
  | enterLeave (id : ι)
  | enterTotal
  | enterClear
  | advance
  | visit (id : ι)

namespace TrafficManager

section Model

variable {ι α : Type} [DecidableEq ι] [Add α] [Zero α] (m : TrafficManager ι α)

/-- The closed connections whose counters still count. -/
def behind (d : Direction) : List ι :=
  match m.critical with
  | some (.evict id ahead) => id :: (loadIds d ahead ++ m.closedConnections)
  | some (.clear ahead) => loadIds d ahead
  | _ => m.closedConnections

/-- The connections whose counters still count, besides the closed totals. -/
def held (d : Direction) : List ι :=
  m.connections ++ m.behind d

def recorded (d : Direction) : α :=
  m.closedTotal d + tally (m.counters d) (m.held d)

/-- `Add` of an atomic counter; what is added to a frozen one is lost. -/
def addTo (id : ι) (d : Direction) (n : α) : TrafficManager ι α :=
  { m with
    counters := Function.update m.counters d (bump (m.counters d) id n)
    lost := bump m.lost d (if id ∈ m.frozen d then n else 0) }

def takeOver (id : ι) (d : Direction) : TrafficManager ι α :=
  { m with
    closedTotal := bump m.closedTotal d (m.counters d id)
    frozen := Function.update m.frozen d (m.frozen d ++ [id]) }

/-- The next statement of the call that holds the lock. -/
def advance : Option (TrafficManager ι α) :=
  match m.critical with
  | none => none
  | some (.leave id) =>
      if id ∈ m.connections then
        -- `LoadAndDelete`, and `PopFront` where the list is full
        if closedConnectionsLimit ≤ m.closedConnections.length then
          match m.closedConnections with
          | [] => none
          | evicted :: rest =>
              some { m with
                connections := m.connections.erase id
                closedConnections := rest
                critical := some (.evict id (loads evicted)) }
        else
          some { m with
            connections := m.connections.erase id
            critical := some (.evict id []) }
      else some { m with critical := none }
  | some (.evict id ((evicted, d) :: ahead)) =>
      some { m.takeOver evicted d with critical := some (.evict id ahead) }
  | some (.evict id []) =>
      some { m with
        closedConnections := m.closedConnections ++ [id]
        critical := none }
  | some (.clear ((id, d) :: ahead)) =>
      some { m.takeOver id d with critical := some (.clear ahead) }
  | some (.clear []) => some { m with closedConnections := [], critical := none }
  | some (.total before acc ((id, d) :: ahead)) =>
      some { m with critical := some (.total before (bump acc d (m.counters d id)) ahead) }
  | some (.total before acc []) =>
      some { m with critical := some (.range before acc m.connections [] []) }
  | some (.range before acc pending visited ((id, d) :: ahead)) =>
      some { m with
        critical := some (.range before (bump acc d (m.counters d id)) pending visited ahead) }
  | some (.range before acc [] _ []) =>
      some { m with
        reports := m.reports ++ [⟨before, acc, m.recorded⟩]
        critical := none }
  | some (.range _ _ (_ :: _) _ []) => none

/-- `Range` calls its function for a connection that it has not visited. -/
def visit (id : ι) : Option (TrafficManager ι α) :=
  match m.critical with
  | some (.range before acc pending visited []) =>
      if id ∈ m.connections ∧ id ∉ visited then
        some { m with
          critical := some (.range before acc (pending.erase id) (visited ++ [id]) (loads id)) }
      else none
  | _ => none

def step : TrafficEvent ι α → Option (TrafficManager ι α)
  | .add id d n => some (m.addTo id d n)
  -- each connection has a UUID of its own and joins once
  | .join id =>
      if id ∈ m.joined then none
      else some { m with connections := m.connections ++ [id], joined := m.joined ++ [id] }
  | .enterLeave id =>
      if m.critical.isSome then none else some { m with critical := some (.leave id) }
  | .enterTotal =>
      if m.critical.isSome then none
      else some { m with
        critical := some (.total m.recorded m.closedTotal (m.closedConnections.flatMap loads)) }
  | .enterClear =>
      if m.critical.isSome then none
      else some { m with critical := some (.clear (m.closedConnections.flatMap loads)) }
  | .advance => m.advance
  | .visit id => m.visit id

end Model

variable {ι : Type} [DecidableEq ι] (m : TrafficManager ι Nat)

/-- What was recorded before the `Total` that is running. -/
def base : Option (Critical ι Nat) → Option (Direction → Nat)
  | some (.total before _ _) | some (.range before _ _ _ _) => some before
  | _ => none

/-- The amounts in the order of time: for each `Total` that returned what was recorded before, the
result, and what was recorded after; and what was recorded before the one that is running. -/
def timeline (d : Direction) : List Nat :=
  (m.reports.flatMap fun r => [r.before d, r.result d, r.after d]) ++
    (base m.critical).toList.map fun before => before d

/-- Where a `Total` stands among the counters that it reads. -/
structure Reads (critical : Option (Critical ι Nat)) : Prop where
  total : ∀ before acc ahead, critical = some (.total before acc ahead) → ∀ d,
    Reading (m.counters d) (m.held d) (m.closedTotal d) (before d) (acc d)
      (loadIds d ahead ++ m.connections) (loadIds d ahead ++ m.connections)
  visited : ∀ before acc pending visited ahead,
    critical = some (.range before acc pending visited ahead) → visited ⊆ m.connections
  range : ∀ before acc pending visited ahead,
    critical = some (.range before acc pending visited ahead) → ∀ d,
      Reading (m.counters d) (m.held d) (m.closedTotal d) (before d) (acc d)
        (loadIds d ahead ++ pending) (loadIds d ahead ++ m.connections.filter (· ∉ visited))

structure Inv : Prop where
  nodup : m.joined.Nodup
  books : ∀ d, Books (m.counters d) (m.held d) (m.frozen d) m.joined (m.closedTotal d) (m.lost d)
  limit : m.closedConnections.length ≤ closedConnectionsLimit
  evicted : ∀ id ahead, m.critical = some (.evict id ahead) →
    m.closedConnections.length < closedConnectionsLimit
  reads : m.Reads m.critical
  sorted : ∀ d, (m.timeline d ++ [m.recorded d]).Pairwise (· ≤ ·)

variable {m}

omit [DecidableEq ι] in
private theorem loadIds_cons (d d' : Direction) (id : ι) (ahead : List (ι × Direction)) :
    loadIds d ((id, d') :: ahead) = if d' = d then id :: loadIds d ahead else loadIds d ahead := by
  by_cases h : d' = d <;> simp [loadIds, h]

omit [DecidableEq ι] in
@[simp] private theorem loadIds_loads (d : Direction) (id : ι) : loadIds d (loads id) = [id] := by
  cases d <;> rfl

omit [DecidableEq ι] in
@[simp] private theorem loadIds_flatMap_loads (d : Direction) (ids : List ι) :
    loadIds d (ids.flatMap loads) = ids := by
  induction ids with
  | nil => rfl
  | cons id ids ih =>
      have hcons : loadIds d ((id :: ids).flatMap loads) =
          loadIds d (loads id) ++ loadIds d (ids.flatMap loads) := by simp [loadIds]
      rw [hcons, ih, loadIds_loads, List.singleton_append]

private theorem pairwise_le_concat {l : List Nat} {x y : Nat} (h : (l ++ [x]).Pairwise (· ≤ ·))
    (hxy : x ≤ y) : (l ++ [x] ++ [y]).Pairwise (· ≤ ·) := by
  refine List.pairwise_append.2 ⟨h, List.pairwise_singleton _ _, ?_⟩
  intro a ha b hb
  rw [List.mem_singleton.1 hb]
  rcases List.mem_append.1 ha with ha | ha
  · exact Nat.le_trans ((List.pairwise_append.1 h).2.2 a ha x (List.mem_singleton_self x)) hxy
  · rw [List.mem_singleton.1 ha]
    exact hxy

private theorem pairwise_le_append {l : List Nat} {x y : Nat} (h : (l ++ [x]).Pairwise (· ≤ ·))
    (hxy : x ≤ y) : (l ++ [y]).Pairwise (· ≤ ·) := by
  refine (pairwise_le_concat h hxy).sublist ?_
  rw [List.append_assoc]
  exact (List.sublist_append_right [x] [y]).append_left l

/-! ## Steps -/

@[simp] private theorem held_addTo (id : ι) (d e : Direction) (n : Nat) :
    (m.addTo id d n).held e = m.held e := rfl

@[simp] theorem counters_addTo_self (id : ι) (d : Direction) (n : Nat) :
    (m.addTo id d n).counters d = bump (m.counters d) id n :=
  Function.update_self _ _ _

@[simp] theorem counters_addTo_of_ne (id : ι) {d e : Direction} (n : Nat) (h : e ≠ d) :
    (m.addTo id d n).counters e = m.counters e :=
  Function.update_of_ne h _ _

private theorem reading_addTo {id : ι} {d e : Direction} {n base acc : Nat} {ahead allowed : List ι}
    (h : Reading (m.counters e) (m.held e) (m.closedTotal e) base acc ahead allowed) :
    Reading ((m.addTo id d n).counters e) ((m.addTo id d n).held e)
      ((m.addTo id d n).closedTotal e) base acc ahead allowed := by
  rw [held_addTo]
  by_cases he : e = d
  · subst he
    rw [counters_addTo_self]
    exact h.bump id n
  · rw [counters_addTo_of_ne id n he]
    exact h

theorem Inv.addTo (h : Inv m) (id : ι) (d : Direction) (n : Nat) : Inv (m.addTo id d n) where
  nodup := h.nodup
  books := by
    intro e
    rw [held_addTo]
    by_cases he : e = d
    · subst he
      rw [counters_addTo_self]
      simpa [TrafficManager.addTo, bump] using (h.books e).bump h.nodup id n
    · rw [counters_addTo_of_ne id n he]
      simpa [TrafficManager.addTo, bump, he] using h.books e
  limit := h.limit
  evicted := h.evicted
  reads :=
    { total := fun before acc ahead hc e => reading_addTo (h.reads.total before acc ahead hc e)
      visited := h.reads.visited
      range := fun before acc pending visited ahead hc e =>
        reading_addTo (h.reads.range before acc pending visited ahead hc e) }
  sorted := by
    intro e
    refine pairwise_le_append (h.sorted e) ?_
    rw [recorded, recorded, held_addTo]
    by_cases he : e = d
    · subst he
      rw [counters_addTo_self, tally_bump]
      exact Nat.add_le_add_left (Nat.le_add_right _ _) _
    · rw [counters_addTo_of_ne id n he]
      exact Nat.le_refl _

/-- The same counters and histories with other lists and another call inside. -/
def place (m : TrafficManager ι Nat) (connections closedConnections : List ι)
    (critical : Option (Critical ι Nat)) : TrafficManager ι Nat :=
  { m with connections, closedConnections, critical }

private theorem reads_of_quiet {critical : Option (Critical ι Nat)} (h : base critical = none) :
    m.Reads critical where
  total := by
    rintro before acc ahead rfl
    cases h
  visited := by
    rintro before acc pending visited ahead rfl
    cases h
  range := by
    rintro before acc pending visited ahead rfl
    cases h

section Place

variable {connections closedConnections : List ι} {critical : Option (Critical ι Nat)}

omit [DecidableEq ι] in
private theorem recorded_place {d : Direction}
    (hheld : (m.held d).Perm ((m.place connections closedConnections critical).held d)) :
    (m.place connections closedConnections critical).recorded d = m.recorded d := by
  rw [recorded, recorded, ← tally_perm _ hheld]
  rfl

private theorem Inv.place_books (h : Inv m)
    (hheld : ∀ d, (m.held d).Perm ((m.place connections closedConnections critical).held d))
    (d : Direction) :
    Books (m.counters d) ((m.place connections closedConnections critical).held d) (m.frozen d)
      m.joined (m.closedTotal d) (m.lost d) :=
  (h.books d).congr (hheld d)

private theorem Inv.place_sorted (h : Inv m) (hbase : base critical = base m.critical)
    (hheld : ∀ d, (m.held d).Perm ((m.place connections closedConnections critical).held d))
    (d : Direction) :
    ((m.place connections closedConnections critical).timeline d ++
      [(m.place connections closedConnections critical).recorded d]).Pairwise (· ≤ ·) := by
  have htimeline : (m.place connections closedConnections critical).timeline d = m.timeline d := by
    rw [timeline, timeline, ← hbase]
    rfl
  rw [htimeline, recorded_place (hheld d)]
  exact h.sorted d

theorem Inv.place (h : Inv m) (hbase : base m.critical = none) (hquiet : base critical = none)
    (hheld : ∀ d, (m.held d).Perm ((m.place connections closedConnections critical).held d))
    (hlimit : closedConnections.length ≤ closedConnectionsLimit)
    (hevicted : ∀ id ahead, critical = some (.evict id ahead) →
      closedConnections.length < closedConnectionsLimit) :
    Inv (m.place connections closedConnections critical) where
  nodup := h.nodup
  books := h.place_books hheld
  limit := hlimit
  evicted := hevicted
  reads := reads_of_quiet hquiet
  sorted := h.place_sorted (hquiet.trans hbase.symm) hheld

end Place

section Calls

variable {critical : Option (Critical ι Nat)}

omit [DecidableEq ι] in
private theorem behind_of_base {before : Direction → Nat} (h : base m.critical = some before)
    (d : Direction) : m.behind d = m.closedConnections := by
  unfold behind
  cases hc : m.critical with
  | none => rfl
  | some c =>
      rw [hc] at h
      cases c with
      | evict => cases h
      | clear => cases h
      | _ => rfl

theorem Inv.read (h : Inv m) {before : Direction → Nat} (hbase : base m.critical = some before)
    (hnext : base critical = some before) (hreads : m.Reads critical) :
    Inv (m.place m.connections m.closedConnections critical) := by
  have hheld : ∀ d, (m.place m.connections m.closedConnections critical).held d = m.held d := by
    intro d
    rw [held, held, behind_of_base hbase, behind_of_base (m := m.place _ _ _) hnext]
    rfl
  have hperm : ∀ d, (m.held d).Perm ((m.place m.connections m.closedConnections critical).held d) :=
    fun d => .of_eq (hheld d).symm
  refine ⟨h.nodup, h.place_books hperm, h.limit, ?_, ⟨?_, hreads.visited, ?_⟩,
    h.place_sorted (hnext.trans hbase.symm) hperm⟩
  · intro id ahead hc
    change critical = _ at hc
    rw [hc] at hnext
    cases hnext
  · intro before acc ahead hc d
    rw [hheld]
    exact hreads.total before acc ahead hc d
  · intro before acc pending visited ahead hc d
    rw [hheld]
    exact hreads.range before acc pending visited ahead hc d

private theorem reading_load {d d' : Direction} {id : ι} {base : Nat} {acc : Direction → Nat}
    {ahead : List (ι × Direction)} {must may : List ι}
    (h : Reading (m.counters d) (m.held d) (m.closedTotal d) base (acc d)
      (loadIds d ((id, d') :: ahead) ++ must) (loadIds d ((id, d') :: ahead) ++ may)) :
    Reading (m.counters d) (m.held d) (m.closedTotal d) base (bump acc d' (m.counters d' id) d)
      (loadIds d ahead ++ must) (loadIds d ahead ++ may) := by
  rw [loadIds_cons] at h
  by_cases hd : d' = d
  · subst hd
    rw [if_pos rfl] at h
    rw [bump, Function.update_self]
    exact h.load
  · rw [if_neg hd] at h
    rw [bump, Function.update_of_ne (Ne.symm hd)]
    exact h

theorem Inv.takeOver (h : Inv m) {id : ι} {d : Direction} (hbase : base m.critical = none)
    (hquiet : base critical = none)
    (hself : (m.held d).Perm (id :: held { m.takeOver id d with critical } d))
    (hother : ∀ e, e ≠ d → (m.held e).Perm (held { m.takeOver id d with critical } e))
    (hevicted : ∀ id ahead, critical = some (.evict id ahead) →
      m.closedConnections.length < closedConnectionsLimit) :
    Inv { m.takeOver id d with critical } := by
  have hbooks : ∀ e, Books (m.counters e) (held { m.takeOver id d with critical } e)
      ((m.takeOver id d).frozen e) m.joined ((m.takeOver id d).closedTotal e) (m.lost e) := by
    intro e
    by_cases he : e = d
    · subst he
      simpa [TrafficManager.takeOver, bump] using ((h.books e).congr hself).settle
    · simpa [TrafficManager.takeOver, bump, he] using (h.books e).congr (hother e he)
  have hrecorded : ∀ e, recorded { m.takeOver id d with critical } e = m.recorded e := by
    intro e
    have hold := (h.books e).balance
    have hnew := (hbooks e).balance
    simp only [recorded, TrafficManager.takeOver] at hnew ⊢
    omega
  refine ⟨h.nodup, hbooks, h.limit, hevicted, reads_of_quiet hquiet, ?_⟩
  intro e
  have htimeline : timeline { m.takeOver id d with critical } e = m.timeline e := by
    rw [timeline, timeline, hbase, ← hquiet]
    rfl
  rw [htimeline, hrecorded]
  exact h.sorted e

end Calls

private theorem filter_visit {l visited : List ι} {id : ι} (hl : l.Nodup) (hid : id ∈ l)
    (hnew : id ∉ visited) :
    (l.filter (· ∉ visited)).Perm (id :: l.filter (· ∉ visited ++ [id])) := by
  have hcons : (id :: l.filter (· ∉ visited ++ [id])).Nodup := by
    refine List.nodup_cons.2 ⟨by simp, hl.filter _⟩
  refine (List.perm_ext_iff_of_nodup (hl.filter _) hcons).2 ?_
  intro a
  by_cases ha : a = id
  · subst ha
    simp [hid, hnew]
  · simp [ha]

theorem Inv.evict (h : Inv m) {id evicted : ι} {rest : List ι} (hc : m.critical = some (.leave id))
    (hid : id ∈ m.connections) (hclosed : m.closedConnections = evicted :: rest) :
    Inv (m.place (m.connections.erase id) rest (some (.evict id (loads evicted)))) := by
  have hlength : rest.length < closedConnectionsLimit := by
    have hlimit := h.limit
    rw [hclosed, List.length_cons] at hlimit
    omega
  refine h.place (by rw [hc]; rfl) rfl ?_ (Nat.le_of_lt hlength) fun _ _ _ => hlength
  intro d
  have hbehind : m.behind d = evicted :: rest := by rw [behind, hc, hclosed]
  have hnext : (m.place (m.connections.erase id) rest (some (.evict id (loads evicted)))).held d =
      m.connections.erase id ++ id :: evicted :: rest := by
    cases d <;> rfl
  rw [held, hbehind, hnext]
  exact ((List.perm_cons_erase hid).append_right _).trans List.perm_middle.symm

theorem Inv.delete (h : Inv m) {id : ι} (hc : m.critical = some (.leave id))
    (hid : id ∈ m.connections) (hfull : m.closedConnections.length < closedConnectionsLimit) :
    Inv (m.place (m.connections.erase id) m.closedConnections (some (.evict id []))) := by
  refine h.place (by rw [hc]; rfl) rfl ?_ h.limit fun _ _ _ => hfull
  intro d
  have hbehind : m.behind d = m.closedConnections := by rw [behind, hc]
  rw [held, hbehind]
  exact ((List.perm_cons_erase hid).append_right _).trans List.perm_middle.symm

theorem Inv.push (h : Inv m) {id : ι} (hc : m.critical = some (.evict id [])) :
    Inv (m.place m.connections (m.closedConnections ++ [id]) none) := by
  have hlength := h.evicted _ _ hc
  refine h.place (by rw [hc]; rfl) rfl ?_ ?_ nofun
  · intro d
    have hbehind : m.behind d = id :: m.closedConnections := by rw [behind, hc]; rfl
    rw [held, hbehind]
    exact (List.perm_append_singleton _ _).symm.append_left _
  · rw [List.length_append, List.length_singleton]
    exact hlength

private theorem Inv.evictLoad (h : Inv m) {id evicted : ι} {d : Direction}
    {ahead : List (ι × Direction)} (hc : m.critical = some (.evict id ((evicted, d) :: ahead))) :
    Inv { m.takeOver evicted d with critical := some (.evict id ahead) } := by
  have hbehind : ∀ e, m.behind e = id :: (loadIds e ((evicted, d) :: ahead) ++
      m.closedConnections) := fun e => by rw [behind, hc]
  refine h.takeOver (by rw [hc]; rfl) rfl ?_ ?_ fun _ _ _ => h.evicted _ _ hc
  · rw [held, hbehind, loadIds_cons, if_pos rfl]
    exact ((List.Perm.swap _ _ _).append_left _).trans List.perm_middle
  · intro e he
    rw [held, hbehind, loadIds_cons, if_neg (Ne.symm he)]
    exact .refl _

private theorem Inv.clearLoad (h : Inv m) {id : ι} {d : Direction} {ahead : List (ι × Direction)}
    (hc : m.critical = some (.clear ((id, d) :: ahead))) :
    Inv { m.takeOver id d with critical := some (.clear ahead) } := by
  have hbehind : ∀ e, m.behind e = loadIds e ((id, d) :: ahead) := fun e => by rw [behind, hc]
  refine h.takeOver (by rw [hc]; rfl) rfl ?_ ?_ nofun
  · rw [held, hbehind, loadIds_cons, if_pos rfl]
    exact List.perm_middle
  · intro e he
    rw [held, hbehind, loadIds_cons, if_neg (Ne.symm he)]
    exact .refl _

theorem Inv.cleared (h : Inv m) (hc : m.critical = some (.clear [])) :
    Inv (m.place m.connections [] none) := by
  refine h.place (by rw [hc]; rfl) rfl ?_ (Nat.zero_le _) nofun
  intro d
  have hbehind : m.behind d = [] := by rw [behind, hc]; rfl
  rw [held, hbehind]
  exact .refl _

private theorem Inv.totalLoad (h : Inv m) {before acc : Direction → Nat} {id : ι} {d : Direction}
    {ahead : List (ι × Direction)}
    (hc : m.critical = some (.total before acc ((id, d) :: ahead))) :
    Inv (m.place m.connections m.closedConnections
      (some (.total before (bump acc d (m.counters d id)) ahead))) := by
  refine h.read (by rw [hc]; rfl) rfl ⟨?_, nofun, nofun⟩
  intro _ _ _ heq e
  cases heq
  exact reading_load (h.reads.total _ _ _ hc e)

private theorem Inv.beginRange (h : Inv m) {before acc : Direction → Nat}
    (hc : m.critical = some (.total before acc [])) :
    Inv (m.place m.connections m.closedConnections
      (some (.range before acc m.connections [] []))) := by
  refine h.read (by rw [hc]; rfl) rfl ⟨nofun, ?_, ?_⟩
  · intro _ _ _ _ _ heq
    cases heq
    exact List.nil_subset _
  · intro _ _ _ _ _ heq e
    cases heq
    simpa using h.reads.total _ _ _ hc e

section Range

variable {before acc : Direction → Nat} {pending visited : List ι} {ahead : List (ι × Direction)}

private theorem Inv.rangeLoad (h : Inv m) {id : ι} {d : Direction}
    (hc : m.critical = some (.range before acc pending visited ((id, d) :: ahead))) :
    Inv (m.place m.connections m.closedConnections
      (some (.range before (bump acc d (m.counters d id)) pending visited ahead))) := by
  refine h.read (by rw [hc]; rfl) rfl ⟨nofun, ?_, ?_⟩
  · intro _ _ _ _ _ heq
    cases heq
    exact h.reads.visited _ _ _ _ _ hc
  · intro _ _ _ _ _ heq e
    cases heq
    exact reading_load (h.reads.range _ _ _ _ _ hc e)

private theorem Inv.connections_nodup (h : Inv m) : m.connections.Nodup := by
  have hnodup := (h.books .upload).partition.nodup_iff.2 h.nodup
  rw [held, List.append_assoc] at hnodup
  exact (List.nodup_append.1 hnodup).1

theorem Inv.visit (h : Inv m) {id : ι}
    (hc : m.critical = some (.range before acc pending visited []))
    (hid : id ∈ m.connections) (hnew : id ∉ visited) :
    Inv (m.place m.connections m.closedConnections
      (some (.range before acc (pending.erase id) (visited ++ [id]) (loads id)))) := by
  refine h.read (by rw [hc]; rfl) rfl ⟨nofun, ?_, ?_⟩
  · intro _ _ _ _ _ heq
    cases heq
    refine List.append_subset.2 ⟨h.reads.visited _ _ _ _ _ hc, ?_⟩
    intro a ha
    rw [List.mem_singleton.1 ha]
    exact hid
  · intro _ _ _ _ _ heq e
    cases heq
    rw [loadIds_loads]
    refine (h.reads.range _ _ _ _ _ hc e).congr (.refl _) ?_ ?_
    · exact List.subperm_cons_erase id pending
    · exact filter_visit h.connections_nodup hid hnew

/-- The return of a `Total`: the result stands between what was recorded before and after it. -/
theorem Inv.report (h : Inv m) (hc : m.critical = some (.range before acc [] visited [])) :
    Inv { m with reports := m.reports ++ [⟨before, acc, m.recorded⟩], critical := none } := by
  have hheld : ∀ d, held { m with
      reports := m.reports ++ [⟨before, acc, m.recorded⟩], critical := none } d = m.held d := by
    intro d
    rw [held, held, behind_of_base (m := m) (by rw [hc]; rfl)]
    rfl
  refine ⟨h.nodup, fun d => hheld d ▸ h.books d, h.limit, nofun, reads_of_quiet rfl, ?_⟩
  intro d
  obtain ⟨hlower, hupper⟩ := (h.reads.range _ _ _ _ _ hc d).finish
  have hsorted := h.sorted d
  rw [timeline, hc] at hsorted
  have hbefore := (List.pairwise_append.1 hsorted).1
  have hreport := pairwise_le_concat (pairwise_le_concat (pairwise_le_concat hbefore hlower) hupper)
    (Nat.le_refl _)
  rw [recorded, hheld]
  simpa [timeline, base, recorded] using hreport

end Range

theorem Inv.advance {m' : TrafficManager ι Nat} (h : Inv m) (hstep : m.advance = some m') : Inv m' := by
  unfold TrafficManager.advance at hstep
  split at hstep
  · cases hstep
  · rename_i id hc
    split at hstep
    · rename_i hid
      split at hstep
      · split at hstep
        · cases hstep
        · rename_i evicted rest hclosed
          cases hstep
          exact h.evict hc hid hclosed
      · rename_i hfull
        cases hstep
        exact h.delete hc hid (Nat.lt_of_not_le hfull)
    · cases hstep
      refine h.place (by rw [hc]; rfl) rfl ?_ h.limit nofun
      intro d
      rw [held, behind, hc]
      exact .refl _
  · rename_i id evicted d ahead hc
    cases hstep
    exact h.evictLoad hc
  · rename_i id hc
    cases hstep
    exact h.push hc
  · rename_i id d ahead hc
    cases hstep
    exact h.clearLoad hc
  · rename_i hc
    cases hstep
    exact h.cleared hc
  · rename_i before acc id d ahead hc
    cases hstep
    exact h.totalLoad hc
  · rename_i before acc hc
    cases hstep
    exact h.beginRange hc
  · rename_i before acc pending visited id d ahead hc
    cases hstep
    exact h.rangeLoad hc
  · rename_i before acc visited hc
    cases hstep
    exact h.report hc
  · cases hstep

theorem Inv.enterTotal (h : Inv m) (hc : m.critical = none) :
    Inv (m.place m.connections m.closedConnections
      (some (.total m.recorded m.closedTotal (m.closedConnections.flatMap loads)))) := by
  have hheld : ∀ d, m.held d = m.connections ++ m.closedConnections :=
    fun d => by rw [held, behind, hc]
  refine ⟨h.nodup, fun d => (h.books d).congr (.of_eq (hheld d)), h.limit, nofun, ⟨?_, nofun, nofun⟩,
    ?_⟩
  · intro _ _ _ heq d
    cases heq
    rw [loadIds_flatMap_loads, recorded, hheld d]
    exact .start _ _ List.perm_append_comm
  · intro d
    have hsorted := pairwise_le_concat (h.sorted d) (Nat.le_refl _)
    have hrecorded : (m.place m.connections m.closedConnections
        (some (.total m.recorded m.closedTotal (m.closedConnections.flatMap loads)))).recorded d =
          m.recorded d := recorded_place (.of_eq (hheld d))
    rw [timeline, hc] at hsorted
    rw [hrecorded]
    simpa [timeline, base, TrafficManager.place] using hsorted

theorem Inv.enterClear (h : Inv m) (hc : m.critical = none) :
    Inv (m.place m.connections m.closedConnections
      (some (.clear (m.closedConnections.flatMap loads)))) := by
  refine h.place (by rw [hc]; rfl) rfl ?_ h.limit nofun
  intro d
  have hbehind : m.behind d = m.closedConnections := by rw [behind, hc]
  rw [held, hbehind]
  exact .of_eq (congrArg (m.connections ++ ·) (loadIds_flatMap_loads d m.closedConnections).symm)

theorem Inv.enterLeave (h : Inv m) (hc : m.critical = none) (id : ι) :
    Inv (m.place m.connections m.closedConnections (some (.leave id))) := by
  refine h.place (by rw [hc]; rfl) rfl ?_ h.limit nofun
  intro d
  rw [held, behind, hc]
  exact .refl _

def enlist (m : TrafficManager ι Nat) (id : ι) : TrafficManager ι Nat :=
  { m with connections := m.connections ++ [id], joined := m.joined ++ [id] }

omit [DecidableEq ι] in
private theorem held_enlist (id : ι) (d : Direction) : (id :: m.held d).Perm
    ((m.enlist id).held d) := by
  have hheld : (m.enlist id).held d = m.connections ++ (id :: m.behind d) :=
    List.append_assoc m.connections [id] (m.behind d)
  rw [hheld]
  exact List.perm_middle.symm

private theorem Inv.enlist (h : Inv m) {id : ι} (hid : id ∉ m.joined) : Inv (m.enlist id) where
  nodup := by
    have hnodup := h.nodup.concat hid
    rw [List.concat_eq_append] at hnodup
    exact hnodup
  books := fun d => ((h.books d).join id).congr (held_enlist id d)
  limit := h.limit
  evicted := h.evicted
  reads := by
    refine ⟨?_, ?_, ?_⟩
    · intro before acc ahead hc d
      have hmore : (id :: (loadIds d ahead ++ m.connections)).Perm
          (loadIds d ahead ++ (m.connections ++ [id])) := by
        rw [← List.append_assoc]
        exact (List.perm_append_singleton _ _).symm
      refine ((h.reads.total before acc ahead hc d).grow id).congr (held_enlist id d) ?_ hmore
      exact (List.sublist_cons_self _ _).subperm.trans hmore.subperm
    · intro before acc pending visited ahead hc
      exact List.subset_append_of_subset_left _ (h.reads.visited before acc pending visited ahead hc)
    · intro before acc pending visited ahead hc d
      have hold : id ∉ visited := by
        intro hmem
        have hconnection := h.reads.visited before acc pending visited ahead hc hmem
        exact hid ((h.books d).partition.subset
          (List.mem_append_left _ (List.mem_append_left _ hconnection)))
      have hfilter : (m.connections ++ [id]).filter (· ∉ visited) =
          m.connections.filter (· ∉ visited) ++ [id] := by
        rw [List.filter_append]
        simp [hold]
      refine ((h.reads.range before acc pending visited ahead hc d).grow id).congr
        (held_enlist id d) (.refl _) ?_
      change List.Perm _ (loadIds d ahead ++ (m.connections ++ [id]).filter (· ∉ visited))
      rw [hfilter, ← List.append_assoc]
      exact (List.perm_append_singleton _ _).symm
  sorted := by
    intro d
    refine pairwise_le_append (h.sorted d) ?_
    have hmore := tally_le_of_subperm (m.counters d)
      ((List.sublist_cons_self id (m.held d)).subperm.trans (held_enlist id d).subperm)
    exact Nat.add_le_add_left hmore _

theorem Inv.step {m' : TrafficManager ι Nat} {e : TrafficEvent ι Nat} (h : Inv m)
    (hstep : m.step e = some m') : Inv m' := by
  cases e with
  | add id d n =>
      cases hstep
      exact h.addTo id d n
  | join id =>
      simp only [TrafficManager.step] at hstep
      split at hstep
      · cases hstep
      · rename_i hid
        cases hstep
        exact h.enlist hid
  | enterLeave id =>
      simp only [TrafficManager.step] at hstep
      split at hstep
      · cases hstep
      · rename_i hc
        cases hstep
        exact h.enterLeave (by simpa using hc) id
  | enterTotal =>
      simp only [TrafficManager.step] at hstep
      split at hstep
      · cases hstep
      · rename_i hc
        cases hstep
        exact h.enterTotal (by simpa using hc)
  | enterClear =>
      simp only [TrafficManager.step] at hstep
      split at hstep
      · cases hstep
      · rename_i hc
        cases hstep
        exact h.enterClear (by simpa using hc)
  | advance => exact h.advance hstep
  | visit id =>
      simp only [TrafficManager.step, TrafficManager.visit] at hstep
      split at hstep
      · rename_i before acc pending visited hc
        split at hstep
        · rename_i hid
          cases hstep
          exact h.visit hc hid.1 hid.2
        · cases hstep
      · cases hstep

private theorem inv_initial : Inv ({} : TrafficManager ι Nat) where
  nodup := List.nodup_nil
  books := fun _ => ⟨.refl _, rfl⟩
  limit := Nat.zero_le _
  evicted := nofun
  reads := reads_of_quiet rfl
  sorted := fun _ => List.pairwise_singleton _ _

theorem inv_of_reachable (h : Reachable TrafficManager.step ({} : TrafficManager ι Nat) m) : Inv m :=
  h.invariant inv_initial fun _ _ _ hs hstep => hs.step hstep

end TrafficManager

end SingBoxPython.Core
