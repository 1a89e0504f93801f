import SingBoxPython.Binding.Statistics

/-!
# The counters of a snapshot

What one query returns while no connection adds to the counters: the visits of its loop one after
the other, and then the response in any order that `sort.Slice` may leave it in, which sorts by
name only and is not stable.
-/

namespace SingBoxPython.Binding
open Framework

section Visits

variable (matcher : CounterName → CounterName → Bool)

/-- How many of the patterns match the name; every name matches an empty list once. -/
def matchCount (r : QueryRequest) (name : CounterName) : Nat :=
  if r.patterns = [] then 1
  else if r.regexp then r.patterns.countP fun p => matcher p name
  else r.patterns.countP fun p => decide (p <:+: name)

private theorem visits_eq (r : QueryRequest) (order : List CounterName) :
    visits (fun p => some (matcher p)) r order =
      some (order.flatMap fun name => List.replicate (matchCount matcher r name) name) := by
  have hcount (l : List CounterName) (f : CounterName → Bool) (name : CounterName) :
      (l.filter f).map (fun _ => name) = List.replicate (l.countP f) name := by
    rw [List.map_const', List.countP_eq_length_filter]
  unfold visits
  split
  case isTrue h => simp [matchCount, h]
  case isFalse h =>
    split
    case isTrue hr =>
      have hcompile : r.patterns.mapM (fun p => some (matcher p)) = some (r.patterns.map matcher) :=
        List.mapM_pure
      rw [hcompile, Option.map_some]
      congr 2
      funext name
      rw [List.map_const', ← List.countP_eq_length_filter, List.countP_map, matchCount, if_neg h,
        if_pos hr]
      rfl
    case isFalse hr =>
      congr 2
      funext name
      rw [hcount, matchCount, if_neg h, if_neg hr]

end Visits

def collect (reset : Bool) : CounterMap → List CounterName → List Stat
  | _, [] => []
  | m, name :: ahead => ⟨name, m.value name⟩ :: collect reset (if reset then m.swap name else m) ahead

private theorem map_name_collect (reset : Bool) (m : CounterMap) (ahead : List CounterName) :
    (collect reset m ahead).map Stat.name = ahead := by
  induction ahead generalizing m with
  | nil => rfl
  | cons name ahead ih => rw [collect, List.map_cons, ih]

private theorem collect_of_nodup (reset : Bool) {m m' : CounterMap} {ahead : List CounterName}
    (hnodup : ahead.Nodup) (hm : ∀ name ∈ ahead, m'.value name = m.value name) :
    collect reset m' ahead = ahead.map fun name => ⟨name, m.value name⟩ := by
  induction ahead generalizing m' with
  | nil => rfl
  | cons name ahead ih =>
      obtain ⟨hnot, hnodup⟩ := List.nodup_cons.1 hnodup
      rw [collect, List.map_cons, hm name List.mem_cons_self, ih hnodup]
      intro name' hname'
      have hold := hm name' (List.mem_cons_of_mem name hname')
      cases reset with
      | false => exact hold
      | true =>
          have hne : name' ≠ name := fun h => hnot (h ▸ hname')
          simpa [CounterMap.swap, hne] using hold

/-! ## The loop of a query that runs alone -/

section Alone

variable {compile : CounterName → Option (CounterName → Bool)} {s t : Statistics} {c : CallId}
  {i : InstanceId} {name : CounterName} {ahead : List CounterName}

private theorem statsStep_visit (hc : s.native.calls c = .queryStatsLoop i)
    (hq : (s.queries c).pending = some (name :: ahead)) :
    statsStep compile s (.call c .visit) = some (s.visit c i name ahead) := by
  simp only [statsStep, Statistics.visitNext, hc, hq]

private theorem visit_native : (s.visit c i name ahead).native = s.native := by
  unfold Statistics.visit
  split <;> rfl

private theorem visit_queries : (s.visit c i name ahead).queries c =
    (s.queries c).visited name ((s.counters i).value name) ahead := by
  unfold Statistics.visit
  split <;> simp [Statistics.setCounters, Statistics.setQuery]

private theorem visit_counters : (s.visit c i name ahead).counters i =
    if (s.queries c).request.reset then (s.counters i).swap name else s.counters i := by
  unfold Statistics.visit
  split <;> simp [Statistics.setCounters, Statistics.setQuery]

private theorem exec_visits {n : Nat} (hc : s.native.calls c = .queryStatsLoop i)
    (hq : (s.queries c).pending = some ahead)
    (h : exec (statsStep compile) s (List.replicate n (.call c .visit)) = some t)
    (hover : (t.queries c).pending = some []) :
    (t.queries c).response =
      (s.queries c).response ++ collect (s.queries c).request.reset (s.counters i) ahead := by
  induction ahead generalizing s n with
  | nil =>
      cases n with
      | zero =>
          obtain rfl := Option.some.inj h
          simp [collect]
      | succ n =>
          rw [List.replicate_succ, exec_cons] at h
          obtain ⟨u, hu, -⟩ := h
          simp [statsStep, Statistics.visitNext, hc, hq] at hu
  | cons name ahead ih =>
      cases n with
      | zero =>
          obtain rfl := Option.some.inj h
          rw [hq] at hover
          cases hover
      | succ n =>
          rw [List.replicate_succ, exec_cons] at h
          obtain ⟨u, hu, hrest⟩ := h
          rw [statsStep_visit hc hq] at hu
          obtain rfl := Option.some.inj hu
          have hnext := ih (by rw [visit_native]; exact hc) (by rw [visit_queries]; rfl) hrest
          rw [hnext, visit_queries, visit_counters]
          simp [Query.visited, collect]

private theorem exists_exec_visits (compile : CounterName → Option (CounterName → Bool))
    (hc : s.native.calls c = .queryStatsLoop i)
    (hq : (s.queries c).pending = some ahead) :
    ∃ t, exec (statsStep compile) s (List.replicate ahead.length (.call c .visit)) = some t ∧
      (t.queries c).pending = some [] := by
  induction ahead generalizing s with
  | nil => exact ⟨s, rfl, hq⟩
  | cons name ahead ih =>
      obtain ⟨t, ht, hover⟩ := ih (s := s.visit c i name ahead)
        (by rw [visit_native]; exact hc) (by rw [visit_queries]; rfl)
      refine ⟨t, ?_, hover⟩
      rw [List.length_cons, List.replicate_succ, exec_cons]
      exact ⟨_, statsStep_visit hc hq, ht⟩

end Alone

/-- The list `out` is what a query that stands before its loop can return when it runs alone. -/
def Snapshot (matcher : CounterName → CounterName → Bool) (s : Statistics) (c : CallId)
    (out : List Stat) : Prop :=
  ∃ order n t,
    exec (statsStep fun p => some (matcher p)) s
      (.call c (.beginLoop order) :: List.replicate n (.call c .visit)) = some t ∧
    (t.queries c).pending = some [] ∧ out.Perm (t.queries c).response ∧
    out.Pairwise fun a b => Text.lt b.name a.name = false

structure BeforeLoop (s : Statistics) (c : CallId) (i : InstanceId) : Prop where
  place : s.native.calls c = .queryStatsLoop i
  pending : (s.queries c).pending = none
  response : (s.queries c).response = []

section Snapshot

variable {matcher : CounterName → CounterName → Bool} {s : Statistics} {c : CallId}
  {i : InstanceId}

def loopVisits (matcher : CounterName → CounterName → Bool) (r : QueryRequest)
    (order : List CounterName) : List CounterName :=
  order.flatMap fun name => List.replicate (matchCount matcher r name) name

def Statistics.looping (s : Statistics) (c : CallId) (ahead : List CounterName) : Statistics :=
  s.setQuery c { s.queries c with pending := some ahead }

private theorem looping_queries (ahead : List CounterName) :
    (s.looping c ahead).queries c = { s.queries c with pending := some ahead } := by
  simp [Statistics.looping, Statistics.setQuery]

private theorem statsStep_beginLoop (hs : BeforeLoop s c i) {order : List CounterName}
    (horder : order.Perm (s.counters i).names) :
    statsStep (fun p => some (matcher p)) s (.call c (.beginLoop order)) =
      some (s.looping c (loopVisits matcher (s.queries c).request order)) := by
  simp only [statsStep, Statistics.beginLoop, hs.place, hs.pending, horder, and_self, if_true,
    visits_eq, loopVisits, Statistics.looping]

/-- What a snapshot is: the collected response in some order sorted by name. -/
private theorem snapshot_iff (hs : BeforeLoop s c i) {out : List Stat} :
    Snapshot matcher s c out ↔
      (∃ order, order.Perm (s.counters i).names ∧
        out.Perm (collect (s.queries c).request.reset (s.counters i)
          (loopVisits matcher (s.queries c).request order))) ∧
      out.Pairwise fun a b => Text.lt b.name a.name = false := by
  have hplace (ahead : List CounterName) :
      (s.looping c ahead).native.calls c = .queryStatsLoop i := hs.place
  have hloop (ahead : List CounterName) :
      ((s.looping c ahead).queries c).pending = some ahead := by
    rw [looping_queries]
  have hcollected {ahead : List CounterName} {n : Nat} {t : Statistics}
      (ht : exec (statsStep fun p => some (matcher p)) (s.looping c ahead)
        (List.replicate n (.call c .visit)) = some t)
      (hover : (t.queries c).pending = some []) :
      (t.queries c).response = collect (s.queries c).request.reset (s.counters i) ahead := by
    rw [exec_visits (hplace ahead) (hloop ahead) ht hover, looping_queries]
    simp only [hs.response, List.nil_append]
    rfl
  constructor
  · rintro ⟨order, n, t, hexec, hover, hperm, hsorted⟩
    obtain ⟨u, hu, hrest⟩ := exec_cons.1 hexec
    have horder : order.Perm (s.counters i).names := by
      by_contra hnot
      simp [statsStep, Statistics.beginLoop, hs.place, hnot] at hu
    rw [statsStep_beginLoop hs horder] at hu
    obtain rfl := Option.some.inj hu
    rw [hcollected hrest hover] at hperm
    exact ⟨⟨order, horder, hperm⟩, hsorted⟩
  · rintro ⟨⟨order, horder, hperm⟩, hsorted⟩
    obtain ⟨t, ht, hover⟩ := exists_exec_visits (fun p => some (matcher p))
      (hplace (loopVisits matcher (s.queries c).request order)) (hloop _)
    refine ⟨order, _, t, exec_cons.2 ⟨_, statsStep_beginLoop hs horder, ht⟩, hover, ?_, hsorted⟩
    rw [hcollected ht hover]
    exact hperm

/-- The counter matches at least one pattern, or the list of patterns is empty. -/
def Matches (matcher : CounterName → CounterName → Bool) (r : QueryRequest)
    (name : CounterName) : Prop :=
  r.patterns = [] ∨ ∃ p ∈ r.patterns, if r.regexp then matcher p name = true else p <:+: name

private theorem matchCount_pos {r : QueryRequest} {name : CounterName} :
    0 < matchCount matcher r name ↔ Matches matcher r name := by
  unfold matchCount Matches
  by_cases hp : r.patterns = []
  · simp [hp]
  · by_cases hr : r.regexp = true <;> simp [hp, hr, List.countP_pos_iff]

/-- What a snapshot should be: the counters that match, in strictly ascending order of their names,
each with its value before the query, and so a map from names to values. -/
structure Exact (matcher : CounterName → CounterName → Bool) (r : QueryRequest) (m : CounterMap)
    (out : List Stat) : Prop where
  ascending : out.Pairwise fun a b => Text.lt a.name b.name = true
  complete : ∀ x, x ∈ out ↔
    x.name ∈ m.names ∧ Matches matcher r x.name ∧ x.value = m.value x.name
  functional : ∀ x ∈ out, ∀ y ∈ out, x.name = y.name → x = y

private theorem nodup_of_ascending {out : List Stat}
    (h : out.Pairwise fun a b => Text.lt a.name b.name = true) : (out.map Stat.name).Nodup := by
  rw [List.Nodup, List.pairwise_map]
  refine h.imp fun {a b} hab heq => ?_
  rw [heq, Text.lt_irrefl] at hab
  cases hab

private theorem loopVisits_of_le_one {r : QueryRequest} {order : List CounterName}
    (h : ∀ name ∈ order, matchCount matcher r name ≤ 1) :
    loopVisits matcher r order = order.filter fun name => matchCount matcher r name = 1 := by
  induction order with
  | nil => rfl
  | cons name order ih =>
      have hrest := ih fun n hn => h n (List.mem_cons_of_mem name hn)
      rw [loopVisits] at hrest ⊢
      rw [List.flatMap_cons, hrest]
      have hname := h name List.mem_cons_self
      obtain hzero | hone : matchCount matcher r name = 0 ∨ matchCount matcher r name = 1 := by omega
      · simp [hzero]
      · simp [hone]

private theorem le_one_of_nodup_loopVisits {r : QueryRequest} {order : List CounterName}
    (h : (loopVisits matcher r order).Nodup) : ∀ name ∈ order, matchCount matcher r name ≤ 1 := by
  induction order with
  | nil => exact fun _ hname => nomatch hname
  | cons name order ih =>
      rw [loopVisits, List.flatMap_cons, List.nodup_append] at h
      intro name' hname'
      rcases List.mem_cons.1 hname' with rfl | hname'
      · exact List.nodup_replicate.1 h.1
      · exact ih h.2.1 name' hname'

section Exactness

variable (hs : BeforeLoop s c i)
  (hone : ∀ name ∈ (s.counters i).names, matchCount matcher (s.queries c).request name ≤ 1)
  {out : List Stat}
include hs hone

private theorem snapshot_perm (h : Snapshot matcher s c out) :
    out.Perm (((s.counters i).names.filter fun name =>
      matchCount matcher (s.queries c).request name = 1).map fun name =>
        ⟨name, (s.counters i).value name⟩) := by
  obtain ⟨⟨order, horder, hperm⟩, -⟩ := (snapshot_iff hs).1 h
  rw [loopVisits_of_le_one fun name hname => hone name (horder.mem_iff.1 hname),
    collect_of_nodup _ ((horder.nodup_iff.2 (s.counters i).nodup).filter _) fun _ _ => rfl] at hperm
  exact hperm.trans ((horder.filter _).map _)

private theorem exact_of_snapshot (h : Snapshot matcher s c out) :
    Exact matcher (s.queries c).request (s.counters i) out := by
  have hperm := snapshot_perm hs hone h
  have hsorted := ((snapshot_iff hs).1 h).2
  have hnames : (out.map Stat.name).Nodup := by
    refine (hperm.map Stat.name).nodup_iff.2 ?_
    rw [List.map_map]
    exact (List.map_id' _).symm ▸ (s.counters i).nodup.filter _
  have hmem : ∀ x, x ∈ out ↔ x.name ∈ (s.counters i).names ∧
      Matches matcher (s.queries c).request x.name ∧ x.value = (s.counters i).value x.name := by
    intro x
    rw [hperm.mem_iff, List.mem_map]
    constructor
    · rintro ⟨name, hname, rfl⟩
      obtain ⟨hin, hcount⟩ := List.mem_filter.1 hname
      refine ⟨hin, matchCount_pos.1 ?_, rfl⟩
      rw [of_decide_eq_true hcount]
      exact Nat.one_pos
    · rintro ⟨hin, hmatch, hvalue⟩
      refine ⟨x.name, List.mem_filter.2 ⟨hin, ?_⟩, ?_⟩
      · have hpos := matchCount_pos.2 hmatch
        have hle := hone x.name hin
        exact decide_eq_true (by omega)
      · rw [← hvalue]
  refine ⟨?_, hmem, ?_⟩
  · rw [List.Nodup, List.pairwise_map] at hnames
    refine (hsorted.and hnames).imp fun {a b} hab => ?_
    by_contra hlt
    rw [Bool.not_eq_true] at hlt
    exact hab.2 (Text.eq_of_not_lt hlt hab.1)
  · intro x hx y hy hxy
    have hvx := ((hmem x).1 hx).2.2
    have hvy := ((hmem y).1 hy).2.2
    cases x
    cases y
    simp_all

private theorem snapshot_unique {out' : List Stat} (h : Snapshot matcher s c out)
    (h' : Snapshot matcher s c out') : out = out' := by
  have hexact := exact_of_snapshot hs hone h
  have hexact' := exact_of_snapshot hs hone h'
  refine List.Perm.eq_of_pairwise (fun a b _ _ hab hba => ?_) hexact.ascending hexact'.ascending
    ((snapshot_perm hs hone h).trans (snapshot_perm hs hone h').symm)
  rw [Text.lt_asymm hab] at hba
  cases hba

end Exactness

/-- Every snapshot names each matching counter once with its value before the query, and equal
counters give equal snapshots, exactly when no counter matches more than one of the patterns. -/
theorem snapshot_exact_iff (matcher : CounterName → CounterName → Bool) {s : Statistics}
    {c : CallId} {i : InstanceId} (hs : BeforeLoop s c i) :
    ((∀ out, Snapshot matcher s c out →
        Exact matcher (s.queries c).request (s.counters i) out) ∧
      ∀ out out', Snapshot matcher s c out → Snapshot matcher s c out' → out = out') ↔
      ∀ name ∈ (s.counters i).names, matchCount matcher (s.queries c).request name ≤ 1 := by
  constructor
  · rintro ⟨hexact, -⟩
    have hsnapshot : Snapshot matcher s c (sortStats (collect (s.queries c).request.reset
        (s.counters i) (loopVisits matcher (s.queries c).request (s.counters i).names))) :=
      (snapshot_iff hs).2
        ⟨⟨_, .refl _, sortStats_perm _⟩, sortStats_pairwise _⟩
    have hnames := nodup_of_ascending (hexact _ hsnapshot).ascending
    rw [((sortStats_perm _).map Stat.name).nodup_iff, map_name_collect] at hnames
    exact le_one_of_nodup_loopVisits hnames
  · intro hone
    exact ⟨fun out h => exact_of_snapshot hs hone h,
      fun out out' h h' => snapshot_unique hs hone h h'⟩

end Snapshot

/-- A counter `ab` with the value 5, and a reset query of it with the patterns `a` and `b` up to its
loop. -/
def overlapRun : List StatsEvent :=
  .call 0 .start :: List.replicate 5 (.call 0 (.advance (.ok true))) ++
    [.create 0 ['a', 'b'], .add 0 ['a', 'b'] 5,
      .call 1 (.query 1 { patterns := [['a'], ['b']], reset := true })] ++
    List.replicate 7 (.call 1 (.advance (.ok true)))

private theorem exists_overlap :
    ∃ s, exec (statsStep fun _ => some fun _ => false)
        {} overlapRun = some s ∧ BeforeLoop s 1 0 ∧
      (s.queries 1).request = { patterns := [['a'], ['b']], reset := true } ∧
      (s.counters 0).names = [['a', 'b']] ∧ (s.counters 0).value ['a', 'b'] = 5 := by
  have hrun : (exec (statsStep fun _ => some fun _ => false)
      {} overlapRun).map (fun s => (s.native.calls 1, (s.queries 1).pending, (s.queries 1).response,
        (s.queries 1).request, (s.counters 0).names, (s.counters 0).value ['a', 'b'])) =
      some (.queryStatsLoop 0, none, [], { patterns := [['a'], ['b']], reset := true },
        [['a', 'b']], 5) := rfl
  obtain ⟨s, hs, hvalues⟩ := Option.map_eq_some_iff.1 hrun
  simp only [Prod.mk.injEq] at hvalues
  obtain ⟨hplace, hpending, hresponse, hrequest, hnames, hvalue⟩ := hvalues
  exact ⟨s, hs, ⟨hplace, hpending, hresponse⟩, hrequest, hnames, hvalue⟩

theorem snapshot_exact_iff_at_overlap :
    ∃ s, BeforeLoop s 1 0 ∧
      (((∀ out, Snapshot (fun _ _ => false) s 1 out →
          Exact (fun _ _ => false) (s.queries 1).request (s.counters 0) out) ∧
        ∀ out out', Snapshot (fun _ _ => false) s 1 out → Snapshot (fun _ _ => false) s 1 out' →
          out = out') ↔
        ∀ name ∈ (s.counters 0).names,
          matchCount (fun _ _ => false) (s.queries 1).request name ≤ 1) := by
  obtain ⟨s, -, hs, -⟩ := exists_overlap
  exact ⟨s, hs, snapshot_exact_iff _ hs⟩

/-- Two overlapping patterns name one counter twice, with the value before the query and with the
zero that the first visit left, in either order. -/
theorem snapshot_names_counter_twice :
    ∃ s, exec (statsStep fun _ => some fun _ => false)
        {} overlapRun = some s ∧
      Snapshot (fun _ _ => false) s 1 [⟨['a', 'b'], 5⟩, ⟨['a', 'b'], 0⟩] ∧
      Snapshot (fun _ _ => false) s 1 [⟨['a', 'b'], 0⟩, ⟨['a', 'b'], 5⟩] := by
  obtain ⟨s, hrun, hs, hrequest, hnames, hvalue⟩ := exists_overlap
  have hcollect : collect (s.queries 1).request.reset (s.counters 0)
      (loopVisits (fun _ _ => false) (s.queries 1).request (s.counters 0).names) =
      [⟨['a', 'b'], 5⟩, ⟨['a', 'b'], 0⟩] := by
    have hvisits : loopVisits (fun _ _ => false) { patterns := [['a'], ['b']], reset := true }
        [['a', 'b']] = [['a', 'b'], ['a', 'b']] := by decide
    rw [hrequest, hnames, hvisits]
    simp [collect, hvalue, CounterMap.swap]
  refine ⟨s, hrun, (snapshot_iff hs).2 ⟨⟨_, .refl _, ?_⟩, ?_⟩,
    (snapshot_iff hs).2 ⟨⟨_, .refl _, ?_⟩, ?_⟩⟩
  · rw [hcollect]
  · simp [Text.lt_irrefl]
  · rw [hcollect]
    exact .swap _ _ _
  · simp [Text.lt_irrefl]

end SingBoxPython.Binding
