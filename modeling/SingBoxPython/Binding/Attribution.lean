import SingBoxPython.Binding.Traffic

/-!
# Whose traffic a counter counts

The tracker side of `experimental/v2rayapi/stats.go`: `RoutedConnection`, `RoutedPacketConnection`
and `RoutedFlow` look up the counters of a connection under the lock, and each transfer of the
connection is added to its counters one after another, without a lock, while queries read and reset
them.
-/

namespace SingBoxPython.Binding
open Framework

/-! ## Counters and their names -/

inductive CounterKind
  | inbound
  | outbound
  | user
  deriving DecidableEq

def CounterKind.text : CounterKind → Text
  | .inbound => "inbound".toList
  | .outbound => "outbound".toList
  | .user => "user".toList

inductive Direction
  | uplink
  | downlink
  deriving DecidableEq

def Direction.text : Direction → Text
  | .uplink => "uplink".toList
  | .downlink => "downlink".toList

def counterName (kind : CounterKind) (tag : Text) (direction : Direction) : CounterName :=
  kind.text ++ ">>>".toList ++ tag ++ ">>>traffic>>>".toList ++ direction.text

def CounterKind.initial : CounterKind → Char
  | .inbound => 'i'
  | .outbound => 'o'
  | .user => 'u'

private theorem head?_counterName (kind : CounterKind) (tag : Text) (direction : Direction) :
    (counterName kind tag direction).head? = some kind.initial := by
  cases kind <;> rfl

private theorem suffix_counterName (kind : CounterKind) (tag : Text) (direction : Direction) :
    direction.text <:+ counterName kind tag direction :=
  ⟨kind.text ++ ">>>".toList ++ tag ++ ">>>traffic>>>".toList, rfl⟩

/-- A counter has one owner, whatever characters the tags have. -/
private theorem counterName_inj {kind kind' : CounterKind} {tag tag' : Text}
    {direction direction' : Direction}
    (h : counterName kind tag direction = counterName kind' tag' direction') :
    kind = kind' ∧ tag = tag' ∧ direction = direction' := by
  have hkind : kind = kind' := by
    have hhead := head?_counterName kind tag direction
    rw [h, head?_counterName] at hhead
    revert hhead
    cases kind <;> cases kind' <;> decide
  have hsuffix := suffix_counterName kind tag direction
  rw [h] at hsuffix
  have hsuffix' := suffix_counterName kind' tag' direction'
  have hdirection : direction = direction' := by
    cases direction <;> cases direction'
    · rfl
    · exact absurd (List.suffix_of_suffix_length_le hsuffix hsuffix' (by decide)) (by decide)
    · exact absurd (List.suffix_of_suffix_length_le hsuffix' hsuffix (by decide)) (by decide)
    · rfl
  subst hkind
  subst hdirection
  refine ⟨rfl, ?_, rfl⟩
  simpa [counterName] using h

structure StatsOptions where
  enabled : Bool
  inbounds : List Text
  outbounds : List Text
  users : List Text

/-- `StatsService`, as far as it is set up: the tags in its maps. -/
structure StatsService where
  inbounds : List Text
  outbounds : List Text
  users : List Text

def newStatsService (options : StatsOptions) : Option StatsService :=
  if options.enabled then some ⟨options.inbounds, options.outbounds, options.users⟩ else none

def StatsService.tracked (service : StatsService) : CounterKind → List Text
  | .inbound => service.inbounds
  | .outbound => service.outbounds
  | .user => service.users

/-- What the tracker reads of a connection: `metadata.Inbound`, `matchOutbound.Tag()` and
`metadata.User`. -/
structure Metadata where
  inbound : Text
  outbound : Text
  user : Text
  deriving DecidableEq

def Metadata.tag (metadata : Metadata) : CounterKind → Text
  | .inbound => metadata.inbound
  | .outbound => metadata.outbound
  | .user => metadata.user

def StatsService.counts (service : StatsService) (metadata : Metadata) (kind : CounterKind) : Bool :=
  metadata.tag kind != [] && (service.tracked kind).contains (metadata.tag kind)

def StatsService.counted (service : StatsService) (metadata : Metadata) : List CounterKind :=
  [.inbound, .outbound, .user].filter (service.counts metadata)

/-- `readCounter` and `writeCounter`, or `uplinkCounter` and `downlinkCounter`. -/
def StatsService.counterNames (service : StatsService) (metadata : Metadata) (direction : Direction) :
    List CounterName :=
  (service.counted metadata).map fun kind => counterName kind (metadata.tag kind) direction

def StatsService.lookups (service : StatsService) (metadata : Metadata) : List CounterName :=
  (service.counted metadata).flatMap fun kind =>
    [counterName kind (metadata.tag kind) .uplink, counterName kind (metadata.tag kind) .downlink]

/-! ## Connections -/

abbrev ConnectionId := Nat

/-- A routed connection of an instance with its counters; there are none where it is returned as it
is. -/
structure Connection where
  target : InstanceId
  metadata : Metadata
  counters : Direction → List CounterName

/-- An addition that a connection has still to make for a transfer. -/
structure Outstanding where
  transfer : Nat
  target : InstanceId
  stat : Stat

structure Transfer where
  target : InstanceId
  metadata : Metadata
  direction : Direction
  bytes : Int

/-- The statistics with the connections.  `transfers` is the history of what was carried. -/
structure Metered where
  stats : Statistics := {}
  connections : ConnectionId → Option Connection := fun _ => none
  outstanding : List Outstanding := []
  transfers : List Transfer := []

/-- A call takes a step, a connection is routed, it carries bytes in one direction, or it adds those
of a transfer to the next counter.  Transfers are numbered in the order in which they happen. -/
inductive MeteredEvent
  | call (c : CallId) (a : StatsAction)
  | route (connection : ConnectionId) (target : InstanceId) (metadata : Metadata)
  | transfer (connection : ConnectionId) (direction : Direction) (bytes : Int)
  | count (transfer : Nat)

section Step

-- `options` are the options with which `newStatsService` is called for the instances.
variable (compile : CounterName → Option (CounterName → Bool)) (options : InstanceId → StatsOptions)

def Metered.connect (s : Metered) (id : ConnectionId) (connection : Connection) : Metered :=
  { s with connections := fun i => if i = id then some connection else s.connections i }

def meteredStep (s : Metered) : MeteredEvent → Option Metered
  | .call c a => (statsStep compile s.stats (.call c a)).map fun stats => { s with stats := stats }
  | .route id target metadata =>
      if s.connections id = none then
        match newStatsService (options target) with
        | none => some (s.connect id ⟨target, metadata, fun _ => []⟩)
        | some service =>
            -- All lookups happen under one lock of the service.
            (exec (statsStep compile) s.stats
              ((service.lookups metadata).map (StatsEvent.create target))).map fun stats =>
                { s with stats := stats }.connect id ⟨target, metadata, service.counterNames metadata⟩
      else none
  | .transfer id direction bytes =>
      match s.connections id with
      | none => none
      | some connection =>
          some { s with
            outstanding := s.outstanding ++ (connection.counters direction).map fun name =>
              ⟨s.transfers.length, connection.target, ⟨name, bytes⟩⟩
            transfers := s.transfers ++
              [⟨connection.target, connection.metadata, direction, bytes⟩] }
  | .count transfer =>
      match s.outstanding.find? fun o => o.transfer == transfer with
      | none => none
      | some o =>
          (statsStep compile s.stats (.add o.target o.stat.name o.stat.value)).map fun stats =>
            { s with
              stats := stats
              outstanding := s.outstanding.eraseP fun o => o.transfer == transfer }

end Step

/-! ## What a step of the statistics does -/

section Statistics

variable {compile : CounterName → Option (CounterName → Bool)} {s t : Statistics}

private theorem statsStep_call_frame {c : CallId} {a : StatsAction}
    (h : statsStep compile s (.call c a) = some t) :
    t.additions = s.additions ∧ ∀ i, (t.counters i).names = (s.counters i).names := by
  cases a with
  | start | stop _ | query _ _ =>
      obtain ⟨n, -, rfl⟩ := Option.map_eq_some_iff.1 h
      exact ⟨rfl, fun _ => rfl⟩
  | advance o =>
      simp only [statsStep, Statistics.advance] at h
      split at h
      · split at h
        · obtain ⟨n, -, rfl⟩ := Option.map_eq_some_iff.1 h
          exact ⟨rfl, fun _ => rfl⟩
        · cases h
      all_goals
        obtain ⟨n, -, rfl⟩ := Option.map_eq_some_iff.1 h
        exact ⟨rfl, fun _ => rfl⟩
  | beginLoop order =>
      simp only [statsStep, Statistics.beginLoop] at h
      split at h
      · split at h
        · split at h
          · obtain ⟨n, -, rfl⟩ := Option.map_eq_some_iff.1 h
            exact ⟨rfl, fun _ => rfl⟩
          · obtain rfl := Option.some.inj h
            exact ⟨rfl, fun _ => rfl⟩
        · cases h
      · cases h
  | visit =>
      simp only [statsStep, Statistics.visitNext] at h
      split at h
      · rename_i i name ahead _ _
        obtain rfl := Option.some.inj h
        unfold Statistics.visit
        split
        · refine ⟨rfl, ?_⟩
          intro j
          by_cases hj : j = i
          · subst hj
            simp [Statistics.setCounters, Statistics.setQuery, CounterMap.swap]
          · simp [Statistics.setCounters, Statistics.setQuery, hj]
        · exact ⟨rfl, fun _ => rfl⟩
      · cases h

private theorem statsStep_create_frame {i : InstanceId} {name : CounterName}
    (h : statsStep compile s (.create i name) = some t) :
    t.additions = s.additions ∧
      ∀ j, ∀ n ∈ (t.counters j).names, n ∈ (s.counters j).names ∨ (j = i ∧ n = name) := by
  simp only [statsStep] at h
  split at h
  · obtain rfl := Option.some.inj h
    refine ⟨rfl, ?_⟩
    intro j n hn
    by_cases hj : j = i
    · subst hj
      simp only [Statistics.setCounters, Function.update_self, CounterMap.loadOrCreateCounter] at hn
      split at hn
      · exact .inl hn
      · rcases List.mem_append.1 hn with hn | hn
        · exact .inl hn
        · exact .inr ⟨rfl, List.mem_singleton.1 hn⟩
    · simp only [Statistics.setCounters, Function.update_of_ne hj] at hn
      exact .inl hn
  · cases h

private theorem statsStep_add_frame {i : InstanceId} {name : CounterName} {n : Int}
    (h : statsStep compile s (.add i name n) = some t) :
    t.additions = s.additions ++ [(i, ⟨name, n⟩)] ∧
      ∀ j, (t.counters j).names = (s.counters j).names := by
  simp only [statsStep] at h
  split at h
  · obtain rfl := Option.some.inj h
    refine ⟨rfl, ?_⟩
    intro j
    by_cases hj : j = i
    · subst hj
      simp [Statistics.setCounters, CounterMap.add]
    · simp [Statistics.setCounters, hj]
  · cases h

private theorem added_of_additions_eq (h : t.additions = s.additions) (i : InstanceId)
    (name : CounterName) : added t i name = added s i name := by
  rw [added, added, h]

private theorem added_append {i : InstanceId} {stat : Stat}
    (h : t.additions = s.additions ++ [(i, stat)]) (j : InstanceId) (name : CounterName) :
    added t j name = added s j name + if i = j then total name [stat] else 0 := by
  rw [added, added, h, List.filter_append, List.map_append, total_append]
  by_cases hj : i = j <;> simp [hj]

end Statistics

/-! ## The books -/

section Books

variable (options : InstanceId → StatsOptions)

def namesOf (target : InstanceId) (metadata : Metadata) (direction : Direction) : List CounterName :=
  match newStatsService (options target) with
  | none => []
  | some service => service.counterNames metadata direction

def owed (s : Metered) (i : InstanceId) : List Stat :=
  (s.outstanding.filter fun o => o.target = i).map Outstanding.stat

def Transfer.charges (i : InstanceId) (t : Transfer) : List Stat :=
  if t.target = i then (namesOf options t.target t.metadata t.direction).map (⟨·, t.bytes⟩) else []

/-- The invariant of the tracker: counters belong to tags of the service, and what was carried is
what was added and what is still to be added. -/
structure MeteredInv (s : Metered) : Prop where
  stats : StatsInv s.stats
  connected : ∀ id connection, s.connections id = some connection → ∀ direction,
    connection.counters direction = namesOf options connection.target connection.metadata direction
  named : ∀ i, ∀ name ∈ (s.stats.counters i).names, ∃ service kind tag direction,
    newStatsService (options i) = some service ∧ tag ≠ [] ∧ tag ∈ service.tracked kind ∧
      name = counterName kind tag direction
  balance : ∀ i name, added s.stats i name + total name (owed s i) =
    total name (s.transfers.flatMap (Transfer.charges options i))

variable {options} {compile : CounterName → Option (CounterName → Bool)} {s t : Metered}

theorem MeteredInv.call (hs : MeteredInv options s) {c : CallId} {a : StatsAction}
    {stats : Statistics} (h : statsStep compile s.stats (.call c a) = some stats) :
    MeteredInv options { s with stats := stats } := by
  obtain ⟨hadditions, hnames⟩ := statsStep_call_frame h
  refine ⟨hs.stats.step h, hs.connected, ?_, ?_⟩
  · intro i name hname
    rw [hnames] at hname
    exact hs.named i name hname
  · intro i name
    rw [added_of_additions_eq hadditions]
    exact hs.balance i name

private theorem mem_lookups {service : StatsService} {metadata : Metadata} {name : CounterName}
    (h : name ∈ service.lookups metadata) : ∃ kind direction, metadata.tag kind ≠ [] ∧
      metadata.tag kind ∈ service.tracked kind ∧
      name = counterName kind (metadata.tag kind) direction := by
  obtain ⟨kind, hkind, hname⟩ := List.mem_flatMap.1 h
  have hcounts := (List.mem_filter.1 hkind).2
  simp only [StatsService.counts, Bool.and_eq_true, bne_iff_ne, ne_eq, List.contains_iff_mem]
    at hcounts
  rcases List.mem_pair.1 hname with rfl | rfl
  · exact ⟨kind, .uplink, hcounts.1, hcounts.2, rfl⟩
  · exact ⟨kind, .downlink, hcounts.1, hcounts.2, rfl⟩

private theorem MeteredInv.lookups {target : InstanceId} {service : StatsService}
    (hservice : newStatsService (options target) = some service) {metadata : Metadata}
    {names : List CounterName} (hnames : ∀ name ∈ names, name ∈ service.lookups metadata) (hs : MeteredInv options s)
    {stats : Statistics}
    (h : exec (statsStep compile) s.stats (names.map (StatsEvent.create target)) = some stats) :
    MeteredInv options { s with stats := stats } := by
  induction names generalizing s with
  | nil =>
      cases h
      exact hs
  | cons name names ih =>
      rw [List.forall_mem_cons] at hnames
      obtain ⟨next, hnext, hrest⟩ := exec_cons.1 h
      obtain ⟨hadditions, hcreated⟩ := statsStep_create_frame hnext
      have hnew : MeteredInv options { s with stats := next } := by
        refine ⟨hs.stats.step hnext, hs.connected, ?_, ?_⟩
        · intro i n hn
          rcases hcreated i n hn with hn | ⟨rfl, rfl⟩
          · exact hs.named i n hn
          · obtain ⟨kind, direction, hne, htracked, hname⟩ := mem_lookups hnames.1
            exact ⟨service, kind, _, direction, hservice, hne, htracked, hname⟩
        · intro i n
          rw [added_of_additions_eq hadditions]
          exact hs.balance i n
      have hdone := ih hnames.2 hnew hrest
      exact hdone

private theorem MeteredInv.connect (hs : MeteredInv options s) (id : ConnectionId)
    {connection : Connection} (hcounters : ∀ direction, connection.counters direction =
      namesOf options connection.target connection.metadata direction) :
    MeteredInv options (s.connect id connection) := by
  refine ⟨hs.stats, ?_, hs.named, hs.balance⟩
  intro i c hc
  by_cases hi : i = id
  · obtain rfl : connection = c := Option.some.inj ((if_pos hi).symm.trans hc)
    exact hcounters
  · exact hs.connected i c ((if_neg hi).symm.trans hc)

theorem MeteredInv.transfer (hs : MeteredInv options s) {id : ConnectionId} {connection : Connection}
    (hconnection : s.connections id = some connection) (direction : Direction) (bytes : Int) :
    MeteredInv options { s with
      outstanding := s.outstanding ++ (connection.counters direction).map fun name =>
        ⟨s.transfers.length, connection.target, ⟨name, bytes⟩⟩
      transfers := s.transfers ++ [⟨connection.target, connection.metadata, direction, bytes⟩] } := by
  refine ⟨hs.stats, hs.connected, hs.named, ?_⟩
  intro i name
  have hold := hs.balance i name
  simp only [owed, List.filter_append, List.map_append, total_append, List.flatMap_append,
    List.flatMap_singleton] at hold ⊢
  rw [← hold, hs.connected id connection hconnection]
  by_cases hi : connection.target = i
  · simp [Transfer.charges, hi, Function.comp_def, List.filter_map, add_assoc]
  · simp [Transfer.charges, hi, Function.comp_def, List.filter_map]

theorem MeteredInv.count (hs : MeteredInv options s) {p : Outstanding → Bool} {o : Outstanding}
    (ho : s.outstanding.find? p = some o) {stats : Statistics}
    (h : statsStep compile s.stats (.add o.target o.stat.name o.stat.value) = some stats) :
    MeteredInv options { s with stats := stats, outstanding := s.outstanding.eraseP p } := by
  have hadditions : stats.additions = s.stats.additions ++ [(o.target, o.stat)] :=
    (statsStep_add_frame h).1
  refine ⟨hs.stats.step h, hs.connected, ?_, ?_⟩
  · intro i name hname
    rw [(statsStep_add_frame h).2] at hname
    exact hs.named i name hname
  · intro i name
    have hold := hs.balance i name
    obtain ⟨hp, before, after, hsplit, hbefore⟩ := List.find?_eq_some_iff_append.1 ho
    have herase : s.outstanding.eraseP p = before ++ after := by
      rw [hsplit, List.eraseP_append_right _ (by simpa using hbefore), List.eraseP_cons_of_pos hp]
    have hcons : total name ((o :: after).filter (fun o => o.target = i) |>.map Outstanding.stat) =
        (if o.target = i then total name [o.stat] else 0) +
          total name (after.filter (fun o => o.target = i) |>.map Outstanding.stat) := by
      by_cases hi : o.target = i
      · rw [List.filter_cons_of_pos (by simpa using hi), List.map_cons, ← List.singleton_append,
          total_append, if_pos hi]
      · rw [List.filter_cons_of_neg (by simpa using hi), if_neg hi, zero_add]
    rw [added_append hadditions, ← hold, owed, owed, herase, hsplit]
    simp only [List.filter_append, List.map_append, total_append, hcons]
    omega

theorem MeteredInv.step (hs : MeteredInv options s) {e : MeteredEvent}
    (h : meteredStep compile options s e = some t) : MeteredInv options t := by
  cases e with
  | call c a =>
      obtain ⟨stats, hstats, rfl⟩ := Option.map_eq_some_iff.1 h
      exact hs.call hstats
  | route id target metadata =>
      simp only [meteredStep] at h
      split at h
      · split at h
        · rename_i hservice
          cases h
          refine hs.connect id ?_
          intro direction
          rw [namesOf, hservice]
        · rename_i service hservice
          obtain ⟨stats, hstats, rfl⟩ := Option.map_eq_some_iff.1 h
          refine (hs.lookups hservice (fun _ hname => hname) hstats).connect id ?_
          intro direction
          rw [namesOf, hservice]
      · cases h
  | transfer id direction bytes =>
      simp only [meteredStep] at h
      split at h
      · cases h
      · rename_i connection hconnection
        cases h
        exact hs.transfer hconnection direction bytes
  | count transfer =>
      simp only [meteredStep] at h
      split at h
      · cases h
      · rename_i o ho
        obtain ⟨stats, hstats, rfl⟩ := Option.map_eq_some_iff.1 h
        exact hs.count ho hstats

theorem MeteredInv.initial : MeteredInv options {} := by
  refine ⟨.initial, ?_, ?_, ?_⟩
  · intro id connection h
    cases h
  · intro i name h
    cases h
  · intro i name
    simp [added, owed]

end Books

/-! ## Attribution -/

def carried (s : Metered) (i : InstanceId) (kind : CounterKind) (tag : Text) (direction : Direction) :
    Int :=
  ((s.transfers.filter fun t => t.target = i ∧ t.metadata.tag kind = tag ∧
    t.direction = direction).map Transfer.bytes).sum

section Attribution

variable {options : InstanceId → StatsOptions} {service : StatsService} {i : InstanceId}

private theorem total_kinds {kinds : List CounterKind} (hnodup : kinds.Nodup) (metadata : Metadata)
    (direction direction' : Direction) (bytes : Int) (kind : CounterKind) (tag : Text) :
    total (counterName kind tag direction')
        (kinds.map fun k => ⟨counterName k (metadata.tag k) direction, bytes⟩) =
      if kind ∈ kinds ∧ metadata.tag kind = tag ∧ direction = direction' then bytes else 0 := by
  induction kinds with
  | nil => simp
  | cons k kinds ih =>
      obtain ⟨hnew, hnodup⟩ := List.nodup_cons.1 hnodup
      rw [List.map_cons, ← List.singleton_append, total_append, total_singleton, ih hnodup]
      have hname : counterName k (metadata.tag k) direction = counterName kind tag direction' ↔
          k = kind ∧ metadata.tag k = tag ∧ direction = direction' := by
        constructor
        · exact counterName_inj
        · rintro ⟨rfl, rfl, rfl⟩
          rfl
      simp only [hname]
      by_cases hk : k = kind
      · subst hk
        simp [hnew]
      · simp [hk, Ne.symm hk]

/-- A transfer is charged to the counter of a tracked tag exactly when it is under that tag. -/
private theorem total_charges (hservice : newStatsService (options i) = some service)
    {kind : CounterKind}
    {tag : Text} (htracked : tag ∈ service.tracked kind) (hne : tag ≠ []) (direction : Direction)
    (t : Transfer) :
    total (counterName kind tag direction) (t.charges options i) =
      if t.target = i ∧ t.metadata.tag kind = tag ∧ t.direction = direction then t.bytes else 0 := by
  by_cases hi : t.target = i
  · have hnodup : (service.counted t.metadata).Nodup := List.Nodup.filter _ (by decide)
    have hcounted : t.metadata.tag kind = tag → kind ∈ service.counted t.metadata := by
      intro htag
      refine List.mem_filter.2 ⟨by cases kind <;> decide, ?_⟩
      simp only [StatsService.counts, Bool.and_eq_true, bne_iff_ne, ne_eq, List.contains_iff_mem]
      rw [htag]
      exact ⟨hne, htracked⟩
    have htotal := total_kinds hnodup t.metadata t.direction direction t.bytes kind tag
    rw [Transfer.charges, if_pos hi, namesOf, hi, hservice]
    show total _ (((service.counted t.metadata).map _).map _) = _
    rw [List.map_map]
    refine htotal.trans ?_
    by_cases htag : t.metadata.tag kind = tag
    · simp [htag, hcounted htag]
    · simp [htag]
  · simp [Transfer.charges, hi]

private theorem total_transfers (hservice : newStatsService (options i) = some service)
    {kind : CounterKind} {tag : Text} (htracked : tag ∈ service.tracked kind) (hne : tag ≠ [])
    (direction : Direction) (transfers : List Transfer) :
    total (counterName kind tag direction) (transfers.flatMap (Transfer.charges options i)) =
      ((transfers.filter fun t => t.target = i ∧ t.metadata.tag kind = tag ∧
        t.direction = direction).map Transfer.bytes).sum := by
  induction transfers with
  | nil => rfl
  | cons t transfers ih =>
      rw [List.flatMap_cons, total_append, total_charges hservice htracked hne, ih, List.filter_cons]
      by_cases ht : t.target = i ∧ t.metadata.tag kind = tag ∧ t.direction = direction
      · rw [if_pos ht, if_pos (by simpa using ht), List.map_cons, List.sum_cons]
      · rw [if_neg ht, if_neg (by simpa using ht), zero_add]

/-- A counter of a tracked tag counts the bytes of the connections under that tag and no others: what
reset queries have returned and collected, what it holds and what is still to be added make up what
was carried.  Other tags have no counters. -/
theorem traffic_attributed (compile : CounterName → Option (CounterName → Bool))
    {run : List MeteredEvent} {s : Metered}
    (h : exec (meteredStep compile options) {} run = some s)
    (hservice : newStatsService (options i) = some service) (kind : CounterKind) (tag : Text)
    (direction : Direction) :
    (tag ≠ [] ∧ tag ∈ service.tracked kind →
      Int.ModEq (2 ^ 64)
        (reported s.stats i (counterName kind tag direction) +
          inFlight s.stats i (counterName kind tag direction) +
          (s.stats.counters i).value (counterName kind tag direction) +
          total (counterName kind tag direction) (owed s i))
        (carried s i kind tag direction)) ∧
    (¬ (tag ≠ [] ∧ tag ∈ service.tracked kind) →
      counterName kind tag direction ∉ (s.stats.counters i).names) := by
  have hs : MeteredInv options s :=
    exec_invariant (fun _ _ _ hs hstep => hs.step hstep) .initial h
  constructor
  · intro htag
    have hconserved := hs.stats.conserved i (counterName kind tag direction)
    have hbalance := hs.balance i (counterName kind tag direction)
    rw [total_transfers hservice htag.2 htag.1] at hbalance
    rw [carried, ← hbalance]
    exact hconserved.add_right _
  · intro htag hname
    obtain ⟨service', kind', tag', direction', hservice', hne, htracked, heq⟩ := hs.named i _ hname
    rw [hservice] at hservice'
    cases hservice'
    obtain ⟨rfl, rfl, rfl⟩ := counterName_inj heq
    exact htag ⟨hne, htracked⟩

end Attribution

def oneTag : StatsOptions := ⟨true, [['a']], [['a']], []⟩

/-- Five bytes go up through both; they are added to the counter of the inbound first. -/
def halfCounted : List MeteredEvent :=
  [.route 0 0 ⟨['a'], ['a'], ['u']⟩, .transfer 0 .uplink 5, .count 0]

/-- The inbound has its five bytes and the outbound is still to get them. -/
theorem traffic_attributed_at_halfCounted :
    ∃ s, exec (meteredStep (fun _ => none) fun _ => oneTag) {} halfCounted = some s ∧
      (s.stats.counters 0).value (counterName .inbound ['a'] .uplink) = 5 ∧
      (s.stats.counters 0).value (counterName .outbound ['a'] .uplink) = 0 ∧
      Int.ModEq (2 ^ 64)
        (reported s.stats 0 (counterName .outbound ['a'] .uplink) +
          inFlight s.stats 0 (counterName .outbound ['a'] .uplink) +
          (s.stats.counters 0).value (counterName .outbound ['a'] .uplink) +
          total (counterName .outbound ['a'] .uplink) (owed s 0))
        (carried s 0 .outbound ['a'] .uplink) ∧
      counterName .user ['u'] .uplink ∉ (s.stats.counters 0).names := by
  have hrun : (exec (meteredStep (fun _ => none) fun _ => oneTag) {} halfCounted).map (fun s =>
      ((s.stats.counters 0).value (counterName .inbound ['a'] .uplink),
        (s.stats.counters 0).value (counterName .outbound ['a'] .uplink))) = some (5, 0) := by
    decide +kernel
  obtain ⟨s, hs, hvalues⟩ := Option.map_eq_some_iff.1 hrun
  obtain ⟨hinbound, houtbound⟩ := Prod.mk.inj hvalues
  refine ⟨s, hs, hinbound, houtbound, ?_, ?_⟩
  · exact (traffic_attributed _ hs rfl .outbound ['a'] .uplink).1 (by decide)
  · exact (traffic_attributed _ hs rfl .user ['u'] .uplink).2 (by decide)

end SingBoxPython.Binding
