import SingBoxPython.Framework.Decimal
import SingBoxPython.Framework.Fallible
import SingBoxPython.Framework.StartOrder
import Mathlib.Logic.Function.Basic

/-!
# Bringing up the outbounds

What becomes of the outbounds and the endpoints of a configuration until they are started: the
check of their tags in `option/options.go`, the two loops of `box.New` that create them, `Create`
and `Start` of `adapter/outbound/manager.go` and `adapter/endpoint/manager.go`, and the rounds of
`startOutbounds`, which `dns/transport_manager.go` has a second time for the DNS transports.
-/

namespace SingBoxPython.Core
open Framework

inductive Fault
  | error (message : Text)
  | panic (message : Text)
  deriving DecidableEq

abbrev Outcome := Except Fault

inductive StartStage
  | stateInitialize
  | stateStart
  | statePostStart
  | stateStarted
  deriving DecidableEq

namespace StartStage

def number : StartStage → Nat
  | stateInitialize => 0
  | stateStart => 1
  | statePostStart => 2
  | stateStarted => 3

def text : StartStage → Text
  | stateInitialize => "initialize".toList
  | stateStart => "start".toList
  | statePostStart => "post-start".toList
  | stateStarted => "finish-start".toList

end StartStage

def listStartStages : List StartStage :=
  [.stateInitialize, .stateStart, .statePostStart, .stateStarted]

/-- How an outbound, an endpoint or a DNS transport behaves.  `failure` is the stage at which its
`Start` returns an error, `closeError` the error of its `Close`. -/
structure Behaviour where
  dependencies : List Text
  failure : Option (StartStage × Text)
  closeError : Option Text
  deriving DecidableEq

structure Component extends Behaviour where
  tag : Text
  type : Text
  deriving DecidableEq

/-- An outbound or endpoint of a configuration, with what its constructor returns. -/
structure Entry where
  tag : Text
  type : Text
  behaviour : Except Text Behaviour

structure Words where
  path : Text
  noun : Text

def outboundWords : Words :=
  ⟨"outbound/".toList, "outbound".toList⟩

def endpointWords : Words :=
  ⟨"endpoint/".toList, "endpoint".toList⟩

def transportWords : Words :=
  ⟨"dns/".toList, "server".toList⟩

namespace Component

def name (words : Words) (c : Component) : Text :=
  words.path ++ c.type ++ ['['] ++ c.tag ++ [']']

/-- `adapter.LegacyStart` -/
def legacyStart (c : Component) (stage : StartStage) : Option Text :=
  c.failure.bind fun (failing, message) => if failing = stage then some message else none

def startAt (words : Words) (stage : StartStage) (c : Component) : Outcome Unit :=
  match c.legacyStart stage with
  | none => .ok ()
  | some message =>
      .error (.error (stage.text ++ [' '] ++ c.name words ++ ": ".toList ++ message))

def closeReport (words : Words) (c : Component) : Option Fault :=
  c.closeError.map fun message => .error ("close ".toList ++ c.name words ++ ": ".toList ++ message)

end Component

/-! ## Tags of a configuration -/

/-- The tag of the entry at index `i`: `F.ToString(i)` where it has none. -/
def tagAt (i : Nat) (tag : Text) : Text :=
  if tag = [] then numeral i else tag

def tagsFrom : Nat → List Entry → List Text
  | _, [] => []
  | i, e :: rest => tagAt i e.tag :: tagsFrom (i + 1) rest

/-- One loop of the checks; gives the tags that are seen after it. -/
def checkTags (noun : Text) : List Text → Nat → List Entry → Outcome (List Text)
  | seen, _, [] => .ok seen
  | seen, i, e :: rest =>
      if tagAt i e.tag ∈ seen then
        .error (.error ("duplicate ".toList ++ noun ++ " tag: ".toList ++ tagAt i e.tag))
      else checkTags noun (seen ++ [tagAt i e.tag]) (i + 1) rest

def checkOutbounds (outbounds endpoints : List Entry) : Outcome Unit := do
  let seen ← checkTags "outbound/endpoint".toList [] 0 outbounds
  let _ ← checkTags "outbound/endpoint".toList seen 0 endpoints
  pure ()

theorem tagAt_ne_nil (i : Nat) (tag : Text) : tagAt i tag ≠ [] := by
  rw [tagAt]
  split
  · exact (isNumeral_numeral i).ne_nil
  · assumption

private theorem checkTags_eq_ok_iff {noun : Text} {seen tags : List Text} {i : Nat}
    {entries : List Entry} (hseen : seen.Nodup) :
    checkTags noun seen i entries = .ok tags ↔
      tags = seen ++ tagsFrom i entries ∧ (seen ++ tagsFrom i entries).Nodup := by
  induction entries generalizing seen i with
  | nil => simp [checkTags, tagsFrom, hseen, eq_comm]
  | cons e rest ih =>
      have hassoc : seen ++ tagsFrom i (e :: rest) =
          (seen ++ [tagAt i e.tag]) ++ tagsFrom (i + 1) rest := by simp [tagsFrom]
      rw [checkTags, hassoc]
      split
      · rename_i hmem
        constructor
        · intro h
          cases h
        · rintro ⟨-, hnodup⟩
          have hpair := (List.nodup_append.1 hnodup).1
          rw [← List.concat_eq_append, List.nodup_concat] at hpair
          exact absurd hmem hpair.1
      · rename_i hmem
        rw [← List.concat_eq_append]
        exact ih (hseen.concat hmem)

theorem checkOutbounds_eq_ok_iff {outbounds endpoints : List Entry} :
    checkOutbounds outbounds endpoints = .ok () ↔
      (tagsFrom 0 outbounds ++ tagsFrom 0 endpoints).Nodup := by
  rw [checkOutbounds, bind_eq_ok_iff]
  constructor
  · rintro ⟨seen, hseen, h⟩
    obtain ⟨tags, htags, -⟩ := bind_eq_ok_iff.1 h
    obtain ⟨rfl, hnodup⟩ := (checkTags_eq_ok_iff List.nodup_nil).1 hseen
    exact ((checkTags_eq_ok_iff hnodup).1 htags).2
  · intro h
    have hfirst : (tagsFrom 0 outbounds).Nodup := (List.nodup_append.1 h).1
    refine ⟨_, (checkTags_eq_ok_iff List.nodup_nil).2 ⟨rfl, hfirst⟩, ?_⟩
    exact bind_eq_ok_iff.2 ⟨_, (checkTags_eq_ok_iff hfirst).2 ⟨rfl, h⟩, rfl⟩

/-! ## The tables of the managers -/

/-- What a manager holds: its components in order, and by tag. -/
structure Table where
  list : List Component
  byTag : Text → Option Component

namespace Table

def empty : Table :=
  ⟨[], fun _ => none⟩

def tags (t : Table) : List Text :=
  t.list.map Component.tag

/-- Puts a component under its tag, in place of the one that has it; panics with `index` where
that one is not in the list. -/
def put (index : Text) (t : Table) (c : Component) : Outcome Table :=
  match t.byTag c.tag with
  | none => .ok ⟨t.list ++ [c], Function.update t.byTag c.tag (some c)⟩
  | some existing =>
      match t.list.idxOf? existing with
      | none => .error (.panic index)
      | some i => .ok ⟨t.list.eraseIdx i ++ [c], Function.update t.byTag c.tag (some c)⟩

/-- The part that both `Create` functions have in common, from the new component on. -/
def create (words : Words) (index : Text) (started : Bool) (t : Table) (c : Component) :
    Outcome Table := do
  if started then
    listStartStages.forM fun stage => c.startAt words stage
    ((t.byTag c.tag).bind fun existing => existing.closeReport words).forM throw
  t.put index c

/-- The map has exactly the components of the list, which have different tags. -/
structure Wf (t : Table) : Prop where
  byTag : ∀ tag c, t.byTag tag = some c ↔ c ∈ t.list ∧ c.tag = tag
  nodup : t.tags.Nodup

theorem empty_wf : empty.Wf where
  byTag := by simp [empty]
  nodup := List.nodup_nil

private theorem Wf.byTag_eq_none {t : Table} (h : t.Wf) {tag : Text} :
    t.byTag tag = none ↔ tag ∉ t.tags := by
  rw [Option.eq_none_iff_forall_ne_some]
  simp only [ne_eq, h.byTag, tags, List.mem_map, not_exists]

theorem Wf.replace {t : Table} (h : t.Wf) {c : Component} {rest : List Component}
    (hrest : ∀ d, d ∈ rest ↔ d ∈ t.list ∧ d.tag ≠ c.tag) (hnodup : (rest.map Component.tag).Nodup) :
    Wf ⟨rest ++ [c], Function.update t.byTag c.tag (some c)⟩ where
  byTag := by
    intro tag d
    simp only [List.mem_append, List.mem_singleton]
    by_cases htag : tag = c.tag
    · subst htag
      rw [Function.update_self, Option.some_inj]
      constructor
      · rintro rfl
        exact ⟨.inr rfl, rfl⟩
      · rintro ⟨hd | rfl, hdc⟩
        · exact absurd hdc ((hrest d).1 hd).2
        · rfl
    · rw [Function.update_of_ne htag, h.byTag]
      constructor
      · rintro ⟨hd, rfl⟩
        exact ⟨.inl ((hrest d).2 ⟨hd, htag⟩), rfl⟩
      · rintro ⟨hd | rfl, rfl⟩
        · exact ⟨((hrest d).1 hd).1, rfl⟩
        · exact absurd rfl htag
  nodup := by
    rw [tags, List.map_append, List.map_singleton, ← List.concat_eq_append]
    refine hnodup.concat fun hmem => ?_
    obtain ⟨d, hd, htag⟩ := List.mem_map.1 hmem
    exact ((hrest d).1 hd).2 htag

theorem Wf.put (index : Text) {t : Table} (h : t.Wf) (c : Component) :
    ∃ t', t.put index c = .ok t' ∧ t'.Wf ∧ (c.tag ∉ t.tags → t'.list = t.list ++ [c]) := by
  rw [Table.put]
  cases hfind : t.byTag c.tag with
  | none =>
      have hnew := h.byTag_eq_none.1 hfind
      refine ⟨_, rfl, h.replace ?_ h.nodup, fun _ => rfl⟩
      intro d
      refine ⟨fun hd => ⟨hd, ?_⟩, And.left⟩
      exact fun heq => hnew (heq ▸ List.mem_map_of_mem hd)
  | some existing =>
      obtain ⟨hmem, htag⟩ := (h.byTag _ _).1 hfind
      obtain ⟨i, hi⟩ := Option.isSome_iff_exists.1 (List.isSome_idxOf?.2 hmem)
      have herase : t.list.eraseIdx i = t.list.erase existing := by
        rw [List.erase_eq_eraseIdx, hi]
      simp only [hi, herase]
      refine ⟨_, rfl, h.replace ?_ ?_, ?_⟩
      · intro d
        rw [(List.Nodup.of_map _ h.nodup).mem_erase_iff, and_comm, and_congr_right_iff]
        intro hd
        refine not_congr ⟨fun heq => heq ▸ htag, fun heq => ?_⟩
        exact List.inj_on_of_nodup_map h.nodup hd hmem (heq.trans htag.symm)
      · exact h.nodup.sublist (List.erase_sublist.map Component.tag)
      · exact fun hnew => absurd (htag ▸ List.mem_map_of_mem hmem) hnew

end Table

/-! ## The managers -/

structure EndpointManager where
  started : Bool
  stage : StartStage
  table : Table

/-- `dependByTag` is left out: only `Remove`, which nothing calls, reads it. -/
structure OutboundManager where
  defaultTag : Text
  started : Bool
  stage : StartStage
  table : Table
  defaultOutbound : Option Component

namespace EndpointManager

def newManager : EndpointManager :=
  ⟨false, .stateInitialize, .empty⟩

def get (m : EndpointManager) (tag : Text) : Option Component :=
  m.table.byTag tag

def create (m : EndpointManager) (tag : Text) (e : Entry) : Outcome EndpointManager :=
  match e.behaviour with
  | .error message => .error (.error message)
  | .ok behaviour => do
      let table ← m.table.create endpointWords "invalid endpoint index".toList m.started
        ⟨behaviour, tag, e.type⟩
      pure { m with table }

end EndpointManager

namespace OutboundManager

def newManager (defaultTag : Text) : OutboundManager :=
  ⟨defaultTag, false, .stateInitialize, .empty, none⟩

def create (m : OutboundManager) (tag : Text) (e : Entry) : Outcome OutboundManager :=
  if tag = [] then .error (.error "invalid argument".toList)
  else
    match e.behaviour with
    | .error message => .error (.error message)
    | .ok behaviour => do
        let outbound : Component := ⟨behaviour, tag, e.type⟩
        let table ← m.table.create outboundWords "invalid inbound index".toList m.started outbound
        let becomesDefault := tag = m.defaultTag ∨ m.defaultTag = [] ∧ m.defaultOutbound = none
        pure { m with
          table
          defaultOutbound := if becomesDefault then some outbound else m.defaultOutbound }

end OutboundManager

/-- A loop of `box.New` that creates entries; errors name the index of the entry. -/
def createAll {α : Type} (create : α → Text → Entry → Outcome α) (noun : Text) :
    Nat → List Entry → α → Outcome α
  | _, [], m => .ok m
  | i, e :: rest, m =>
      match create m (tagAt i e.tag) e with
      | .error (.error message) =>
          .error (.error ("initialize ".toList ++ noun ++ ['['] ++ numeral i ++ "]: ".toList ++
            message))
      | .error (.panic message) => .error (.panic message)
      | .ok m => createAll create noun (i + 1) rest m

/-! ## Starting -/

/-- Starts the components one after the other; gives those whose `Start` was called. -/
def startEach (words : Words) (stage : StartStage) : List Component → List Component × Outcome Unit
  | [] => ([], .ok ())
  | c :: rest =>
      match c.startAt words stage with
      | .error fault => ([c], .error fault)
      | .ok () =>
          let r := startEach words stage rest
          (c :: r.1, r.2)

def graph (components : List Component) : Dependencies Component Text where
  items := components
  tag := Component.tag
  dependencies := fun c => c.dependencies

def diagnosisText (words : Words) : Dependencies.Diagnosis Text → Text
  | .circular tree t =>
      "circular ".toList ++ words.noun ++ " dependency: ".toList ++
        Text.join " -> ".toList tree ++ " -> ".toList ++ t
  | .missing t dependent =>
      "dependency[".toList ++ t ++ "] not found for ".toList ++ words.noun ++ ['['] ++ dependent ++
        [']']
  | .endless => []

def nilDereference : Fault :=
  .panic "runtime error: invalid memory address or nil pointer dereference".toList

def settle (words : Words) (components : List Component) (byTag : Text → Option Component)
    (order : List Component) : Dependencies.Ending Component → Outcome Unit
  | .complete => .ok ()
  | .failed c => c.startAt words .stateStart
  | .stuck =>
      match components.find? fun c => decide (c.tag ∉ (graph components).tags order) with
      | some current =>
          .error (.error (diagnosisText words
            ((graph components).follow byTag order (components.length + 1) [current.tag] current)))
      -- `currentOutbound.Tag()` of a nil interface
      | none => .error nilDereference
  | .outOfFuel => .error nilDereference

/-- Starts components in the order of their dependencies; gives those whose `Start` was called, in
order, and what is returned. -/
def startComponents (words : Words) (components : List Component)
    (byTag : Text → Option Component) : List Component × Outcome Unit :=
  let r := (graph components).rounds (fun c => (c.legacyStart .stateStart).isNone)
    (components.length + 1) []
  (r.1, settle words components byTag r.1 r.2)

def startOutbounds : List Component → (Text → Option Component) → List Component × Outcome Unit :=
  startComponents outboundWords

def startTransports : List Component → (Text → Option Component) → List Component × Outcome Unit :=
  startComponents transportWords

def alreadyStarted : Fault :=
  .panic "already started".toList

def EndpointManager.start (m : EndpointManager) (stage : StartStage) :
    List Component × Outcome EndpointManager :=
  if m.started ∧ stage.number ≤ m.stage.number then ([], .error alreadyStarted)
  else if stage = .stateStart then ([], .ok { m with started := true, stage })
  else
    let r := startEach endpointWords stage m.table.list
    (r.1, r.2.map fun _ => { m with started := true, stage })

namespace OutboundManager

def direct : Text :=
  "direct".toList

/-- The part of `Start` at the first stage that settles the default outbound. -/
def chooseDefault (endpoint : EndpointManager) (fallback : Except Text Behaviour)
    (m : OutboundManager) : Outcome OutboundManager :=
  if m.defaultOutbound ≠ none then .ok m
  else if m.defaultTag ≠ [] then
    match endpoint.get m.defaultTag with
    | none => .error (.error ("default outbound not found: ".toList ++ m.defaultTag))
    | some c => .ok { m with defaultOutbound := some c }
  else
    match fallback with
    | .error message =>
        .error (.error ("create direct outbound for fallback: ".toList ++ message))
    | .ok behaviour =>
        let outbound : Component := ⟨behaviour, direct, direct⟩
        .ok { m with
          table := ⟨m.table.list ++ [outbound], Function.update m.table.byTag direct (some outbound)⟩
          defaultOutbound := some outbound }

def start (endpoint : EndpointManager) (fallback : Except Text Behaviour) (m : OutboundManager)
    (stage : StartStage) : List Component × Outcome OutboundManager :=
  if m.started ∧ stage.number ≤ m.stage.number then ([], .error alreadyStarted)
  else
    let chosen :=
      if stage = .stateInitialize then
        chooseDefault endpoint fallback { m with started := true, stage }
      else .ok { m with started := true, stage }
    match chosen with
    | .error fault => ([], .error fault)
    | .ok m =>
        let r :=
          if stage = .stateStart then
            startOutbounds (m.table.list ++ endpoint.table.list) m.table.byTag
          else startEach outboundWords stage m.table.list
        (r.1, r.2.map fun _ => m)

end OutboundManager

/-- The managers of a box up to the end of the first stage: the check of the options, the loops of
`box.New`, and `Start` of both managers as `preStart` calls it. -/
def initialized (final : Text) (fallback : Except Text Behaviour) (outbounds endpoints : List Entry) :
    Outcome (OutboundManager × EndpointManager) := do
  checkOutbounds outbounds endpoints
  let endpoint ← createAll EndpointManager.create "endpoint".toList 0 endpoints .newManager
  let outbound ←
    createAll OutboundManager.create "outbound".toList 0 outbounds (.newManager final)
  let outbound ← (outbound.start endpoint fallback .stateInitialize).2
  let endpoint ← (endpoint.start .stateInitialize).2
  pure (outbound, endpoint)

/-- The start of all outbounds and endpoints of a configuration: those whose `Start` was called at
the second stage, in order, and what came of it. -/
def launch (final : Text) (fallback : Except Text Behaviour) (outbounds endpoints : List Entry) :
    List Component × Outcome (OutboundManager × EndpointManager) :=
  match initialized final fallback outbounds endpoints with
  | .error fault => ([], .error fault)
  | .ok (outbound, endpoint) =>
      let r := outbound.start endpoint fallback .stateStart
      (r.1, r.2.map fun outbound => (outbound, endpoint))

/-- `OutboundManager.Outbound` -/
def outboundOf (managers : OutboundManager × EndpointManager) (tag : Text) : Option Component :=
  (managers.1.table.byTag tag).or (managers.2.get tag)

end SingBoxPython.Core
