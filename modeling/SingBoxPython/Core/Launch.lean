import SingBoxPython.Core.Outbounds

/-!
# What a start of the outbounds guarantees

The order in which outbounds, endpoints and DNS transports are started, when the start succeeds,
what its errors mean, and when it ends in a panic.
-/

namespace SingBoxPython.Core
open Framework

/-! ## Starting by dependencies -/

section Components

variable (words : Words) (components : List Component) (byTag : Text → Option Component)

/-- The components that `startComponents` goes through, with how the rounds end. -/
def startRounds : List Component × Dependencies.Ending Component :=
  (graph components).rounds (fun c => (c.legacyStart .stateStart).isNone) (components.length + 1) []

private theorem startRounds_spec :
    Dependencies.RoundsSpec (graph components) (fun c => (c.legacyStart .stateStart).isNone)
      (startRounds components) :=
  Dependencies.rounds_spec .nil nofun (Nat.lt_succ_self _)

private theorem startComponents_snd :
    (startComponents words components byTag).2 =
      settle words components byTag (startRounds components).1 (startRounds components).2 :=
  rfl

private theorem startAt_eq_ok_iff {words : Words} {stage : StartStage} {c : Component} :
    c.startAt words stage = .ok () ↔ c.legacyStart stage = none := by
  rw [Component.startAt]
  cases c.legacyStart stage <;> simp

private theorem startRounds_complete_iff :
    (startRounds components).2 = .complete ↔
      (components.map Component.tag).Nodup ∧
        ∀ c ∈ components, (graph components).Startable c.tag ∧ c.legacyStart .stateStart = none := by
  refine (Dependencies.rounds_complete_iff (graph components) _).trans ?_
  simp only [Option.isNone_iff_eq_none]
  rfl

private theorem settle_eq_ok_iff {order : List Component} {ending : Dependencies.Ending Component}
    (hfailed : ∀ c, ending = .failed c → (c.legacyStart .stateStart).isNone = false) :
    settle words components byTag order ending = .ok () ↔ ending = .complete := by
  cases ending with
  | complete => exact iff_of_true rfl rfl
  | failed c =>
      refine iff_of_false ?_ nofun
      intro h
      have hfails := hfailed c rfl
      rw [startAt_eq_ok_iff.1 h] at hfails
      cases hfails
  | stuck =>
      refine iff_of_false ?_ nofun
      rw [settle]
      split <;> exact nofun
  | outOfFuel => exact iff_of_false nofun nofun

private theorem startComponents_eq_ok_iff :
    (startComponents words components byTag).2 = .ok () ↔ (startRounds components).2 = .complete := by
  rw [startComponents_snd, settle_eq_ok_iff]
  intro c hc
  obtain ⟨-, -, hfails, -⟩ := (startRounds_spec components).failed c hc
  exact hfails

/-- Whatever the outcome, each tag is started at most once and after its dependencies; the start
succeeds exactly when the tags are different, no dependency is missing or circular, and no `Start`
returns an error. -/
theorem startComponents_ok_iff :
    (graph components).InOrder (startComponents words components byTag).1 ∧
      ((startComponents words components byTag).2 = .ok () ↔
        (components.map Component.tag).Nodup ∧
          ∀ c ∈ components,
            (graph components).Startable c.tag ∧ c.legacyStart .stateStart = none) := by
  refine ⟨(startRounds_spec components).order, ?_⟩
  rw [startComponents_eq_ok_iff, startRounds_complete_iff]

private theorem startAt_ne_panic {words : Words} {stage : StartStage} {c : Component}
    {message : Text} : c.startAt words stage ≠ .error (.panic message) := by
  rw [Component.startAt]
  cases c.legacyStart stage <;> simp

private theorem not_nodup_of_panic {message : Text}
    (h : (startComponents words components byTag).2 = .error (.panic message)) :
    ¬ (components.map Component.tag).Nodup := by
  intro hnodup
  have hspec := startRounds_spec components
  rw [startComponents_snd] at h
  cases hend : (startRounds components).2 with
  | complete =>
      rw [hend] at h
      cases h
  | failed c =>
      rw [hend] at h
      exact startAt_ne_panic h
  | stuck =>
      obtain ⟨hlength, -⟩ := hspec.stuck hend
      rw [hend, settle] at h
      split at h
      · cases h
      · rename_i hfind
        have hall : ∀ c ∈ components, c.tag ∈ (graph components).tags (startRounds components).1 := by
          simpa using hfind
        exact hlength (hspec.order.length_eq_iff.2 ⟨hnodup, hall⟩)
  | outOfFuel => exact hspec.fueled hend

/-- Where all components could be started but two have the same tag, the rounds get stuck with every tag
started, and the search for one that is not fails. -/
private theorem startComponents_eq_nilDereference (hdup : ¬ (components.map Component.tag).Nodup)
    (hall : ∀ c ∈ components,
      (graph components).Startable c.tag ∧ c.legacyStart .stateStart = none) :
    (startComponents words components byTag).2 = .error nilDereference := by
  have hspec := startRounds_spec components
  rw [startComponents_snd]
  cases hend : (startRounds components).2 with
  | complete => exact absurd ((startRounds_complete_iff components).1 hend).1 hdup
  | failed c =>
      obtain ⟨before, hlast, hfails, -⟩ := hspec.failed c hend
      have hc : c ∈ components := by
        apply hspec.order.subset
        rw [hlast]
        exact List.mem_append_right _ (List.mem_singleton_self c)
      rw [(hall c hc).2] at hfails
      cases hfails
  | stuck =>
      obtain ⟨-, hready⟩ := hspec.stuck hend
      have hfind : (components.find? fun c =>
          decide (c.tag ∉ (graph components).tags (startRounds components).1)) = none := by
        rw [List.find?_eq_none]
        intro c hc hnew
        exact of_decide_eq_true hnew ((hspec.order.startable_iff hready).1 (hall c hc).1)
      rw [settle, hfind]
  | outOfFuel => exact absurd hend hspec.fueled

/-- What an error of `startComponents` says is so: the start of the last component failed with it,
or every arrow of the cycle it prints is a dependency that is not started, or the dependency it
misses is not in the table. -/
theorem startComponents_error {order : List Component} {message : Text}
    (hbyTag : ∀ t c, byTag t = some c → c ∈ components ∧ c.tag = t)
    (h : startComponents words components byTag = (order, .error (.error message))) :
    (∃ before c, order = before ++ [c] ∧
        c.startAt words .stateStart = .error (.error message)) ∨
      (∃ tree t, message = diagnosisText words (.circular tree t) ∧
        (tree ++ [t]).IsChain ((graph components).Waits order) ∧
        Relation.TransGen ((graph components).Waits order) t t) ∨
      ∃ t dependent, message = diagnosisText words (.missing t dependent) ∧ byTag t = none ∧
        (graph components).Waits order dependent t := by
  have hspec := startRounds_spec components
  have horder : (startRounds components).1 = order := congrArg Prod.fst h
  have hsettle := congrArg Prod.snd h
  rw [startComponents_snd, horder] at hsettle
  cases hend : (startRounds components).2 with
  | complete =>
      rw [hend] at hsettle
      cases hsettle
  | failed c =>
      rw [hend] at hsettle
      obtain ⟨before, hlast, -, -⟩ := hspec.failed c hend
      exact .inl ⟨before, c, horder.symm.trans hlast, hsettle⟩
  | stuck =>
      obtain ⟨-, hready⟩ := hspec.stuck hend
      rw [horder] at hready
      rw [hend, settle] at hsettle
      split at hsettle
      · rename_i current hfind
        have hcurrent := List.mem_of_find?_eq_some hfind
        have hnew : current.tag ∉ (graph components).tags order := by
          simpa using List.find?_some hfind
        have htruth := Dependencies.follow_truthful hbyTag hready hcurrent hnew
        injection hsettle with hsettle
        injection hsettle with hmessage
        subst hmessage
        refine .inr ?_
        cases hdiagnosis : (graph components).follow byTag order (components.length + 1)
            [current.tag] current with
        | circular tree t =>
            obtain ⟨hmem, hchain⟩ := htruth.circular tree t hdiagnosis
            exact .inl ⟨tree, t, rfl, hchain, Dependencies.cycle_of_chain hmem hchain⟩
        | missing t dependent =>
            obtain ⟨hnone, hwaits⟩ := htruth.missing t dependent hdiagnosis
            exact .inr ⟨t, dependent, rfl, hnone, hwaits⟩
        | endless => exact absurd hdiagnosis htruth.ends
      · cases hsettle
  | outOfFuel => exact absurd hend hspec.fueled

end Components

def detours : List Component :=
  [⟨⟨[['b']], none, none⟩, ['a'], "socks".toList⟩, ⟨⟨[['a']], none, none⟩, ['b'], "socks".toList⟩]

theorem startComponents_error_at_detours :
    (startOutbounds detours fun t => detours.find? (·.tag = t)) =
        ([], .error (.error "circular outbound dependency: a -> b -> a".toList)) ∧
      ∃ t, Relation.TransGen ((graph detours).Waits []) t t := by
  have hrun : (startComponents outboundWords detours fun t => detours.find? (·.tag = t)) =
      ([], .error (.error "circular outbound dependency: a -> b -> a".toList)) := rfl
  have htable : ∀ t c, detours.find? (·.tag = t) = some c → c ∈ detours ∧ c.tag = t :=
    fun _ _ h => ⟨List.mem_of_find?_eq_some h, by simpa using List.find?_some h⟩
  refine ⟨hrun, ?_⟩
  rcases startComponents_error _ _ _ htable hrun with
    ⟨before, c, horder, -⟩ | ⟨tree, t, -, -, hcycle⟩ | ⟨t, dependent, hmessage, -, -⟩
  · exact absurd horder (by simp)
  · exact ⟨t, hcycle⟩
  · have hhead : some 'c' = some 'd' := congrArg List.head? hmessage
    cases hhead

/-! ## Outcomes without a panic -/

/-- The call does not panic, and what it returns has the property. -/
def Safe {α : Type} (inv : α → Prop) (r : Outcome α) : Prop :=
  (∀ message, r ≠ .error (.panic message)) ∧ ∀ a, r = .ok a → inv a

section Safe

variable {α β : Type} {inv : α → Prop} {inv' : β → Prop}

private theorem safe_ok {a : α} (h : inv a) : Safe inv (.ok a) :=
  ⟨nofun, fun _ heq => by cases heq; exact h⟩

private theorem safe_error {message : Text} : Safe inv (.error (.error message)) :=
  ⟨nofun, nofun⟩

theorem Safe.bind {r : Outcome α} {f : α → Outcome β} (hr : Safe inv r)
    (hf : ∀ a, inv a → Safe inv' (f a)) : Safe inv' (r >>= f) := by
  cases r with
  | ok a => exact hf a (hr.2 a rfl)
  | error fault => exact ⟨fun message heq => hr.1 message (by cases heq; rfl), nofun⟩

theorem Safe.map {r : Outcome α} {f : α → β} (hr : Safe inv r) (hf : ∀ a, inv a → inv' (f a)) :
    Safe inv' (r.map f) := by
  cases r with
  | ok a => exact safe_ok (hf a (hr.2 a rfl))
  | error fault => exact ⟨fun message heq => hr.1 message (by cases heq; rfl), nofun⟩

end Safe

private theorem startEach_eq_ok {words : Words} {stage : StartStage} {components : List Component}
    (h : ∀ c ∈ components, c.legacyStart stage = none) :
    (startEach words stage components).2 = .ok () := by
  induction components with
  | nil => rfl
  | cons c rest ih =>
      rw [List.forall_mem_cons] at h
      rw [startEach, startAt_eq_ok_iff.2 h.1]
      exact ih h.2

private theorem startEach_safe (words : Words) (stage : StartStage) (components : List Component) :
    Safe (fun _ => True) (startEach words stage components).2 := by
  induction components with
  | nil => exact safe_ok trivial
  | cons c rest ih =>
      rw [startEach]
      split
      · rename_i fault hstart
        refine ⟨?_, nofun⟩
        intro message heq
        cases heq
        exact startAt_ne_panic hstart
      · exact ih

/-! ## Creating the entries of a configuration -/

private theorem createAll_safe {α : Type} {create : α → Text → Entry → Outcome α} {noun : Text}
    {inv : List Text → α → Prop}
    (hcreate : ∀ tags m tag e, inv tags m → tag ≠ [] → tag ∉ tags →
      Safe (inv (tags ++ [tag])) (create m tag e))
    {tags : List Text} {i : Nat} {entries : List Entry} {m : α} (hm : inv tags m)
    (hnodup : (tags ++ tagsFrom i entries).Nodup) :
    Safe (inv (tags ++ tagsFrom i entries)) (createAll create noun i entries m) := by
  induction entries generalizing tags i m with
  | nil =>
      rw [createAll, tagsFrom, List.append_nil]
      exact safe_ok hm
  | cons e rest ih =>
      have hassoc : tags ++ tagsFrom i (e :: rest) =
          (tags ++ [tagAt i e.tag]) ++ tagsFrom (i + 1) rest := by simp [tagsFrom]
      rw [hassoc] at hnodup ⊢
      have hnew : tagAt i e.tag ∉ tags := by
        have hpair := (List.nodup_append.1 hnodup).1
        rw [← List.concat_eq_append, List.nodup_concat] at hpair
        exact hpair.1
      have hstep := hcreate tags m _ e hm (tagAt_ne_nil i e.tag) hnew
      rw [createAll]
      split
      · exact safe_error
      · rename_i message heq
        exact absurd heq (hstep.1 message)
      · rename_i next heq
        exact ih (hstep.2 next heq) hnodup

private theorem Table.Wf.create_fresh (words : Words) (index : Text) {t : Table} (h : t.Wf)
    {c : Component} (hnew : c.tag ∉ t.tags) :
    ∃ t', t.create words index false c = .ok t' ∧ t'.Wf ∧ t'.list = t.list ++ [c] := by
  obtain ⟨t', hput, hwf, hlist⟩ := h.put index c
  exact ⟨t', hput, hwf, hlist hnew⟩

private theorem Table.Wf.byTag_append {t t' : Table} (h : t.Wf) (h' : t'.Wf) {c : Component}
    (hlist : t'.list = t.list ++ [c]) (tag : Text) :
    t'.byTag tag = if c.tag = tag then some c else t.byTag tag := by
  split
  · rename_i htag
    rw [h'.byTag, hlist]
    exact ⟨List.mem_append_right _ (List.mem_singleton_self c), htag⟩
  · rename_i htag
    apply Option.ext
    intro d
    rw [h'.byTag, h.byTag, hlist, List.mem_append, List.mem_singleton]
    constructor
    · rintro ⟨hd | rfl, heq⟩
      · exact ⟨hd, heq⟩
      · exact absurd heq htag
    · rintro ⟨hd, heq⟩
      exact ⟨.inl hd, heq⟩

def componentsFrom : Nat → List Entry → List Component
  | _, [] => []
  | i, e :: rest =>
      match e.behaviour with
      | .ok behaviour => ⟨behaviour, tagAt i e.tag, e.type⟩ :: componentsFrom (i + 1) rest
      | .error _ => componentsFrom (i + 1) rest

namespace EndpointManager

/-- The manager holds endpoints with the given tags. -/
structure Holds (tags : List Text) (m : EndpointManager) : Prop where
  wf : m.table.Wf
  tags_eq : m.table.tags = tags

/-- It does so and was not started. -/
structure Fresh (tags : List Text) (m : EndpointManager) : Prop extends Holds tags m where
  fresh : m.started = false

theorem Fresh.create {tags : List Text} {m : EndpointManager} {tag : Text} (h : m.Fresh tags)
    (hnew : tag ∉ tags) (e : Entry) : Safe (Fresh (tags ++ [tag])) (m.create tag e) := by
  rw [EndpointManager.create, h.fresh]
  cases e.behaviour with
  | error message => exact safe_error
  | ok behaviour =>
      obtain ⟨table, hcreate, hwf, hlist⟩ := h.wf.create_fresh endpointWords
        "invalid endpoint index".toList (c := ⟨behaviour, tag, e.type⟩) (h.tags_eq ▸ hnew)
      simp only [hcreate]
      refine safe_ok ⟨⟨hwf, ?_⟩, rfl⟩
      rw [Table.tags, hlist, List.map_append, ← Table.tags, h.tags_eq]
      rfl

private theorem newManager_createAll {entries : List Entry} (hnodup : (tagsFrom 0 entries).Nodup) :
    Safe (Fresh (tagsFrom 0 entries))
      (createAll create "endpoint".toList 0 entries newManager) := by
  have hinitial : newManager.Fresh [] := ⟨⟨Table.empty_wf, rfl⟩, rfl⟩
  exact createAll_safe (fun _ _ _ e h _ hnew => h.create hnew e) hinitial hnodup

private theorem Fresh.createAll_eq_ok {tags : List Text} {m : EndpointManager} {i : Nat}
    {entries : List Entry} (h : m.Fresh tags) (hentries : ∀ e ∈ entries, ∃ b, e.behaviour = .ok b)
    (hnodup : (tags ++ tagsFrom i entries).Nodup) :
    ∃ m', createAll EndpointManager.create "endpoint".toList i entries m = .ok m' ∧
      m'.started = false ∧ m'.table.list = m.table.list ++ componentsFrom i entries := by
  induction entries generalizing tags i m with
  | nil => exact ⟨m, rfl, h.fresh, (List.append_nil _).symm⟩
  | cons e rest ih =>
      rw [List.forall_mem_cons] at hentries
      obtain ⟨⟨behaviour, hbehaviour⟩, hrest⟩ := hentries
      have hassoc : tags ++ tagsFrom i (e :: rest) =
          (tags ++ [tagAt i e.tag]) ++ tagsFrom (i + 1) rest := by simp [tagsFrom]
      rw [hassoc] at hnodup
      have hnew : tagAt i e.tag ∉ tags := by
        have hpair := (List.nodup_append.1 hnodup).1
        rw [← List.concat_eq_append, List.nodup_concat] at hpair
        exact hpair.1
      obtain ⟨table, hcreate, -, hlist⟩ := h.wf.create_fresh endpointWords
        "invalid endpoint index".toList (c := ⟨behaviour, tagAt i e.tag, e.type⟩) (h.tags_eq ▸ hnew)
      have hstep : m.create (tagAt i e.tag) e = .ok { m with table } := by
        rw [EndpointManager.create, hbehaviour, h.fresh]
        simp only [hcreate]
        rfl
      obtain ⟨m', hall, hstarted, hm'⟩ := ih ((h.create hnew e).2 _ hstep) hrest hnodup
      refine ⟨m', ?_, hstarted, ?_⟩
      · rw [createAll, hstep]
        exact hall
      · rw [hm', componentsFrom, hbehaviour]
        show table.list ++ _ = _
        rw [hlist, List.append_assoc]
        rfl

theorem Fresh.start {tags : List Text} {m : EndpointManager} (h : m.Fresh tags) :
    Safe (Holds tags) (m.start .stateInitialize).2 := by
  rw [EndpointManager.start, h.fresh]
  refine Safe.map (startEach_safe endpointWords .stateInitialize m.table.list) ?_
  intro _ _
  exact ⟨h.wf, h.tags_eq⟩

end EndpointManager

/-- The tags of the outbounds that are started: those of the configuration, or that of the fallback
where it has none and names no default. -/
def outboundTags (final : Text) (tags : List Text) : List Text :=
  if tags = [] ∧ final = [] then [OutboundManager.direct] else tags

def defaultTag (final : Text) (tags : List Text) : Option Text :=
  if final = [] then (outboundTags final tags).head? else some final

namespace OutboundManager

/-- The manager holds outbounds with the given tags.  Its default outbound is the one whose tag is
`final`, or the first one where `final` is empty. -/
structure Holds (final : Text) (tags : List Text) (m : OutboundManager) : Prop where
  wf : m.table.Wf
  tags_eq : m.table.tags = tags
  defaultTag : m.defaultTag = final
  default : m.defaultOutbound = if final = [] then m.table.list.head? else m.table.byTag final

/-- It does so and was not started. -/
structure Fresh (final : Text) (tags : List Text) (m : OutboundManager) : Prop
    extends Holds final tags m where
  fresh : m.started = false

structure Settled (final : Text) (tags : List Text) (m : OutboundManager) : Prop where
  wf : m.table.Wf
  tags_eq : m.table.tags = outboundTags final tags
  default : m.defaultOutbound.map Component.tag = Core.defaultTag final tags
  stage : m.stage = .stateInitialize

variable {final : Text} {tags : List Text} {m : OutboundManager}

theorem Fresh.create {tag : Text} (h : m.Fresh final tags) (hne : tag ≠ []) (hnew : tag ∉ tags)
    (e : Entry) : Safe (Fresh final (tags ++ [tag])) (m.create tag e) := by
  rw [OutboundManager.create, if_neg hne, h.fresh, h.defaultTag]
  cases e.behaviour with
  | error message => exact safe_error
  | ok behaviour =>
      obtain ⟨table, hcreate, hwf, hlist⟩ := h.wf.create_fresh outboundWords
        "invalid inbound index".toList (c := ⟨behaviour, tag, e.type⟩) (h.tags_eq ▸ hnew)
      simp only [hcreate]
      refine safe_ok ⟨⟨hwf, ?_, rfl, ?_⟩, rfl⟩
      · rw [Table.tags, hlist, List.map_append, ← Table.tags, h.tags_eq]
        rfl
      · by_cases hfinal : final = []
        · simp only [hfinal, hne, if_true, false_or, true_and, hlist, h.default]
          cases m.table.list with
          | nil => rfl
          | cons c rest => rfl
        · simp only [hfinal, if_false, false_and, or_false, h.default]
          exact (h.wf.byTag_append hwf hlist final).symm

private theorem newManager_createAll {entries : List Entry} (hnodup : (tagsFrom 0 entries).Nodup) :
    Safe (Fresh final (tagsFrom 0 entries))
      (createAll create "outbound".toList 0 entries (newManager final)) := by
  have hinitial : (newManager final).Fresh final [] :=
    ⟨⟨Table.empty_wf, rfl, rfl, (ite_self _).symm⟩, rfl⟩
  exact createAll_safe (fun _ _ _ e h hne hnew => h.create hne hnew e) hinitial hnodup

private theorem Holds.tags_eq_nil (h : m.Holds final tags) (hfinal : final = []) :
    tags = [] ↔ m.defaultOutbound = none := by
  rw [h.default, if_pos hfinal, List.head?_eq_none_iff, ← h.tags_eq, Table.tags, List.map_eq_nil_iff]

theorem Holds.chooseDefault (h : m.Holds final tags) (hstage : m.stage = .stateInitialize)
    {endpoint : EndpointManager} {endpointTags : List Text} (hendpoint : endpoint.Holds endpointTags)
    (fallback : Except Text Behaviour) :
    Safe (Settled final tags) (m.chooseDefault endpoint fallback) := by
  unfold OutboundManager.chooseDefault
  rw [h.defaultTag]
  split
  · -- A default outbound of the configuration.
    rename_i hdefault
    have hkept : outboundTags final tags = tags :=
      if_neg fun hnone => hdefault ((h.tags_eq_nil hnone.2).1 hnone.1)
    refine safe_ok ⟨h.wf, h.tags_eq.trans hkept.symm, ?_, hstage⟩
    rw [Core.defaultTag, hkept]
    split
    · rename_i hfinal
      rw [h.default, if_pos hfinal, ← h.tags_eq, Table.tags, List.head?_map]
    · rename_i hfinal
      obtain ⟨c, hc⟩ := Option.ne_none_iff_exists'.1 hdefault
      have hfound := h.default
      rw [if_neg hfinal, hc] at hfound
      rw [hc, Option.map_some, ((h.wf.byTag _ _).1 hfound.symm).2]
  · rename_i hdefault
    have hdefault : m.defaultOutbound = none := not_not.1 hdefault
    split
    · -- An endpoint under the tag.
      rename_i hfinal
      have hkept : outboundTags final tags = tags := if_neg fun hnone => hfinal hnone.2
      split
      · exact safe_error
      · rename_i c hget
        refine safe_ok ⟨h.wf, h.tags_eq.trans hkept.symm, ?_, hstage⟩
        rw [Option.map_some, ((hendpoint.wf.byTag _ _).1 hget).2, Core.defaultTag, if_neg hfinal]
    · -- The fallback, which is the only outbound.
      rename_i hfinal
      have hfinal : final = [] := not_not.1 hfinal
      have hnil : tags = [] := (h.tags_eq_nil hfinal).2 hdefault
      have hfallback : outboundTags final tags = [direct] := if_pos ⟨hnil, hfinal⟩
      have hlist : m.table.list = [] := by
        rw [← List.map_eq_nil_iff (f := Component.tag)]
        exact h.tags_eq.trans hnil
      split
      · exact safe_error
      · refine safe_ok ⟨h.wf.replace ?_ h.wf.nodup, ?_, ?_, hstage⟩
        · simp [hlist]
        · rw [hfallback, Table.tags, hlist]
          rfl
        · rw [Core.defaultTag, if_pos hfinal, hfallback]
          rfl

theorem Fresh.start (h : m.Fresh final tags) {endpoint : EndpointManager}
    {endpointTags : List Text} (hendpoint : endpoint.Holds endpointTags)
    (fallback : Except Text Behaviour) :
    Safe (Settled final tags) (m.start endpoint fallback .stateInitialize).2 := by
  have hready : Holds final tags { m with started := true, stage := .stateInitialize } :=
    ⟨h.wf, h.tags_eq, h.defaultTag, h.default⟩
  have hchosen := hready.chooseDefault rfl hendpoint fallback
  have hstart : (m.start endpoint fallback .stateInitialize).2 =
      ({ m with started := true, stage := .stateInitialize }.chooseDefault endpoint fallback >>=
        fun m => (startEach outboundWords .stateInitialize m.table.list).2.map fun _ => m) := by
    rw [OutboundManager.start, h.fresh, if_neg (by simp)]
    cases OutboundManager.chooseDefault endpoint fallback _ <;> rfl
  rw [hstart]
  refine hchosen.bind ?_
  intro m hm
  exact (startEach_safe outboundWords .stateInitialize m.table.list).map fun _ _ => hm

private theorem start_fallback (endpoint : EndpointManager) {behaviour : Behaviour}
    (h : (⟨behaviour, direct, direct⟩ : Component).legacyStart .stateInitialize = none) :
    ∃ m, ((newManager []).start endpoint (.ok behaviour) .stateInitialize).2 = .ok m ∧
      m.table.list = [⟨behaviour, direct, direct⟩] := by
  have heach : (startEach outboundWords .stateInitialize
      [(⟨behaviour, direct, direct⟩ : Component)]).2 = .ok () :=
    startEach_eq_ok (List.forall_mem_singleton.2 h)
  refine ⟨⟨[], true, .stateInitialize, ⟨[⟨behaviour, direct, direct⟩], Function.update
    (fun _ => none) direct (some ⟨behaviour, direct, direct⟩)⟩, some ⟨behaviour, direct, direct⟩⟩,
    ?_, rfl⟩
  show Except.map _ (startEach outboundWords .stateInitialize
    [(⟨behaviour, direct, direct⟩ : Component)]).2 = _
  rw [heach]
  rfl

private theorem start_stateStart (hstage : m.stage = .stateInitialize) (endpoint : EndpointManager)
    (fallback : Except Text Behaviour) :
    m.start endpoint fallback .stateStart =
      ((startOutbounds (m.table.list ++ endpoint.table.list) m.table.byTag).1,
        (startOutbounds (m.table.list ++ endpoint.table.list) m.table.byTag).2.map fun _ =>
          { m with started := true, stage := .stateStart }) := by
  rw [OutboundManager.start, hstage, if_neg (by simp [StartStage.number])]
  rfl

end OutboundManager

/-! ## The whole start -/

private theorem checkTags_ne_panic {noun message : Text} {seen : List Text} {i : Nat}
    {entries : List Entry} : checkTags noun seen i entries ≠ .error (.panic message) := by
  induction entries generalizing seen i with
  | nil =>
      intro h
      cases h
  | cons e rest ih =>
      rw [checkTags]
      split
      · intro h
        cases h
      · exact ih

private theorem checkOutbounds_safe (outbounds endpoints : List Entry) :
    Safe (fun _ => (tagsFrom 0 outbounds ++ tagsFrom 0 endpoints).Nodup)
      (checkOutbounds outbounds endpoints) := by
  have hloop : ∀ seen i entries, Safe (fun _ => True)
      (checkTags "outbound/endpoint".toList seen i entries) :=
    fun _ _ _ => ⟨fun _ => checkTags_ne_panic, fun _ _ => trivial⟩
  have hcheck : Safe (fun _ => True) (checkOutbounds outbounds endpoints) :=
    (hloop _ _ _).bind fun _ _ => (hloop _ _ _).bind fun _ _ => safe_ok trivial
  exact ⟨hcheck.1, fun _ h => checkOutbounds_eq_ok_iff.1 h⟩

/-- What the managers hold when the first stage is over. -/
structure Initialized (final : Text) (outbounds endpoints : List Entry)
    (m : OutboundManager × EndpointManager) : Prop where
  distinct : (tagsFrom 0 outbounds ++ tagsFrom 0 endpoints).Nodup
  outbound : m.1.Settled final (tagsFrom 0 outbounds)
  endpoint : m.2.Holds (tagsFrom 0 endpoints)

private theorem initialized_safe (final : Text) (fallback : Except Text Behaviour)
    (outbounds endpoints : List Entry) :
    Safe (Initialized final outbounds endpoints)
      (initialized final fallback outbounds endpoints) := by
  refine (checkOutbounds_safe outbounds endpoints).bind ?_
  intro _ hdistinct
  obtain ⟨houtbounds, hendpoints, -⟩ := List.nodup_append.1 hdistinct
  refine (EndpointManager.newManager_createAll hendpoints).bind ?_
  intro endpoint hendpoint
  refine (OutboundManager.newManager_createAll houtbounds).bind ?_
  intro outbound houtbound
  refine (houtbound.start hendpoint.toHolds fallback).bind ?_
  intro outbound hsettled
  refine (hendpoint.start).bind ?_
  intro endpoint hendpoint
  exact safe_ok ⟨hdistinct, hsettled, hendpoint⟩

private theorem tagsFrom_eq_nil_iff {i : Nat} {entries : List Entry} :
    tagsFrom i entries = [] ↔ entries = [] := by
  cases entries with
  | nil => exact iff_of_true rfl rfl
  | cons e rest => exact iff_of_false nofun nofun

def atStart (m : OutboundManager × EndpointManager) : OutboundManager × EndpointManager :=
  ({ m.1 with started := true, stage := .stateStart }, m.2)

private theorem launch_eq {final : Text} {fallback : Except Text Behaviour}
    {outbounds endpoints : List Entry} {m : OutboundManager × EndpointManager}
    (h : initialized final fallback outbounds endpoints = .ok m) :
    launch final fallback outbounds endpoints =
      ((startOutbounds (m.1.table.list ++ m.2.table.list) m.1.table.byTag).1,
        (startOutbounds (m.1.table.list ++ m.2.table.list) m.1.table.byTag).2.map fun _ =>
          atStart m) := by
  have hinit := (initialized_safe final fallback outbounds endpoints).2 m h
  rw [launch, h]
  simp only [OutboundManager.start_stateStart hinit.outbound.stage m.2 fallback]
  cases (startOutbounds (m.1.table.list ++ m.2.table.list) m.1.table.byTag).2 <;> rfl

private theorem Initialized.tags_eq {final : Text} {outbounds endpoints : List Entry}
    {m : OutboundManager × EndpointManager} (h : Initialized final outbounds endpoints m) :
    (m.1.table.list ++ m.2.table.list).map Component.tag =
      outboundTags final (tagsFrom 0 outbounds) ++ tagsFrom 0 endpoints := by
  rw [List.map_append, ← h.endpoint.tags_eq, ← h.outbound.tags_eq]
  rfl

private theorem Initialized.of_not_nodup {final : Text} {outbounds endpoints : List Entry}
    {m : OutboundManager × EndpointManager} (h : Initialized final outbounds endpoints m)
    (hnodup : ¬ ((m.1.table.list ++ m.2.table.list).map Component.tag).Nodup) :
    outbounds = [] ∧ final = [] ∧ OutboundManager.direct ∈ tagsFrom 0 endpoints := by
  rw [h.tags_eq, outboundTags] at hnodup
  split at hnodup
  · rename_i hfallback
    refine ⟨tagsFrom_eq_nil_iff.1 hfallback.1, hfallback.2, ?_⟩
    have hendpoints := (List.nodup_append.1 h.distinct).2.1
    rw [List.singleton_append, List.nodup_cons] at hnodup
    exact not_not.1 fun hnew => hnodup ⟨hnew, hendpoints⟩
  · exact absurd h.distinct hnodup

section Launch

variable {final : Text} {fallback : Except Text Behaviour} {outbounds endpoints : List Entry}

private theorem of_launch_ok {m : OutboundManager × EndpointManager}
    (h : (launch final fallback outbounds endpoints).2 = .ok m) :
    ∃ managers, Initialized final outbounds endpoints managers ∧ m = atStart managers ∧
      (launch final fallback outbounds endpoints).1 =
        (startRounds (managers.1.table.list ++ managers.2.table.list)).1 ∧
      (startRounds (managers.1.table.list ++ managers.2.table.list)).2 = .complete := by
  cases hm : initialized final fallback outbounds endpoints with
  | error fault =>
      rw [launch, hm] at h
      cases h
  | ok managers =>
      rw [launch_eq hm] at h ⊢
      have hinit := (initialized_safe final fallback outbounds endpoints).2 managers hm
      cases hstart : (startOutbounds (managers.1.table.list ++ managers.2.table.list)
          managers.1.table.byTag).2 with
      | error fault =>
          rw [hstart] at h
          cases h
      | ok _ =>
          rw [hstart] at h
          cases h
          exact ⟨managers, hinit, rfl, rfl, (startComponents_eq_ok_iff _ _ _).1 hstart⟩

private theorem of_launch_panic {message : Text}
    (h : (launch final fallback outbounds endpoints).2 = .error (.panic message)) :
    ∃ managers, Initialized final outbounds endpoints managers ∧
      ¬ ((managers.1.table.list ++ managers.2.table.list).map Component.tag).Nodup := by
  have hsafe := initialized_safe final fallback outbounds endpoints
  cases hm : initialized final fallback outbounds endpoints with
  | error fault =>
      rw [launch, hm] at h
      cases h
      exact absurd hm (hsafe.1 message)
  | ok managers =>
      rw [launch_eq hm] at h
      refine ⟨managers, hsafe.2 managers hm, ?_⟩
      cases hstart : (startOutbounds (managers.1.table.list ++ managers.2.table.list)
          managers.1.table.byTag).2 with
      | error fault =>
          rw [hstart] at h
          cases h
          exact not_nodup_of_panic _ _ _ hstart
      | ok _ =>
          rw [hstart] at h
          cases h

variable (final fallback outbounds endpoints) in
private theorem launch_order :
    ∃ components, (graph components).InOrder (launch final fallback outbounds endpoints).1 := by
  cases hm : initialized final fallback outbounds endpoints with
  | error fault =>
      rw [launch, hm]
      exact ⟨[], .nil⟩
  | ok managers =>
      rw [launch_eq hm]
      exact ⟨_, (startRounds_spec _).order⟩

private theorem tagsFrom_ne_nil {i : Nat} {entries : List Entry} : [] ∉ tagsFrom i entries := by
  induction entries generalizing i with
  | nil => exact List.not_mem_nil
  | cons e rest ih =>
      rw [tagsFrom, List.mem_cons, not_or]
      exact ⟨(tagAt_ne_nil i e.tag).symm, ih⟩

private theorem Initialized.of_outboundOf {managers : OutboundManager × EndpointManager}
    (h : Initialized final outbounds endpoints managers) {t : Text} {c : Component}
    (hc : outboundOf managers t = some c) :
    c ∈ managers.1.table.list ++ managers.2.table.list ∧ c.tag = t ∧ t ≠ [] := by
  have hfound : c ∈ managers.1.table.list ++ managers.2.table.list ∧ c.tag = t := by
    rw [outboundOf, Option.or_eq_some_iff] at hc
    rw [List.mem_append]
    rcases hc with hc | ⟨-, hc⟩
    · exact ((h.outbound.wf.byTag t c).1 hc).imp_left .inl
    · exact ((h.endpoint.wf.byTag t c).1 hc).imp_left .inr
  refine ⟨hfound.1, hfound.2, ?_⟩
  rintro rfl
  have hmem := List.mem_map_of_mem (f := Component.tag) hfound.1
  rw [hfound.2, h.tags_eq, List.mem_append, outboundTags] at hmem
  rcases hmem with hmem | hmem
  · split at hmem
    · cases List.mem_singleton.1 hmem
    · exact tagsFrom_ne_nil hmem
  · exact tagsFrom_ne_nil hmem

/-- After a start that succeeded, what the manager knows was started. -/
theorem launch_found {order : List Component} {m : OutboundManager × EndpointManager}
    (h : launch final fallback outbounds endpoints = (order, .ok m)) :
    ∃ components, (graph components).InOrder order ∧
      ∀ t c, outboundOf m t = some c → c ∈ order ∧ c.tag = t ∧ t ≠ [] := by
  obtain ⟨managers, hinit, rfl, hrounds, hcomplete⟩ := of_launch_ok (congrArg Prod.snd h)
  obtain rfl : order = (startRounds (managers.1.table.list ++ managers.2.table.list)).1 :=
    (congrArg Prod.fst h).symm.trans hrounds
  have hspec := startRounds_spec (managers.1.table.list ++ managers.2.table.list)
  refine ⟨_, hspec.order, ?_⟩
  intro t c hc
  obtain ⟨hmem, htag, hne⟩ := hinit.of_outboundOf hc
  obtain ⟨hnodup, hall⟩ := hspec.order.length_eq_iff.1 (hspec.complete hcomplete).1
  obtain ⟨b, hb, hbc⟩ := List.mem_map.1 (hall c hmem)
  have hsame : b = c := List.inj_on_of_nodup_map hnodup (hspec.order.subset hb) hmem hbc
  exact ⟨hsame ▸ hb, htag, hne⟩

/-- Whatever the configuration: outbounds and endpoints are started after their dependencies and
each tag once; a start that succeeds has started all of them and has settled the default outbound;
and only a configuration without outbounds and default, with an endpoint tagged `direct`, makes the
start panic. -/
theorem launch_in_order {order : List Component}
    {result : Outcome (OutboundManager × EndpointManager)}
    (h : launch final fallback outbounds endpoints = (order, result)) :
    (order.map Component.tag).Nodup ∧
      (∀ before c after, order = before ++ c :: after →
        ∀ t ∈ c.dependencies, t ∈ before.map Component.tag) ∧
      (∀ m, result = .ok m →
        (order.map Component.tag).Perm
            (outboundTags final (tagsFrom 0 outbounds) ++ tagsFrom 0 endpoints) ∧
          m.1.defaultOutbound.map Component.tag = defaultTag final (tagsFrom 0 outbounds)) ∧
      ∀ message, result = .error (.panic message) →
        outbounds = [] ∧ final = [] ∧ OutboundManager.direct ∈ tagsFrom 0 endpoints := by
  obtain ⟨rfl, rfl⟩ : (launch final fallback outbounds endpoints).1 = order ∧
      (launch final fallback outbounds endpoints).2 = result := by simp [h]
  obtain ⟨components, horder⟩ := launch_order final fallback outbounds endpoints
  refine ⟨horder.nodup, fun _ _ _ hsplit => horder.before hsplit, ?_, ?_⟩
  · intro m hok
    obtain ⟨managers, hinit, rfl, hrounds, hcomplete⟩ := of_launch_ok hok
    have hspec := startRounds_spec (managers.1.table.list ++ managers.2.table.list)
    rw [hrounds, ← hinit.tags_eq]
    exact ⟨hspec.order.perm (hspec.complete hcomplete).1, hinit.outbound.default⟩
  · intro message hpanic
    obtain ⟨managers, hinit, hnodup⟩ := of_launch_panic hpanic
    exact hinit.of_not_nodup hnodup

def tunnelled : List Entry :=
  [⟨['p'], "socks".toList, .ok ⟨[['w']], none, none⟩⟩]

def tunnel : List Entry :=
  [⟨['w'], "wireguard".toList, .ok ⟨[], none, none⟩⟩]

theorem launch_in_order_at_tunnel :
    (launch ['p'] (.error []) tunnelled tunnel).1.map Component.tag = [['w'], ['p']] ∧
      ((launch ['p'] (.error []) tunnelled tunnel).1.map Component.tag).Nodup :=
  ⟨by decide +kernel,
    (launch_in_order (Prod.mk.eta (p := launch ['p'] (.error []) tunnelled tunnel)).symm).1⟩

/-- All of these components can be started, in the first stage and in the second. -/
def CanStart (components : List Component) : Prop :=
  ∀ c ∈ components, c.legacyStart .stateInitialize = none ∧ c.legacyStart .stateStart = none ∧
    (graph components).Startable c.tag

private theorem initialized_fallback {behaviour : Behaviour} (hnodup : (tagsFrom 0 endpoints).Nodup)
    (hentries : ∀ e ∈ endpoints, ∃ b, e.behaviour = .ok b)
    (hstarts : CanStart (⟨behaviour, OutboundManager.direct, OutboundManager.direct⟩ ::
      componentsFrom 0 endpoints)) :
    ∃ m, initialized [] (.ok behaviour) [] endpoints = .ok m ∧
      m.1.table.list ++ m.2.table.list =
        ⟨behaviour, OutboundManager.direct, OutboundManager.direct⟩ :: componentsFrom 0 endpoints := by
  have hcheck : checkOutbounds [] endpoints = .ok () := checkOutbounds_eq_ok_iff.2 hnodup
  have hinitial : EndpointManager.newManager.Fresh [] := ⟨⟨Table.empty_wf, rfl⟩, rfl⟩
  obtain ⟨endpoint, hcreate, hfresh, hlist⟩ := hinitial.createAll_eq_ok hentries hnodup
  rw [CanStart, List.forall_mem_cons] at hstarts
  obtain ⟨outbound, houtbound, hfallback⟩ := OutboundManager.start_fallback endpoint hstarts.1.1
  have hendpoint : (endpoint.start .stateInitialize).2 =
      .ok { endpoint with started := true, stage := .stateInitialize } := by
    have heach : (startEach endpointWords .stateInitialize endpoint.table.list).2 = .ok () := by
      rw [hlist]
      exact startEach_eq_ok fun c hc => (hstarts.2 c hc).1
    rw [EndpointManager.start, hfresh]
    show Except.map _ (startEach endpointWords .stateInitialize endpoint.table.list).2 = _
    rw [heach]
    rfl
  refine ⟨(outbound, { endpoint with started := true, stage := .stateInitialize }), ?_, ?_⟩
  · rw [initialized, hcheck]
    show (createAll EndpointManager.create "endpoint".toList 0 endpoints .newManager >>= _) = _
    rw [hcreate]
    show (((OutboundManager.newManager []).start endpoint (.ok behaviour) .stateInitialize).2 >>=
      _) = _
    rw [houtbound]
    show ((endpoint.start .stateInitialize).2 >>= _) = _
    rw [hendpoint]
    rfl
  · show outbound.table.list ++ endpoint.table.list = _
    rw [hfallback, hlist]
    rfl

/-- Without outbounds and default, an endpoint tagged `direct` has the tag of the fallback.  The check
of the tags accepts the configuration, but the start never succeeds, and where the fallback and the
endpoints could all be started it ends in a nil dereference. -/
theorem launch_direct_endpoint (hnodup : (tagsFrom 0 endpoints).Nodup)
    (hdirect : OutboundManager.direct ∈ tagsFrom 0 endpoints) :
    checkOutbounds [] endpoints = .ok () ∧
      (∀ fallback m, (launch [] fallback [] endpoints).2 ≠ .ok m) ∧
      ∀ behaviour, (∀ e ∈ endpoints, ∃ b, e.behaviour = .ok b) →
        CanStart (⟨behaviour, OutboundManager.direct, OutboundManager.direct⟩ ::
          componentsFrom 0 endpoints) →
        (launch [] (.ok behaviour) [] endpoints).2 = .error nilDereference := by
  refine ⟨checkOutbounds_eq_ok_iff.2 hnodup, ?_, ?_⟩
  · intro fallback m hok
    obtain ⟨managers, hinit, -, -, hcomplete⟩ := of_launch_ok hok
    have hdistinct := ((startRounds_complete_iff _).1 hcomplete).1
    rw [hinit.tags_eq] at hdistinct
    exact absurd hdirect (List.nodup_cons.1 hdistinct).1
  · intro behaviour hentries hstarts
    obtain ⟨managers, hm, hlist⟩ := initialized_fallback hnodup hentries hstarts
    have hinit := (initialized_safe _ _ _ _).2 managers hm
    have hdup : ¬ ((managers.1.table.list ++ managers.2.table.list).map Component.tag).Nodup := by
      rw [hinit.tags_eq]
      exact fun hdistinct => absurd hdirect (List.nodup_cons.1 hdistinct).1
    have hpanic := startComponents_eq_nilDereference outboundWords
      (managers.1.table.list ++ managers.2.table.list) managers.1.table.byTag hdup
      (by rw [hlist]; exact fun c hc => ⟨(hstarts c hc).2.2, (hstarts c hc).2.1⟩)
    rw [launch_eq hm]
    show Except.map _ (startComponents _ _ _).2 = _
    rw [hpanic]
    rfl

end Launch

def directEndpoint : List Entry :=
  [⟨OutboundManager.direct, "wireguard".toList, .ok ⟨[], none, none⟩⟩]

theorem launch_direct_endpoint_panics :
    checkOutbounds [] directEndpoint = .ok () ∧
      (launch [] (.ok ⟨[], none, none⟩) [] directEndpoint).2 = .error nilDereference := by
  have hnodup : (tagsFrom 0 directEndpoint).Nodup := by decide +kernel
  have hdirect : OutboundManager.direct ∈ tagsFrom 0 directEndpoint := by decide +kernel
  obtain ⟨hcheck, -, hpanics⟩ := launch_direct_endpoint hnodup hdirect
  refine ⟨hcheck, hpanics ⟨[], none, none⟩ (List.forall_mem_singleton.2 ⟨_, rfl⟩) ?_⟩
  have hstartable : ∀ c ∈ (⟨⟨[], none, none⟩, OutboundManager.direct, OutboundManager.direct⟩ ::
      componentsFrom 0 directEndpoint : List Component), c.legacyStart .stateInitialize = none ∧
        c.legacyStart .stateStart = none ∧ c.dependencies = [] := by decide +kernel
  intro c hc
  obtain ⟨hcomplete, hstart, hnone⟩ := hstartable c hc
  refine ⟨hcomplete, hstart, .intro hc ?_⟩
  change ∀ t ∈ c.dependencies, _
  rw [hnone]
  exact List.forall_mem_nil _

end SingBoxPython.Core
