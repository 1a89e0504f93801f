import SingBoxPython.Core.Launch
import SingBoxPython.Framework.Transition

/-!
# Groups of outbounds

The groups of `protocol/group`: how `URLTestGroup.Select` picks an outbound by its measured delay,
what a selector or a URL test stands for at a time, and the loops that follow groups to the outbound
behind them, `group.RealTag` and `newTrackerMetadata` of the traffic manager.
-/

namespace SingBoxPython.Core
open Framework

/-! ## The choice of a URL test -/

section Select

variable {ι : Type}

-- `supports` is whether an outbound has the network, `delayOf` the delay in its history.
variable (tolerance : UInt16) (supports : ι → Bool) (delayOf : ι → Option UInt16)

/-- The body of the loop over the outbounds, on `minDelay` and `minOutbound`. -/
def consider (min : UInt16 × Option ι) (detour : ι) : UInt16 × Option ι :=
  if supports detour then
    match delayOf detour with
    | none => min
    | some delay => if min.1 = 0 ∨ min.1 > delay + tolerance then (delay, some detour) else min
  else min

/-- `minDelay` and `minOutbound` before the loop, from the outbound that is selected. -/
def selectStart (selected : Option ι) : UInt16 × Option ι :=
  match selected with
  | none => (0, none)
  | some s =>
      match delayOf s with
      | none => (0, none)
      | some delay => (delay, some s)

/-- `URLTestGroup.Select` -/
def select (outbounds : List ι) (selected : Option ι) : Option ι × Bool :=
  match (outbounds.foldl (consider tolerance supports delayOf) (selectStart delayOf selected)).2 with
  | some outbound => (some outbound, true)
  | none => (outbounds.find? supports, false)

def updateSelected (outbounds : List ι) (selected : Option ι) : Option ι :=
  match (select tolerance supports delayOf outbounds selected).1 with
  | none => selected
  | some outbound =>
      if selected.isNone || (select tolerance supports delayOf outbounds selected).2 then
        some outbound
      else selected

variable {tolerance supports delayOf} {min : UInt16 × Option ι} {d : ι}

private theorem consider_cases :
    consider tolerance supports delayOf min d = min ∧
        (∀ delay, supports d = true → delayOf d = some delay →
          min.1 ≠ 0 ∧ ¬ min.1 > delay + tolerance) ∨
      ∃ delay, supports d = true ∧ delayOf d = some delay ∧
        (min.1 = 0 ∨ min.1 > delay + tolerance) ∧
        consider tolerance supports delayOf min d = (delay, some d) := by
  unfold consider
  split
  · rename_i hsupports
    split
    · rename_i hnone
      refine .inl ⟨rfl, ?_⟩
      intro delay _ hdelay
      rw [hnone] at hdelay
      cases hdelay
    · rename_i delay hdelay
      split
      · rename_i hless
        exact .inr ⟨delay, hsupports, hdelay, hless, rfl⟩
      · rename_i hless
        refine .inl ⟨rfl, ?_⟩
        intro delay' _ hdelay'
        rw [hdelay] at hdelay'
        cases hdelay'
        exact not_or.1 hless
  · rename_i hsupports
    exact .inl ⟨rfl, fun _ h => absurd h hsupports⟩

/-- The delays that the loop compares: they are positive, and the sum with the tolerance has no
overflow. -/
def Sane (tolerance : UInt16) (delayOf : ι → Option UInt16) (d : ι) : Prop :=
  ∀ delay, delayOf d = some delay → delay ≠ 0 ∧ delay.toNat + tolerance.toNat < 2 ^ 16

private theorem exceeds_iff {minDelay delay : UInt16} (h : delay.toNat + tolerance.toNat < 2 ^ 16) :
    minDelay > delay + tolerance ↔ delay.toNat + tolerance.toNat < minDelay.toNat := by
  rw [gt_iff_lt, UInt16.lt_iff_toNat_lt, UInt16.toNat_add, Nat.mod_eq_of_lt h]

/-- What is known of `minDelay` and `minOutbound` when the outbounds `seen` were considered. -/
structure Best (tolerance : UInt16) (supports : ι → Bool) (delayOf : ι → Option UInt16)
    (selected : Option ι) (seen : List ι) (min : UInt16 × Option ι) : Prop where
  unset : min.1 = 0 ↔ min.2 = none
  nothing : min.2 = none → ∀ d ∈ seen, supports d = true → delayOf d = none
  delay : ∀ c, min.2 = some c → delayOf c = some min.1
  near : ∀ d ∈ seen, supports d = true → ∀ t, delayOf d = some t →
    min.1.toNat ≤ t.toNat + tolerance.toNat
  gain : ∀ s u, selected = some s → delayOf s = some u →
    min = (u, some s) ∨ min.2 ≠ none ∧ min.1.toNat + tolerance.toNat < u.toNat

theorem Best.start {selected : Option ι} (hsane : ∀ s ∈ selected, Sane tolerance delayOf s) :
    Best tolerance supports delayOf selected [] (selectStart delayOf selected) := by
  rcases selected with _ | s
  · exact ⟨iff_of_true rfl rfl, nofun, nofun, nofun, nofun⟩
  · cases hdelay : delayOf s with
    | none =>
        have hstart : selectStart delayOf (some s) = (0, none) := by rw [selectStart, hdelay]
        rw [hstart]
        refine ⟨iff_of_true rfl rfl, nofun, nofun, nofun, ?_⟩
        intro s' u hs hu
        cases hs
        rw [hdelay] at hu
        cases hu
    | some delay =>
        have hstart : selectStart delayOf (some s) = (delay, some s) := by rw [selectStart, hdelay]
        rw [hstart]
        refine ⟨iff_of_false (hsane s rfl delay hdelay).1 nofun, nofun, ?_, nofun, ?_⟩
        · intro c hc
          cases hc
          exact hdelay
        · intro s' u hs hu
          cases hs
          rw [hdelay] at hu
          cases hu
          exact .inl rfl

private theorem Best.consider {selected : Option ι} {seen : List ι}
    (h : Best tolerance supports delayOf selected seen min) (hsane : Sane tolerance delayOf d) :
    Best tolerance supports delayOf selected (seen ++ [d])
      (consider tolerance supports delayOf min d) := by
  rcases consider_cases with ⟨hsame, hkept⟩ | ⟨delay, hsupports, hdelay, hless, hnext⟩
  · rw [hsame]
    refine ⟨h.unset, ?_, h.delay, ?_, h.gain⟩
    · intro hnone e he hsupports
      rcases List.mem_append.1 he with he | he
      · exact h.nothing hnone e he hsupports
      · rw [List.mem_singleton.1 he] at hsupports ⊢
        by_contra hdelay
        obtain ⟨delay, hdelay⟩ := Option.ne_none_iff_exists'.1 hdelay
        exact (hkept delay hsupports hdelay).1 (h.unset.2 hnone)
    · intro e he hsupports t ht
      rcases List.mem_append.1 he with he | he
      · exact h.near e he hsupports t ht
      · rw [List.mem_singleton.1 he] at hsupports ht
        have hnot := (hkept t hsupports ht).2
        rw [exceeds_iff (hsane t ht).2] at hnot
        omega
  · rw [hnext]
    obtain ⟨hpos, hfit⟩ := hsane delay hdelay
    -- a new minimum is smaller by more than the tolerance, or the first one
    rw [exceeds_iff hfit] at hless
    refine ⟨iff_of_false hpos nofun, nofun, ?_, ?_, ?_⟩
    · intro c hc
      cases hc
      exact hdelay
    · intro e he hsupports t ht
      rcases List.mem_append.1 he with he | he
      · rcases hless with hzero | hless
        · rw [h.nothing (h.unset.1 hzero) e he hsupports] at ht
          cases ht
        · have hnear := h.near e he hsupports t ht
          change delay.toNat ≤ _
          omega
      · rw [List.mem_singleton.1 he, hdelay] at ht
        cases ht
        exact Nat.le_add_right _ _
    · intro s u hs hu
      refine .inr ⟨nofun, ?_⟩
      change delay.toNat + tolerance.toNat < u.toNat
      rcases h.gain s u hs hu with hmin | ⟨hset, hgain⟩
      · rcases hless with hzero | hless
        · have hnone := h.unset.1 hzero
          rw [hmin] at hnone
          cases hnone
        · rw [hmin] at hless
          exact hless
      · rcases hless with hzero | hless
        · exact absurd (h.unset.1 hzero) hset
        · omega

theorem Best.foldl {selected : Option ι} {seen l : List ι}
    (h : Best tolerance supports delayOf selected seen min)
    (hsane : ∀ d ∈ l, Sane tolerance delayOf d) :
    Best tolerance supports delayOf selected (seen ++ l)
      (l.foldl (Core.consider tolerance supports delayOf) min) := by
  induction l generalizing seen min with
  | nil => simpa using h
  | cons d rest ih =>
      have hnext := ih (h.consider (hsane d List.mem_cons_self))
        fun e he => hsane e (List.mem_cons_of_mem d he)
      simpa using hnext

private theorem selectStart_unset {selected : Option ι}
    (h : (selectStart delayOf selected).2 = none) : (selectStart delayOf selected).1 = 0 := by
  revert h
  unfold selectStart
  split
  · exact fun _ => rfl
  · split
    · exact fun _ => rfl
    · intro h
      cases h

private theorem foldl_ne_none {l : List ι} (hunset : min.2 = none → min.1 = 0)
    (hset : min.2 ≠ none ∨ ∃ d ∈ l, supports d = true ∧ (delayOf d).isSome = true) :
    (l.foldl (consider tolerance supports delayOf) min).2 ≠ none := by
  induction l generalizing min with
  | nil =>
      rcases hset with hset | ⟨d, hd, -⟩
      · exact hset
      · cases hd
  | cons d rest ih =>
      rw [List.foldl_cons]
      rcases consider_cases with ⟨hsame, hkept⟩ | ⟨delay, -, -, -, hnext⟩
      · rw [hsame]
        refine ih hunset ?_
        rcases hset with hset | ⟨e, he, hsupports, hdelay⟩
        · exact .inl hset
        · rcases List.mem_cons.1 he with rfl | he
          · obtain ⟨delay, hdelay⟩ := Option.isSome_iff_exists.1 hdelay
            exact .inl fun hnone => (hkept delay hsupports hdelay).1 (hunset hnone)
          · exact .inr ⟨e, he, hsupports, hdelay⟩
      · rw [hnext]
        have hsome : some d ≠ none := Option.some_ne_none d
        exact ih (fun hnone => absurd hnone hsome) (.inl hsome)

private theorem exists_select_of_delay {outbounds : List ι} {selected : Option ι}
    (h : ∃ d ∈ outbounds, supports d = true ∧ (delayOf d).isSome = true) :
    ∃ chosen, select tolerance supports delayOf outbounds selected = (some chosen, true) ∧
      (outbounds.foldl (consider tolerance supports delayOf) (selectStart delayOf selected)).2 =
        some chosen := by
  have hsome : (outbounds.foldl (consider tolerance supports delayOf)
      (selectStart delayOf selected)).2 ≠ none := foldl_ne_none selectStart_unset (.inr h)
  obtain ⟨chosen, hchosen⟩ := Option.ne_none_iff_exists'.1 hsome
  refine ⟨chosen, ?_, hchosen⟩
  rw [select, hchosen]

/-- Where a supported outbound has a delay, a URL test chooses by the delays: an outbound whose delay
no other beats by more than the tolerance, and it leaves the selected one only for a gain of more than
the tolerance. -/
theorem select_within_tolerance {outbounds : List ι} {selected : Option ι}
    (hselected : ∀ s ∈ selected, Sane tolerance delayOf s)
    (hsane : ∀ d ∈ outbounds, Sane tolerance delayOf d) :
    ((∃ d ∈ outbounds, supports d = true ∧ (delayOf d).isSome = true) →
      ∃ chosen, select tolerance supports delayOf outbounds selected = (some chosen, true)) ∧
    ∀ chosen, select tolerance supports delayOf outbounds selected = (some chosen, true) →
      ∃ delay, delayOf chosen = some delay ∧
        (∀ d ∈ outbounds, supports d = true → ∀ t, delayOf d = some t →
          delay.toNat ≤ t.toNat + tolerance.toNat) ∧
        ∀ s u, selected = some s → delayOf s = some u →
          chosen = s ∨ delay.toNat + tolerance.toNat < u.toNat := by
  have hbest : Best tolerance supports delayOf selected ([] ++ outbounds) _ :=
    (Best.start hselected).foldl hsane
  constructor
  · intro hdelay
    obtain ⟨chosen, hchosen, -⟩ := exists_select_of_delay hdelay
    exact ⟨chosen, hchosen⟩
  · intro chosen h
    rw [select] at h
    split at h
    · rename_i outbound hmin
      cases h
      refine ⟨_, hbest.delay chosen hmin, hbest.near, ?_⟩
      intro s u hs hu
      rcases hbest.gain s u hs hu with hkept | ⟨-, hgain⟩
      · rw [hkept] at hmin
        cases hmin
        exact .inl rfl
      · exact .inr hgain
    · exact absurd (congrArg Prod.snd h) Bool.false_ne_true

theorem select_within_tolerance_at_close_delays :
    select 50 (fun _ => true) (fun i : Fin 2 => some (if i = 0 then 120 else 90)) [0, 1] (some 0) =
        (some 0, true) ∧
      ∃ delay, some (if (0 : Fin 2) = 0 then (120 : UInt16) else 90) = some delay ∧
        delay.toNat ≤ (90 : UInt16).toNat + (50 : UInt16).toNat := by
  have hsane : ∀ i : Fin 2, Sane 50 (fun i : Fin 2 => some (if i = 0 then 120 else 90)) i := by
    intro i delay hdelay
    cases hdelay
    revert i
    decide
  have hchosen : select 50 (fun _ => true) (fun i : Fin 2 => some (if i = 0 then 120 else 90)) [0, 1]
      (some 0) = (some 0, true) := by decide +kernel
  obtain ⟨delay, hdelay, hnear, -⟩ :=
    (select_within_tolerance (fun s _ => hsane s) (fun d _ => hsane d)).2 0 hchosen
  exact ⟨hchosen, delay, hdelay, hnear 1 (by decide) rfl 90 rfl⟩

private theorem foldl_delay {a : ι} {u : UInt16} {l : List ι} (ha : delayOf a = some u)
    (hmin : min.2 = some a → min.1 = u) :
    (l.foldl (consider tolerance supports delayOf) min).2 = some a →
      (l.foldl (consider tolerance supports delayOf) min).1 = u := by
  induction l generalizing min with
  | nil => exact hmin
  | cons d rest ih =>
      rw [List.foldl_cons]
      apply ih
      rcases consider_cases with ⟨hsame, -⟩ | ⟨delay, -, hdelay, -, hnext⟩
      · rw [hsame]
        exact hmin
      · rw [hnext]
        intro h
        cases h
        rw [ha] at hdelay
        cases hdelay
        rfl

private theorem foldl_zero_ne {a : ι} {l : List ι} (hl : a ∉ l)
    (hmin : min.2 = some a → min.1 = 0 ∧ ∃ b ∈ l, supports b = true ∧ (delayOf b).isSome = true) :
    (l.foldl (consider tolerance supports delayOf) min).2 ≠ some a := by
  induction l generalizing min with
  | nil =>
      intro h
      obtain ⟨-, b, hb, -⟩ := hmin h
      cases hb
  | cons d rest ih =>
      have hda : d ≠ a := fun h => hl (h ▸ List.mem_cons_self)
      rw [List.foldl_cons]
      refine ih (fun h => hl (List.mem_cons_of_mem d h)) ?_
      rcases consider_cases with ⟨hsame, hkept⟩ | ⟨delay, -, -, -, hnext⟩
      · rw [hsame]
        intro h
        obtain ⟨hzero, b, hb, hsupports, hdelay⟩ := hmin h
        refine ⟨hzero, b, ?_, hsupports, hdelay⟩
        rcases List.mem_cons.1 hb with rfl | hb
        · obtain ⟨delay, hdelay⟩ := Option.isSome_iff_exists.1 hdelay
          exact absurd hzero (hkept delay hsupports hdelay).1
        · exact hb
      · rw [hnext]
        intro h
        cases h
        exact absurd rfl hda

/-- An outbound whose delay was measured as zero is never chosen when a supported outbound with a
delay comes after its last place in the group, however slow that one is. -/
theorem select_zero_delay {before after : List ι} {a : ι} {selected : Option ι}
    (ha : delayOf a = some 0) (hafter : a ∉ after)
    (hother : ∃ b ∈ after, supports b = true ∧ (delayOf b).isSome = true) :
    (select tolerance supports delayOf (before ++ a :: after) selected).1 ≠ some a := by
  have hstart : (selectStart delayOf selected).2 = some a → (selectStart delayOf selected).1 = 0 := by
    rcases selected with _ | s
    · exact nofun
    · cases hdelay : delayOf s with
      | none =>
          rw [selectStart, hdelay]
          exact nofun
      | some delay =>
          rw [selectStart, hdelay]
          intro h
          cases h
          rw [ha] at hdelay
          cases hdelay
          rfl
  have hsplit : before ++ a :: after = (before ++ [a]) ++ after := by simp
  have hne : ((before ++ a :: after).foldl (consider tolerance supports delayOf)
      (selectStart delayOf selected)).2 ≠ some a := by
    rw [hsplit, List.foldl_append]
    exact foldl_zero_ne hafter fun h => ⟨foldl_delay ha hstart h, hother⟩
  have hlater : ∃ d ∈ before ++ a :: after, supports d = true ∧ (delayOf d).isSome = true := by
    obtain ⟨b, hb, hdelay⟩ := hother
    exact ⟨b, List.mem_append_right _ (List.mem_cons_of_mem a hb), hdelay⟩
  obtain ⟨chosen, hchosen, hmin⟩ : ∃ chosen, select tolerance supports delayOf
      (before ++ a :: after) selected = (some chosen, true) ∧ _ = some chosen :=
    exists_select_of_delay hlater
  rw [hchosen]
  intro h
  cases h
  exact hne hmin

/-- A local outbound that answers within a millisecond loses to one that takes a second. -/
theorem select_zero_delay_at_slow_outbound :
    (select 50 (fun _ => true) (fun i : Fin 2 => some (if i = 0 then 0 else 1000)) ([] ++ 0 :: [1])
        none).1 ≠ some 0 ∧
      select 50 (fun _ => true) (fun i : Fin 2 => some (if i = 0 then 0 else 1000)) [0, 1] none =
        (some 1, true) :=
  ⟨select_zero_delay rfl (by decide) ⟨1, by decide, rfl, rfl⟩, by decide +kernel⟩

end Select

/-! ## Selections over time -/

inductive Network
  | tcp
  | udp
  deriving DecidableEq

/-- What a group has selected: a selector one outbound, a URL test one for each network. -/
inductive Group
  | selector (selected : Option Text)
  | urlTest (tolerance : UInt16) (selected : Network → Option Text)

abbrev Groups := Text → Option Group

inductive GroupEvent
  /-- `Start` of a selector, with the selection in the cache file and the `default` option. -/
  | start (group : Text) (cached : Option Text) (defaultTag : Text)
  | selectOutbound (group tag : Text)
  /-- With the supported networks and the delays of that time. -/
  | performUpdateCheck (group : Text) (supports : Network → Text → Bool)
      (delayOf : Text → Option UInt16)

def Group.now (tags : List Text) : Group → Text
  | .selector selected => selected.getD (tags.headD [])
  | .urlTest _ selected => ((selected .tcp).or (selected .udp)).getD []

/-- What `Start` of a selector stores, when all its outbounds are there; `none` is the error
`default outbound not found`. -/
def selectorStart (tags : List Text) (cached : Option Text) (defaultTag : Text) : Option Text :=
  match cached.filter (· ∈ tags) with
  | some tag => some tag
  | none => if defaultTag ≠ [] then tags.find? (· = defaultTag) else tags.head?

section GroupRuns

-- The outbounds of each group.
variable (members : Text → List Text)

def groupStep (groups : Groups) : GroupEvent → Option Groups
  | .start group cached defaultTag =>
      match groups group with
      | some (.selector _) =>
          (selectorStart (members group) cached defaultTag).map fun tag =>
            Function.update groups group (some (.selector (some tag)))
      | _ => none
  | .selectOutbound group tag =>
      match groups group with
      | some (.selector _) =>
          if tag ∈ members group then
            some (Function.update groups group (some (.selector (some tag))))
          else none
      | _ => none
  | .performUpdateCheck group supports delayOf =>
      match groups group with
      | some (.urlTest tolerance selected) =>
          some (Function.update groups group (some (.urlTest tolerance fun network =>
            updateSelected tolerance (supports network) delayOf (members group)
              (selected network))))
      | _ => none

/-- The group has selected among its outbounds, or nothing yet. -/
def Group.Valid (tags : List Text) : Group → Prop
  | .selector selected => ∀ t ∈ selected, t ∈ tags
  | .urlTest _ selected => ∀ network, ∀ t ∈ selected network, t ∈ tags

def GroupsValid (groups : Groups) : Prop :=
  ∀ tag group, groups tag = some group → group.Valid (members tag)

variable {members}

private theorem foldl_mem {ι : Type} {tolerance : UInt16} {supports : ι → Bool}
    {delayOf : ι → Option UInt16} {l : List ι} {min : UInt16 × Option ι} {c : ι}
    (h : (l.foldl (consider tolerance supports delayOf) min).2 = some c) :
    min.2 = some c ∨ c ∈ l := by
  induction l generalizing min with
  | nil => exact .inl h
  | cons d rest ih =>
      rcases ih h with hmin | hmem
      · rcases consider_cases with ⟨hsame, -⟩ | ⟨delay, -, -, -, hnext⟩
        · rw [hsame] at hmin
          exact .inl hmin
        · rw [hnext] at hmin
          cases hmin
          exact .inr List.mem_cons_self
      · exact .inr (List.mem_cons_of_mem d hmem)

private theorem select_mem {ι : Type} {tolerance : UInt16} {supports : ι → Bool}
    {delayOf : ι → Option UInt16} {outbounds : List ι} {selected : Option ι} {c : ι}
    (h : (select tolerance supports delayOf outbounds selected).1 = some c) :
    selected = some c ∨ c ∈ outbounds := by
  rw [select] at h
  split at h
  · rename_i outbound hmin
    cases h
    rcases foldl_mem hmin with hstart | hmem
    · refine .inl ?_
      unfold selectStart at hstart
      split at hstart
      · cases hstart
      · split at hstart
        · cases hstart
        · exact hstart
    · exact .inr hmem
  · exact .inr (List.mem_of_find?_eq_some h)

private theorem updateSelected_mem {ι : Type} {tolerance : UInt16} {supports : ι → Bool}
    {delayOf : ι → Option UInt16} {outbounds : List ι} {selected : Option ι}
    (hselected : ∀ s ∈ selected, s ∈ outbounds) :
    ∀ c ∈ updateSelected tolerance supports delayOf outbounds selected, c ∈ outbounds := by
  intro c hc
  unfold updateSelected at hc
  split at hc
  · exact hselected c hc
  · rename_i outbound hselect
    split at hc
    · cases hc
      rcases select_mem hselect with hs | hmem
      · exact hselected c hs
      · exact hmem
    · exact hselected c hc

private theorem selectorStart_mem {tags : List Text} {cached : Option Text} {defaultTag tag : Text}
    (h : selectorStart tags cached defaultTag = some tag) : tag ∈ tags := by
  rw [selectorStart] at h
  split at h
  · rename_i t hcached
    cases h
    simpa using (Option.filter_eq_some_iff.1 hcached).2
  · split at h
    · exact List.mem_of_find?_eq_some h
    · exact List.mem_of_mem_head? h

theorem GroupsValid.update {groups : Groups} (h : GroupsValid members groups) {tag : Text}
    {group : Group} (hgroup : group.Valid (members tag)) :
    GroupsValid members (Function.update groups tag (some group)) := by
  intro t g hg
  by_cases ht : t = tag
  · subst ht
    rw [Function.update_self] at hg
    cases hg
    exact hgroup
  · rw [Function.update_of_ne ht] at hg
    exact h t g hg

theorem GroupsValid.step {groups groups' : Groups} {e : GroupEvent} (h : GroupsValid members groups)
    (hstep : groupStep members groups e = some groups') : GroupsValid members groups' := by
  cases e with
  | start group cached defaultTag =>
      simp only [groupStep] at hstep
      split at hstep
      · obtain ⟨tag, htag, rfl⟩ := Option.map_eq_some_iff.1 hstep
        refine h.update ?_
        intro t ht
        cases ht
        exact selectorStart_mem htag
      · cases hstep
  | selectOutbound group tag =>
      simp only [groupStep] at hstep
      split at hstep
      · split at hstep
        · rename_i htag
          cases hstep
          refine h.update ?_
          intro t ht
          cases ht
          exact htag
        · cases hstep
      · cases hstep
  | performUpdateCheck group supports delayOf =>
      simp only [groupStep] at hstep
      split at hstep
      · rename_i tolerance selected hgroup
        cases hstep
        refine h.update ?_
        intro network
        exact updateSelected_mem (h group _ hgroup network)
      · cases hstep

theorem Group.Valid.now {tags : List Text} {group : Group} (h : group.Valid tags) :
    group.now tags ∈ tags ∨ group.now tags = [] := by
  cases group with
  | selector selected =>
      cases selected with
      | none =>
          cases tags with
          | nil => exact .inr rfl
          | cons t rest => exact .inl List.mem_cons_self
      | some t => exact .inl (h t rfl)
  | urlTest tolerance selected =>
      rw [Group.now]
      cases htcp : selected .tcp with
      | some t => exact .inl (h .tcp t htcp)
      | none =>
          cases hudp : selected .udp with
          | some t => exact .inl (h .udp t hudp)
          | none => exact .inr rfl

end GroupRuns

/-! ## Following groups -/

section Follow

-- `find` is `OutboundManager.Outbound`; `now k` what the groups answer at the `k`-th question.
variable (find : Text → Option Component) (now : Nat → Component → Option Text)

/-- The loop of `newTrackerMetadata`, from the question `k` on: the outbounds that it visits with
the tags it found them by. -/
def visitGroups : Nat → Nat → Text → Option (List (Text × Component))
  | 0, _, _ => none
  | fuel + 1, k, next =>
      match find next with
      | none => some []
      | some detour =>
          match now k detour with
          | none => some [(next, detour)]
          | some tag => (visitGroups fuel (k + 1) tag).map ((next, detour) :: ·)

/-- The part of `TrackerMetadata` that the loop fills in. -/
structure TrackerMetadata where
  chain : List Text
  outbound : Text
  outboundType : Text
  deriving DecidableEq

def newTrackerMetadata (fuel : Nat) (next : Text) : Option TrackerMetadata :=
  (visitGroups find now fuel 0 next).map fun visited =>
    { chain := (visited.map Prod.fst).reverse
      outbound := (visited.getLast?.map fun v => v.2.tag).getD []
      outboundType := (visited.getLast?.map fun v => v.2.type).getD [] }

/-- `group.RealTag` -/
def realTag : Nat → Nat → Text → Component → Option Text
  | 0, _, _, _ => none
  | fuel + 1, k, tag, detour =>
      match now k detour with
      | none => some tag
      | some tag =>
          match find tag with
          | none => some tag
          | some detour => realTag fuel (k + 1) tag detour

variable {find now} {rank : Text → Nat}

private theorem visitGroups_of_missing {fuel k : Nat} {next : Text} (hfuel : 0 < fuel)
    (hnext : find next = none) : visitGroups find now fuel k next = some [] := by
  obtain ⟨fuel, rfl⟩ : ∃ n, fuel = n + 1 := ⟨fuel - 1, by omega⟩
  rw [visitGroups, hnext]

section Ends

-- A group answers with an outbound of a smaller rank, or with one that is not there.
variable (hnow : ∀ k t c u, find t = some c → now k c = some u → find u = none ∨ rank u < rank t)
include hnow

private theorem visitGroups_ends (fuel k : Nat) (next : Text) (hfuel : rank next + 1 < fuel) :
    ∃ visited, visitGroups find now fuel k next = some visited ∧
      (∀ v ∈ visited, find v.1 = some v.2 ∧ rank v.1 ≤ rank next) ∧
      (visited.map Prod.fst).Pairwise fun t u => rank u < rank t := by
  induction fuel generalizing k next with
  | zero => omega
  | succ fuel ih =>
      cases hdetour : find next with
      | none =>
          rw [visitGroups_of_missing (Nat.succ_pos fuel) hdetour]
          exact ⟨[], rfl, nofun, .nil⟩
      | some detour =>
          rw [visitGroups, hdetour]
          cases hgroup : now k detour with
          | none =>
              refine ⟨[(next, detour)], by simp only [hgroup], ?_, List.pairwise_singleton _ _⟩
              intro v hv
              rw [List.mem_singleton.1 hv]
              exact ⟨hdetour, Nat.le_refl _⟩
          | some tag =>
              simp only [hgroup]
              rcases hnow k next detour tag hdetour hgroup with hmissing | hrank
              · rw [visitGroups_of_missing (by omega) hmissing]
                refine ⟨[(next, detour)], rfl, ?_, List.pairwise_singleton _ _⟩
                intro v hv
                rw [List.mem_singleton.1 hv]
                exact ⟨hdetour, Nat.le_refl _⟩
              · obtain ⟨visited, hvisited, hfound, hsorted⟩ := ih (k + 1) tag (by omega)
                rw [hvisited]
                refine ⟨(next, detour) :: visited, rfl, ?_, ?_⟩
                · intro v hv
                  rcases List.mem_cons.1 hv with rfl | hv
                  · exact ⟨hdetour, Nat.le_refl _⟩
                  · have hv := hfound v hv
                    exact ⟨hv.1, by omega⟩
                · rw [List.map_cons, List.pairwise_cons]
                  refine ⟨?_, hsorted⟩
                  intro t ht
                  obtain ⟨v, hv, rfl⟩ := List.mem_map.1 ht
                  have hv := hfound v hv
                  change rank v.1 < rank next
                  omega

private theorem realTag_ends (fuel k : Nat) (tag : Text) (detour : Component)
    (hdetour : find tag = some detour)
    (hfuel : rank tag < fuel) : (realTag find now fuel k tag detour).isSome = true := by
  induction fuel generalizing k tag detour with
  | zero => omega
  | succ fuel ih =>
      rw [realTag]
      cases hgroup : now k detour with
      | none => rfl
      | some next =>
          cases hnext : find next with
          | none => simp only [hnext, Option.isSome_some]
          | some outbound =>
              simp only [hnext]
              rcases hnow k tag detour next hdetour hgroup with hmissing | hrank
              · rw [hnext] at hmissing
                cases hmissing
              · exact ih (k + 1) next outbound hnext (by omega)

end Ends

end Follow

def groupMembers (managers : OutboundManager × EndpointManager) (tag : Text) : List Text :=
  ((outboundOf managers tag).map fun c => c.dependencies).getD []

def groupNow (groups : Groups) (c : Component) : Option Text :=
  (groups c.tag).map fun group => group.now c.dependencies

/-- After a start that succeeded, the loops that follow groups end, whatever the groups select
meanwhile: the chain of a connection leads through outbounds each of which was started before the
next. -/
theorem groups_lead_to_outbound {final : Text} {fallback : Except Text Behaviour}
    {outbounds endpoints : List Entry} {order : List Component}
    {m : OutboundManager × EndpointManager}
    (hlaunch : launch final fallback outbounds endpoints = (order, .ok m)) {created : Groups}
    (hcreated : GroupsValid (groupMembers m) created) {views : Nat → Groups}
    (hviews : ∀ k, Reachable (groupStep (groupMembers m)) created (views k)) (next : Text) :
    (∃ metadata,
      newTrackerMetadata (outboundOf m) (fun k => groupNow (views k)) (order.length + 2) next =
          some metadata ∧
        (∀ t ∈ metadata.chain, t ∈ order.map Component.tag) ∧
        metadata.chain.Pairwise fun t u =>
          (order.map Component.tag).idxOf t < (order.map Component.tag).idxOf u) ∧
      ∀ detour, outboundOf m next = some detour →
        (realTag (outboundOf m) (fun k => groupNow (views k)) (order.length + 2) 0 next
          detour).isSome = true := by
  obtain ⟨components, horder, hfound⟩ := launch_found hlaunch
  have hnow : ∀ k t c u, outboundOf m t = some c → groupNow (views k) c = some u →
      outboundOf m u = none ∨
        (order.map Component.tag).idxOf u < (order.map Component.tag).idxOf t := by
    intro k t c u hc hu
    obtain ⟨hmem, rfl, -⟩ := hfound t c hc
    obtain ⟨group, hgroup, rfl⟩ := Option.map_eq_some_iff.1 hu
    have hvalid := (hviews k).invariant hcreated (fun _ _ _ h hstep => h.step hstep) c.tag group hgroup
    rw [groupMembers, hc] at hvalid
    rcases hvalid.now with hmember | hnone
    · exact .inr (horder.idxOf_lt hmem hmember)
    · refine .inl (Option.eq_none_iff_forall_ne_some.2 ?_)
      intro d hd
      exact (hfound _ d hd).2.2 hnone
  have hrank : (order.map Component.tag).idxOf next ≤ order.length := by
    simpa using List.idxOf_le_length (a := next) (l := order.map Component.tag)
  refine ⟨?_, fun detour hdetour => realTag_ends hnow _ 0 next detour hdetour (by omega)⟩
  obtain ⟨visited, hvisited, hvisits, hsorted⟩ := visitGroups_ends hnow (order.length + 2) 0 next
    (by omega)
  refine ⟨_, by rw [newTrackerMetadata, hvisited, Option.map_some], ?_, ?_⟩
  · intro t ht
    obtain ⟨v, hv, rfl⟩ := List.mem_map.1 (List.mem_reverse.1 ht)
    obtain ⟨hmem, htag, -⟩ := hfound v.1 v.2 (hvisits v hv).1
    exact List.mem_map.2 ⟨v.2, hmem, htag⟩
  · exact List.pairwise_reverse.2 hsorted

def selectorEntries : List Entry :=
  [⟨['p'], "selector".toList, .ok ⟨[['d']], none, none⟩⟩,
    ⟨['d'], "direct".toList, .ok ⟨[], none, none⟩⟩]

def selectorGroups : Groups :=
  Function.update (fun _ => none) ['p'] (some (.selector none))

theorem groups_lead_to_outbound_at_selector :
    ∃ order m metadata, launch [] (.error []) selectorEntries [] = (order, .ok m) ∧
      newTrackerMetadata (outboundOf m) (fun _ => groupNow selectorGroups) (order.length + 2) ['p'] =
        some metadata := by
  have hcreated : ∀ members, GroupsValid members selectorGroups := by
    intro members
    refine GroupsValid.update ?_ nofun
    exact nofun
  obtain ⟨metadata, hmetadata, -⟩ := (groups_lead_to_outbound
    (show launch [] (.error []) selectorEntries [] = (_, .ok _) from rfl) (hcreated _)
    (fun _ => .refl selectorGroups) ['p']).1
  exact ⟨_, _, metadata, rfl, hmetadata⟩

end SingBoxPython.Core
