import Mathlib.Data.List.Nodup
import Mathlib.Data.List.Perm.Subperm
import Mathlib.Data.List.Chain
import Mathlib.Logic.Relation

/-!
# Starting things that depend on each other

Things with tags, each of which may depend on the tags of others.  They are started in rounds: a
round goes through all of them and starts those whose dependencies are started.  What the rounds
reach is the least set that is closed under dependencies, in an order that respects them; where they
get stuck, following the first dependency that is not started leads to a missing thing or around a
cycle.
-/

namespace SingBoxPython.Framework

structure Dependencies (ι κ : Type) where
  items : List ι
  tag : ι → κ
  dependencies : ι → List κ

namespace Dependencies

variable {ι κ : Type} (g : Dependencies ι κ)

def tags (order : List ι) : List κ :=
  order.map g.tag

/-- The tags that can be started: those of things whose dependencies can be started. -/
inductive Startable : κ → Prop
  | intro {a : ι} (ha : a ∈ g.items) (hdeps : ∀ t ∈ g.dependencies a, Startable t) :
      Startable (g.tag a)

/-- An order in which things were started: each tag once, and each thing after its dependencies. -/
inductive InOrder : List ι → Prop
  | nil : InOrder []
  | snoc {order : List ι} {a : ι} (h : InOrder order) (ha : a ∈ g.items)
      (hnew : g.tag a ∉ g.tags order) (hdeps : ∀ t ∈ g.dependencies a, t ∈ g.tags order) :
      InOrder (order ++ [a])

variable {g}

private theorem tags_append (order : List ι) (a : ι) : g.tags (order ++ [a]) = g.tags order ++
    [g.tag a] :=
  List.map_append

theorem InOrder.subset {order : List ι} (h : g.InOrder order) : order ⊆ g.items := by
  induction h with
  | nil => exact List.nil_subset _
  | snoc _ ha _ _ ih =>
      intro b hb
      rcases List.mem_append.1 hb with hb | hb
      · exact ih hb
      · rw [List.mem_singleton.1 hb]
        exact ha

theorem InOrder.nodup {order : List ι} (h : g.InOrder order) : (g.tags order).Nodup := by
  induction h with
  | nil => exact List.nodup_nil
  | snoc _ _ hnew _ ih =>
      rw [tags_append, ← List.concat_eq_append]
      exact ih.concat hnew

private theorem InOrder.startable {order : List ι} (h : g.InOrder order) {t : κ}
    (ht : t ∈ g.tags order) : g.Startable t := by
  induction h generalizing t with
  | nil => cases ht
  | snoc _ ha _ hdeps ih =>
      rw [tags_append] at ht
      rcases List.mem_append.1 ht with ht | ht
      · exact ih ht
      · rw [List.mem_singleton.1 ht]
        exact .intro ha fun u hu => ih (hdeps u hu)

theorem InOrder.before {order : List ι} (h : g.InOrder order) {pre post : List ι} {a : ι}
    (hsplit : order = pre ++ a :: post) : ∀ t ∈ g.dependencies a, t ∈ g.tags pre := by
  induction h generalizing post with
  | nil => exact absurd hsplit.symm (by simp)
  | @snoc order b _ _ _ hdeps ih =>
      rcases List.eq_nil_or_concat post with rfl | ⟨post, c, rfl⟩
      · obtain ⟨hpre, hb⟩ := List.append_inj' hsplit rfl
        rw [← hpre, ← List.head_eq_of_cons_eq hb]
        exact hdeps
      · have hlast : order ++ [b] = (pre ++ a :: post) ++ [c] := by simpa using hsplit
        exact ih (List.append_inj' hlast rfl).1

theorem InOrder.idxOf_lt [BEq κ] [LawfulBEq κ] {order : List ι} (h : g.InOrder order) {a : ι}
    (ha : a ∈ order) {t : κ} (ht : t ∈ g.dependencies a) :
    (g.tags order).idxOf t < (g.tags order).idxOf (g.tag a) := by
  obtain ⟨pre, post, rfl⟩ := List.append_of_mem ha
  have hmem : t ∈ pre.map g.tag := h.before rfl t ht
  have hnew : g.tag a ∉ pre.map g.tag := by
    have hnodup := h.nodup
    rw [tags, List.map_append, List.map_cons, List.nodup_middle, List.nodup_cons] at hnodup
    exact fun hpre => hnodup.1 (List.mem_append_left _ hpre)
  rw [tags, List.map_append, List.map_cons, List.idxOf_append_of_mem hmem,
    List.idxOf_append_of_notMem hnew]
  exact Nat.lt_of_lt_of_le (List.idxOf_lt_length_of_mem hmem) (Nat.le_add_right _ _)

theorem InOrder.subperm {order : List ι} (h : g.InOrder order) :
    (g.tags order).Subperm (g.tags g.items) :=
  List.subperm_of_subset h.nodup (List.map_subset g.tag h.subset)

theorem InOrder.length_le {order : List ι} (h : g.InOrder order) :
    order.length ≤ g.items.length := by
  simpa [tags] using h.subperm.length_le

theorem InOrder.perm {order : List ι} (h : g.InOrder order)
    (hlength : order.length = g.items.length) : (g.tags order).Perm (g.tags g.items) :=
  h.subperm.perm_of_length_le (by simp [tags, hlength])

/-- As many things were started as there are exactly when no two have the same tag and each tag is
started. -/
theorem InOrder.length_eq_iff {order : List ι} (h : g.InOrder order) :
    order.length = g.items.length ↔
      (g.tags g.items).Nodup ∧ ∀ a ∈ g.items, g.tag a ∈ g.tags order := by
  constructor
  · intro hlength
    have hperm := h.perm hlength
    exact ⟨hperm.nodup_iff.1 h.nodup, fun a ha => hperm.mem_iff.2 (List.mem_map_of_mem ha)⟩
  · rintro ⟨hnodup, hall⟩
    have hback : (g.tags g.items).Subperm (g.tags order) := by
      refine List.subperm_of_subset hnodup ?_
      intro t ht
      obtain ⟨a, ha, rfl⟩ := List.mem_map.1 ht
      exact hall a ha
    have hle : g.items.length ≤ order.length := by simpa [tags] using hback.length_le
    exact Nat.le_antisymm h.length_le hle

/-! ## Rounds -/

variable [DecidableEq κ] (g) (starts : ι → Bool)

/-- Not started, while all its dependencies are. -/
def ready (order : List ι) (a : ι) : Bool :=
  decide (g.tag a ∉ g.tags order) &&
    (g.dependencies a).all fun t => decide (t ∈ g.tags order)

/-- One round over the given things: what is started after it, and the thing whose start failed. -/
def pass : List ι → List ι → List ι × Option ι
  | [], order => (order, none)
  | a :: rest, order =>
      if g.ready order a then
        if starts a then pass rest (order ++ [a]) else (order ++ [a], some a)
      else pass rest order

inductive Ending (ι : Type)
  | complete
  | failed (a : ι)
  | stuck
  | outOfFuel

/-- Rounds until as many tags are started as there are things, or a round starts nothing. -/
def rounds : Nat → List ι → List ι × Ending ι
  | 0, order => (order, .outOfFuel)
  | fuel + 1, order =>
      match g.pass starts g.items order with
      | (after, some a) => (after, .failed a)
      | (after, none) =>
          if after.length = g.items.length then (after, .complete)
          else if order.length < after.length then rounds fuel after
          else (after, .stuck)

variable {g starts}

private theorem ready_iff {order : List ι} {a : ι} :
    g.ready order a = true ↔
      g.tag a ∉ g.tags order ∧ ∀ t ∈ g.dependencies a, t ∈ g.tags order := by
  simp [ready]

variable (starts) in
private theorem pass_order {l order : List ι} (hl : l ⊆ g.items) (h : g.InOrder order) :
    g.InOrder (g.pass starts l order).1 := by
  induction l generalizing order with
  | nil => exact h
  | cons a rest ih =>
      have hrest := List.subset_of_cons_subset hl
      rw [pass]
      split
      · rename_i hready
        obtain ⟨hnew, hdeps⟩ := ready_iff.1 hready
        have hnext := h.snoc (hl List.mem_cons_self) hnew hdeps
        split
        · exact ih hrest hnext
        · exact hnext
      · exact ih hrest h

variable (g starts) in
private theorem length_le_pass (l order : List ι) : order.length ≤
    (g.pass starts l order).1.length := by
  induction l generalizing order with
  | nil => exact Nat.le_refl _
  | cons a rest ih =>
      rw [pass]
      split
      · split
        · have hle := ih (order ++ [a])
          rw [List.length_append] at hle
          omega
        · simp
      · exact ih order

private theorem not_ready_of_pass {l order after : List ι}
    (h : g.pass starts l order = (after, none)) (hlength : ¬ order.length < after.length) :
    after = order ∧ ∀ a ∈ l, g.ready order a = false := by
  induction l with
  | nil =>
      cases h
      exact ⟨rfl, nofun⟩
  | cons a rest ih =>
      rw [pass] at h
      split at h
      · split at h
        · have hle := length_le_pass g starts rest (order ++ [a])
          rw [h, List.length_append] at hle
          simp only [List.length_singleton] at hle
          omega
        · cases h
      · rename_i hready
        obtain ⟨hafter, hrest⟩ := ih h
        refine ⟨hafter, ?_⟩
        intro b hb
        rcases List.mem_cons.1 hb with rfl | hb
        · simpa using hready
        · exact hrest b hb

private theorem pass_starts {l order after : List ι} (horder : ∀ a ∈ order, starts a = true)
    {failed : Option ι} (h : g.pass starts l order = (after, failed)) :
    (failed = none → ∀ a ∈ after, starts a = true) ∧
      ∀ a, failed = some a →
        ∃ pre, after = pre ++ [a] ∧ starts a = false ∧ ∀ b ∈ pre, starts b = true := by
  induction l generalizing order with
  | nil =>
      cases h
      exact ⟨fun _ => horder, nofun⟩
  | cons a rest ih =>
      rw [pass] at h
      split at h
      · split at h
        · rename_i hstarts
          refine ih ?_ h
          intro b hb
          rcases List.mem_append.1 hb with hb | hb
          · exact horder b hb
          · rw [List.mem_singleton.1 hb]
            exact hstarts
        · rename_i hstarts
          cases h
          refine ⟨nofun, ?_⟩
          intro b hb
          cases hb
          exact ⟨order, rfl, by simpa using hstarts, horder⟩
      · exact ih horder h

structure RoundsSpec (g : Dependencies ι κ) (starts : ι → Bool) (r : List ι × Ending ι) : Prop where
  order : g.InOrder r.1
  complete : r.2 = .complete → r.1.length = g.items.length ∧ ∀ a ∈ r.1, starts a = true
  failed : ∀ a, r.2 = .failed a →
    ∃ pre, r.1 = pre ++ [a] ∧ starts a = false ∧ ∀ b ∈ pre, starts b = true
  stuck : r.2 = .stuck → r.1.length ≠ g.items.length ∧ ∀ a ∈ g.items, g.ready r.1 a = false
  fueled : r.2 ≠ .outOfFuel

theorem rounds_spec {fuel : Nat} {order : List ι} (h : g.InOrder order)
    (horder : ∀ a ∈ order, starts a = true) (hfuel : g.items.length < fuel + order.length) :
    RoundsSpec g starts (g.rounds starts fuel order) := by
  -- Each further round has started something, so the fuel is not used up.
  induction fuel generalizing order with
  | zero =>
      have hle := h.length_le
      omega
  | succ fuel ih =>
      have hpass := pass_order starts (List.Subset.refl g.items) h
      rw [rounds]
      split
      · rename_i after a heq
        rw [heq] at hpass
        refine ⟨hpass, nofun, ?_, nofun, nofun⟩
        intro b hb
        cases hb
        exact (pass_starts horder heq).2 a rfl
      · rename_i after heq
        rw [heq] at hpass
        have hstarts := (pass_starts horder heq).1 rfl
        split
        · rename_i hlength
          exact ⟨hpass, fun _ => ⟨hlength, hstarts⟩, nofun, nofun, nofun⟩
        · rename_i hlength
          split
          · rename_i hmore
            exact ih hpass hstarts (by omega)
          · rename_i hmore
            obtain ⟨rfl, hready⟩ := not_ready_of_pass heq hmore
            exact ⟨hpass, nofun, nofun, fun _ => ⟨hlength, hready⟩, nofun⟩

/-- Where nothing is ready, exactly what can be started is started. -/
theorem InOrder.startable_iff {order : List ι} (h : g.InOrder order)
    (hready : ∀ a ∈ g.items, g.ready order a = false) {t : κ} :
    g.Startable t ↔ t ∈ g.tags order := by
  refine ⟨?_, h.startable⟩
  intro ht
  induction ht with
  | @intro a ha _ ih =>
      by_contra hnew
      have hnot := hready a ha
      rw [ready_iff.2 ⟨hnew, ih⟩] at hnot
      cases hnot

variable (g starts) in
/-- The rounds are complete exactly when no two things have the same tag, all can be started and
every start succeeds. -/
theorem rounds_complete_iff :
    (g.rounds starts (g.items.length + 1) []).2 = .complete ↔
      (g.tags g.items).Nodup ∧ ∀ a ∈ g.items, g.Startable (g.tag a) ∧ starts a = true := by
  have hspec : RoundsSpec g starts (g.rounds starts (g.items.length + 1) []) :=
    rounds_spec .nil nofun (by simp)
  constructor
  · intro hcomplete
    obtain ⟨hlength, hstarts⟩ := hspec.complete hcomplete
    obtain ⟨hnodup, hall⟩ := hspec.order.length_eq_iff.1 hlength
    refine ⟨hnodup, ?_⟩
    intro a ha
    refine ⟨hspec.order.startable (hall a ha), ?_⟩
    obtain ⟨b, hb, hba⟩ := List.mem_map.1 (hall a ha)
    have hsame : b = a := List.inj_on_of_nodup_map hnodup (hspec.order.subset hb) ha hba
    rw [← hsame]
    exact hstarts b hb
  · rintro ⟨hnodup, hall⟩
    cases hend : (g.rounds starts (g.items.length + 1) []).2 with
    | complete => rfl
    | failed a =>
        obtain ⟨pre, horder, hfails, -⟩ := hspec.failed a hend
        have ha : a ∈ g.items := hspec.order.subset (by rw [horder]; simp)
        rw [(hall a ha).2] at hfails
        cases hfails
    | stuck =>
        obtain ⟨hlength, hready⟩ := hspec.stuck hend
        refine absurd (hspec.order.length_eq_iff.2 ⟨hnodup, ?_⟩) hlength
        exact fun a ha => (hspec.order.startable_iff hready).1 (hall a ha).1
    | outOfFuel => exact absurd hend hspec.fueled

/-! ## Where the rounds get stuck -/

variable (g) in
/-- The thing with tag `t` waits for tag `u`, and neither is started. -/
def Waits (order : List ι) (t u : κ) : Prop :=
  ∃ a ∈ g.items, g.tag a = t ∧ u ∈ g.dependencies a ∧ t ∉ g.tags order ∧ u ∉ g.tags order

inductive Diagnosis (κ : Type)
  | circular (tree : List κ) (t : κ)
  | missing (t dependent : κ)
  | endless

variable [Inhabited κ] (g) (named : κ → Option ι) (order : List ι)

/-- Follows the first dependency that is not started, through the things that `named` knows. -/
def follow : Nat → List κ → ι → Diagnosis κ
  | 0, _, _ => .endless
  | fuel + 1, tree, current =>
      let problem := ((g.dependencies current).find? fun t => decide (t ∉ g.tags order)).getD default
      if problem ∈ tree then .circular tree problem
      else
        match named problem with
        | none => .missing problem (g.tag current)
        | some next => follow fuel (tree ++ [problem]) next

structure Truthful (d : Diagnosis κ) : Prop where
  circular : ∀ tree t, d = .circular tree t →
    t ∈ tree ∧ (tree ++ [t]).IsChain (g.Waits order)
  missing : ∀ t dependent, d = .missing t dependent →
    named t = none ∧ g.Waits order dependent t
  ends : d ≠ .endless

variable {g named order}

private theorem exists_problem {a : ι} (hready : g.ready order a = false)
    (ha : g.tag a ∉ g.tags order) :
    ((g.dependencies a).find? fun t => decide (t ∉ g.tags order)).getD default ∈
        g.dependencies a ∧
      ((g.dependencies a).find? fun t => decide (t ∉ g.tags order)).getD default ∉
        g.tags order := by
  cases hfind : (g.dependencies a).find? fun t => decide (t ∉ g.tags order) with
  | none =>
      exfalso
      have hdeps : ∀ t ∈ g.dependencies a, t ∈ g.tags order := by simpa using hfind
      rw [ready_iff.2 ⟨ha, hdeps⟩] at hready
      cases hready
  | some t =>
      have ht : t ∉ g.tags order := by simpa using List.find?_some hfind
      exact ⟨List.mem_of_find?_eq_some hfind, ht⟩

private theorem follow_path_truthful (hnamed : ∀ t a, named t = some a → a ∈ g.items ∧ g.tag a = t)
    (hready : ∀ a ∈ g.items, g.ready order a = false) {fuel : Nat} {pre : List κ} {current : ι}
    (hcurrent : current ∈ g.items) (hnew : g.tag current ∉ g.tags order)
    (hchain : (pre ++ [g.tag current]).IsChain (g.Waits order))
    (hnodup : (pre ++ [g.tag current]).Nodup) (hsubset : pre ++ [g.tag current] ⊆ g.tags g.items)
    (hfuel : g.items.length < fuel + (pre ++ [g.tag current]).length) :
    g.Truthful named order (g.follow named order fuel (pre ++ [g.tag current]) current) := by
  -- The path never visits a tag twice, so it is not longer than the list of things.
  induction fuel generalizing pre current with
  | zero =>
      have hle := (List.subperm_of_subset hnodup hsubset).length_le
      simp only [tags, List.length_map] at hle
      omega
  | succ fuel ih =>
      obtain ⟨hdep, hproblem⟩ := exists_problem (hready current hcurrent) hnew
      rw [follow]
      generalize ((g.dependencies current).find? fun t => decide (t ∉ g.tags order)).getD default =
        problem at hdep hproblem
      have hwaits : g.Waits order (g.tag current) problem :=
        ⟨current, hcurrent, rfl, hdep, hnew, hproblem⟩
      have hlonger : (pre ++ [g.tag current] ++ [problem]).IsChain (g.Waits order) := by
        refine List.isChain_append.2 ⟨hchain, List.isChain_singleton problem, ?_⟩
        intro t ht u hu
        rw [List.getLast?_concat] at ht
        cases ht
        cases hu
        exact hwaits
      split
      · rename_i hmem
        refine ⟨?_, nofun, nofun⟩
        intro tree t heq
        cases heq
        exact ⟨hmem, hlonger⟩
      · rename_i hmem
        split
        · rename_i hnone
          refine ⟨nofun, ?_, nofun⟩
          intro t dependent heq
          cases heq
          exact ⟨hnone, hwaits⟩
        · rename_i next hnext
          obtain ⟨hitem, htag⟩ := hnamed problem next hnext
          subst htag
          refine ih hitem hproblem hlonger ?_ ?_ ?_
          · rw [← List.concat_eq_append]
            exact hnodup.concat hmem
          · refine List.append_subset.2 ⟨hsubset, ?_⟩
            intro t ht
            rw [List.mem_singleton.1 ht]
            exact List.mem_map_of_mem hitem
          · simp only [List.length_append, List.length_singleton] at hfuel ⊢
            omega

/-- Followed from anything that is not started, the path gives a diagnosis. -/
theorem follow_truthful (hnamed : ∀ t a, named t = some a → a ∈ g.items ∧ g.tag a = t)
    (hready : ∀ a ∈ g.items, g.ready order a = false) {current : ι} (hcurrent : current ∈ g.items)
    (hnew : g.tag current ∉ g.tags order) :
    g.Truthful named order
      (g.follow named order (g.items.length + 1) [g.tag current] current) := by
  rw [← List.nil_append [g.tag current]]
  refine follow_path_truthful hnamed hready hcurrent hnew (List.isChain_singleton _)
    (List.pairwise_singleton _ _) ?_ ?_
  · intro t ht
    rw [List.nil_append, List.mem_singleton] at ht
    exact ht ▸ List.mem_map_of_mem hcurrent
  · simp only [List.nil_append, List.length_singleton]
    omega

omit [DecidableEq κ] [Inhabited κ] in
theorem cycle_of_chain {tree : List κ} {t : κ} (ht : t ∈ tree)
    (hchain : (tree ++ [t]).IsChain (g.Waits order)) :
    Relation.TransGen (g.Waits order) t t := by
  obtain ⟨pre, post, rfl⟩ := List.append_of_mem ht
  have hcycle : (t :: (post ++ [t])).IsChain (Relation.TransGen (g.Waits order)) := by
    rw [List.append_assoc, List.cons_append] at hchain
    exact hchain.right_of_append.imp fun _ _ h => .single h
  have hlast : t ∈ post ++ [t] := List.mem_append_right post (List.mem_singleton_self t)
  exact List.rel_of_pairwise_cons hcycle.pairwise hlast

end Dependencies

end SingBoxPython.Framework
