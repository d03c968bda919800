import MesquitteClient.TopicManager
import MesquitteClient.TrieNodes
import Mathlib.Data.List.Dedup
import Mathlib.Data.List.Perm.Subperm

/-!
# Nodes that a clear leaves behind

The nodes of a topic manager are those of the filters it stores and of
`leftovers`: filters whose subscriptions went with a `clear`, which keeps the
nodes, and whose nodes no `remove` has taken out since (`shaped_run`). Two
things follow. `remove` answers for a path of nodes, so it reports a filter
that is only the beginning of a longer one, or that a clear has emptied
(`remove_true_iff_stored`). And the trie is rid of dead nodes as long as a
clear finds nothing to empty (`trim_run_iff`).
-/

namespace MesquitteClient

namespace TopicManager

open TrieNode (Kept)

/-- The levels of `filter` are the first levels of `other`. -/
def Leads (filter other : String) : Prop := tokenizeTopic filter <+: tokenizeTopic other

instance (filter other : String) : Decidable (Leads filter other) :=
  inferInstanceAs (Decidable (_ <+: _))

def filters (subs : List Subscription) : List String := subs.map (·.topic)

/-- What a call does to the filters left behind. A `remove` that finds nodes
takes out the ones its filter ends. -/
def Op.leave (subs : List Subscription) (left : List String) : Op → List String
  | .add _ => left
  | .remove topic =>
    if ∃ filter ∈ filters subs ++ left, Leads topic filter then
      left.filter fun filter => ¬ Leads filter topic
    else left
  | .clear => left ++ filters subs

/-- The filters left behind after a sequence of calls. -/
def leftovers (ops : List Op) : List String :=
  let lists : List Subscription × List String := ([], [])
  (ops.foldl (fun x op => (op.flat x.1, op.leave x.1 x.2)) lists).2

theorem foldl_flat (ops : List Op) (x : List Subscription × List String) :
    (ops.foldl (fun x op => (op.flat x.1, op.leave x.1 x.2)) x).1 = ops.foldl Op.flat x.1 := by
  induction ops generalizing x with
  | nil => rfl
  | cons op ops ih => exact ih _

theorem leftovers_append (ops : List Op) (op : Op) :
    leftovers (ops ++ [op]) = op.leave (runFlat ops) (leftovers ops) := by
  simp [leftovers, runFlat, foldl_flat]

theorem runFlat_append (ops : List Op) (op : Op) :
    runFlat (ops ++ [op]) = op.flat (runFlat ops) := by
  simp [runFlat]

theorem run_append (ops : List Op) (op : Op) : run (ops ++ [op]) = op.apply (run ops) := by
  simp [run]

theorem tokenizeTopic_ne_nil (topic : String) : tokenizeTopic topic ≠ [] := by
  simp [tokenizeTopic, List.splitOn]

theorem mem_filters (h : sub ∈ subs) : sub.topic ∈ filters subs :=
  List.mem_map.mpr ⟨sub, h, rfl⟩

theorem mem_filters_remove :
    filter ∈ filters (subs.filter fun sub => sub.topic ≠ topic) ↔
      filter ∈ filters subs ∧ filter ≠ topic := by
  constructor
  · intro hf
    obtain ⟨sub, hs, rfl⟩ := List.mem_map.mp hf
    obtain ⟨hs, hdiff⟩ := List.mem_filter.mp hs
    exact ⟨mem_filters hs, of_decide_eq_true hdiff⟩
  · rintro ⟨hf, hdiff⟩
    obtain ⟨sub, hs, rfl⟩ := List.mem_map.mp hf
    exact mem_filters (List.mem_filter.mpr ⟨hs, decide_eq_true hdiff⟩)

-- ---------------------------------------------------------------------------
-- The nodes, from the two lists
-- ---------------------------------------------------------------------------

theorem Refines.subsAt_ne_nil (h : Refines manager subs) :
    manager.store.root.subsAt path ≠ [] ↔ ∃ filter ∈ filters subs, tokenizeTopic filter = path := by
  rw [h path, List.ne_nil_iff_exists_cons]
  constructor
  · rintro ⟨sub, rest, hr⟩
    have hm : sub ∈ PathBag.filed (subs.map fun sub => (tokenizeTopic sub.topic, sub)) path := by
      simp [hr]
    rw [PathBag.mem_filed, List.mem_map] at hm
    obtain ⟨sub', hs, he⟩ := hm
    exact ⟨sub'.topic, mem_filters hs, congrArg Prod.fst he⟩
  · rintro ⟨filter, hf, rfl⟩
    obtain ⟨sub, hs, rfl⟩ := List.mem_map.mp hf
    refine List.exists_cons_of_ne_nil (List.ne_nil_of_mem (a := sub) (PathBag.mem_filed.mpr ?_))
    exact List.mem_map.mpr ⟨sub, hs, rfl⟩

/-- The trie stores one list, and its nodes are those of its filters and of
another list. -/
structure Shaped (manager : TopicManager) (subs : List Subscription) (left : List String) :
    Prop where
  refines : manager.Refines subs
  nodes : ∀ path, manager.store.root.hasNode path = true ↔
    path = [] ∨ ∃ filter ∈ filters subs ++ left, path <+: tokenizeTopic filter
  keyed : manager.store.root.Keyed

theorem shaped_new : new.Shaped [] [] where
  refines := refines_new
  nodes path := by simp [new, filters]
  keyed := TrieNode.keyed_new

theorem Shaped.hasNode_iff (h : Shaped manager subs left) (topic : String) :
    manager.store.root.hasNode (tokenizeTopic topic) = true ↔
      ∃ filter ∈ filters subs ++ left, Leads topic filter := by
  rw [h.nodes, or_iff_right (tokenizeTopic_ne_nil topic)]
  rfl

/-- The two outcomes of `remove`. -/
theorem remove_cases (manager : TopicManager) (topic : String) :
    (manager.store.root.remove (tokenizeTopic topic) = none ∧
        manager.remove topic = (manager, false)) ∨
      (manager.store.root.remove (tokenizeTopic topic) = some (manager.remove topic).1.store.root ∧
        (manager.remove topic).2 = true) := by
  unfold remove
  split
  · rename_i h
    exact .inl ⟨h, rfl⟩
  · rename_i h
    exact .inr ⟨h, rfl⟩

theorem remove_snd (manager : TopicManager) (topic : String) :
    (manager.remove topic).2 = manager.store.root.hasNode (tokenizeTopic topic) := by
  rw [← TrieNode.isSome_remove]
  rcases manager.remove_cases topic with ⟨hn, he⟩ | ⟨hs, ht⟩
  · rw [he, hn, Option.isSome_none]
  · rw [ht, hs, Option.isSome_some]

theorem Shaped.kept_iff (h : Shaped manager subs left) (topic : String) (hne : path ≠ []) :
    Kept manager.store.root (tokenizeTopic topic) path ↔
      ∃ filter ∈ filters (subs.filter fun sub => sub.topic ≠ topic) ++
        left.filter (fun filter => ¬ Leads filter topic), path <+: tokenizeTopic filter := by
  constructor
  · rintro ⟨below, hp, hn, hk⟩
    have hbelow : below ≠ [] := fun he => hne (List.prefix_nil.mp (he ▸ hp))
    by_cases hlead : below <+: tokenizeTopic topic
    · obtain ⟨hdiff, hs⟩ := hk hlead
      obtain ⟨filter, hf, rfl⟩ := h.refines.subsAt_ne_nil.mp hs
      refine ⟨filter, List.mem_append_left _ (mem_filters_remove.mpr ⟨hf, ?_⟩), hp⟩
      rintro rfl
      exact hdiff rfl
    · obtain ⟨filter, hf, hb⟩ := ((h.nodes below).mp hn).resolve_left hbelow
      have hoff : ¬ Leads filter topic := fun ht => hlead (hb.trans ht)
      refine ⟨filter, List.mem_append.mpr ?_, hp.trans hb⟩
      refine (List.mem_append.mp hf).imp (fun hf => mem_filters_remove.mpr ⟨hf, ?_⟩) fun hf => ?_
      · rintro rfl
        exact hoff List.prefix_rfl
      · exact List.mem_filter.mpr ⟨hf, decide_eq_true hoff⟩
  · rintro ⟨filter, hf, hp⟩
    refine ⟨tokenizeTopic filter, hp, ?_, fun hlead => ?_⟩
    · refine (h.nodes _).mpr (.inr ⟨filter, ?_, List.prefix_rfl⟩)
      refine List.mem_append.mpr ((List.mem_append.mp hf).imp (fun hf => ?_) fun hf => ?_)
      · exact (mem_filters_remove.mp hf).1
      · exact (List.mem_filter.mp hf).1
    · rcases List.mem_append.mp hf with hf | hf
      · obtain ⟨hf, hdiff⟩ := mem_filters_remove.mp hf
        exact ⟨by simpa using hdiff, h.refines.subsAt_ne_nil.mpr ⟨filter, hf, rfl⟩⟩
      · exact absurd hlead (of_decide_eq_true (List.mem_filter.mp hf).2)

theorem Shaped.add (h : Shaped manager subs left) (sub : Subscription) :
    (manager.add sub).Shaped (subs ++ [sub]) left where
  refines := h.refines.apply (.add sub)
  nodes path := by
    simp only [TopicManager.add, TrieNode.hasNode_insert, h.nodes, filters, List.map_append,
      List.map_cons, List.map_nil, List.mem_append, List.mem_singleton]
    constructor
    · rintro ((rfl | ⟨filter, hf, hp⟩) | hp)
      · exact .inl rfl
      · exact .inr ⟨filter, hf.imp_left .inl, hp⟩
      · exact .inr ⟨sub.topic, .inl (.inr rfl), hp⟩
    · rintro (rfl | ⟨filter, (hf | rfl) | hf, hp⟩)
      · exact .inl (.inl rfl)
      · exact .inl (.inr ⟨filter, .inl hf, hp⟩)
      · exact .inr hp
      · exact .inl (.inr ⟨filter, .inr hf, hp⟩)
  keyed := h.keyed.insert sub _

theorem Shaped.remove (h : Shaped manager subs left) (topic : String) :
    (manager.remove topic).1.Shaped (subs.filter fun sub => sub.topic ≠ topic)
      ((Op.remove topic).leave subs left) := by
  have hrefines := h.refines.apply (.remove topic)
  rcases manager.remove_cases topic with ⟨hn, he⟩ | ⟨hs, _⟩
  · have hleads : ¬ ∃ filter ∈ filters subs ++ left, Leads topic filter := by
      rw [← h.hasNode_iff, ← TrieNode.isSome_remove, hn]
      exact Bool.false_ne_true
    have hflat : subs.filter (fun sub => sub.topic ≠ topic) = subs := by
      refine List.filter_eq_self.mpr fun sub hsub => decide_eq_true ?_
      rintro rfl
      exact hleads ⟨sub.topic, List.mem_append_left _ (mem_filters hsub), List.prefix_rfl⟩
    rw [he, Op.leave, if_neg hleads, hflat]
    exact h
  · have hleads : ∃ filter ∈ filters subs ++ left, Leads topic filter := by
      rw [← h.hasNode_iff, ← TrieNode.isSome_remove, hs]
      rfl
    refine ⟨hrefines, fun path => ?_, h.keyed.remove hs⟩
    rw [TrieNode.hasNode_remove hs, Op.leave, if_pos hleads]
    by_cases hne : path = []
    · simp [hne]
    · simp only [hne, false_or, h.kept_iff topic hne]

theorem Shaped.clear (h : Shaped manager subs left) :
    manager.clear.Shaped [] (left ++ filters subs) where
  refines := h.refines.apply .clear
  nodes path := by
    simp only [TopicManager.clear, TrieNode.hasNode_clearNode, h.nodes, filters, List.map_nil,
      List.nil_append, List.mem_append, or_comm]
  keyed := TrieNode.Keyed.clearNode _ h.keyed

theorem Shaped.apply (h : Shaped manager subs left) (op : Op) :
    (op.apply manager).Shaped (op.flat subs) (op.leave subs left) := by
  cases op with
  | add sub => exact h.add sub
  | remove topic => exact h.remove topic
  | clear => exact h.clear

theorem shaped_run (ops : List Op) : (run ops).Shaped (runFlat ops) (leftovers ops) := by
  induction ops using List.reverseRecOn with
  | nil => exact shaped_new
  | append_singleton ops op ih =>
    rw [run_append, runFlat_append, leftovers_append]
    exact ih.apply op

-- ---------------------------------------------------------------------------
-- What `remove` returns
-- ---------------------------------------------------------------------------

/-- A subscription with this filter is stored. -/
def Stored (manager : TopicManager) (filter : String) : Prop :=
  ∃ path, ∃ sub ∈ manager.store.root.subsAt path, sub.topic = filter

theorem Refines.stored_iff (h : Refines manager subs) :
    manager.Stored filter ↔ filter ∈ filters subs := by
  constructor
  · rintro ⟨path, sub, hs, rfl⟩
    rw [h path, PathBag.mem_filed, List.mem_map] at hs
    obtain ⟨sub', hm, he⟩ := hs
    obtain ⟨_, rfl⟩ := Prod.mk.inj he
    exact mem_filters hm
  · intro hf
    obtain ⟨sub, hm, rfl⟩ := List.mem_map.mp hf
    refine ⟨tokenizeTopic sub.topic, sub, ?_, rfl⟩
    rw [h, PathBag.mem_filed]
    exact List.mem_map.mpr ⟨sub, hm, rfl⟩

theorem remove_run_true_iff (ops : List Op) (filter : String) :
    ((run ops).remove filter).2 = true ↔
      ∃ other ∈ filters (runFlat ops) ++ leftovers ops, Leads filter other := by
  rw [remove_snd]
  exact (shaped_run ops).hasNode_iff filter

/-- After any calls, `remove` tells whether a subscription with the filter was
stored exactly where one is, or where the filter leads no filter that is
stored or left behind. -/
theorem remove_true_iff_stored (ops : List Op) (filter : String) :
    (((run ops).remove filter).2 = true ↔ (run ops).Stored filter) ↔
      filter ∈ filters (runFlat ops) ∨
        ∀ other ∈ filters (runFlat ops) ++ leftovers ops, ¬ Leads filter other := by
  rw [remove_run_true_iff, (shaped_run ops).refines.stored_iff]
  constructor
  · intro h
    by_cases hf : filter ∈ filters (runFlat ops)
    · exact .inl hf
    · exact .inr fun other ho hl => hf (h.mp ⟨other, ho, hl⟩)
  · rintro (hf | hnone)
    · exact iff_of_true ⟨filter, List.mem_append_left _ hf, List.prefix_rfl⟩ hf
    · refine iff_of_false (fun ⟨other, ho, hl⟩ => hnone other ho hl) fun hf => ?_
      exact hnone filter (List.mem_append_left _ hf) List.prefix_rfl

/-- The beginning of a stored filter, and a filter that was cleared. -/
theorem remove_true_of_not_stored :
    (((run [.add ⟨"a/b", .level0, 1⟩]).remove "a").2 = true ∧
        ¬ (run [.add ⟨"a/b", .level0, 1⟩]).Stored "a") ∧
      ((run [.add ⟨"a", .level0, 1⟩, .clear]).remove "a").2 = true ∧
        ¬ (run [.add ⟨"a", .level0, 1⟩, .clear]).Stored "a" := by
  refine ⟨⟨?_, ?_⟩, ?_, ?_⟩
  · exact (remove_run_true_iff _ _).mpr ⟨"a/b", by decide, by decide⟩
  · rw [(shaped_run _).refines.stored_iff]
    decide
  · exact (remove_run_true_iff _ _).mpr ⟨"a", by decide, by decide⟩
  · rw [(shaped_run _).refines.stored_iff]
    decide

-- ---------------------------------------------------------------------------
-- Dead nodes
-- ---------------------------------------------------------------------------

/-- Below every node but the root something is stored. -/
def Trim (manager : TopicManager) : Prop :=
  ∀ path ≠ [], manager.store.root.hasNode path →
    ∃ below, path <+: below ∧ manager.store.root.subsAt below ≠ []

/-- The levels of the filters of a list, each filter counted once. -/
def levelCount (subs : List Subscription) : Nat :=
  ((filters subs).dedup.flatMap tokenizeTopic).length

theorem Shaped.trim_iff (h : Shaped manager subs left) :
    manager.Trim ↔ ∀ filter ∈ left, ∃ other ∈ filters subs, Leads filter other := by
  constructor
  · intro ht filter hf
    have hn := (h.hasNode_iff filter).mpr ⟨filter, List.mem_append_right _ hf, List.prefix_rfl⟩
    obtain ⟨below, hp, hs⟩ := ht _ (tokenizeTopic_ne_nil filter) hn
    obtain ⟨other, ho, rfl⟩ := h.refines.subsAt_ne_nil.mp hs
    exact ⟨other, ho, hp⟩
  · intro hl path hne hn
    obtain ⟨filter, hf, hp⟩ := ((h.nodes path).mp hn).resolve_left hne
    rcases List.mem_append.mp hf with hf | hf
    · exact ⟨_, hp, h.refines.subsAt_ne_nil.mpr ⟨filter, hf, rfl⟩⟩
    · obtain ⟨other, ho, hlead⟩ := hl filter hf
      exact ⟨_, hp.trans hlead, h.refines.subsAt_ne_nil.mpr ⟨other, ho, rfl⟩⟩

theorem mem_tail_inits {path path' : List String} (hp : path <+: path') (hne : path ≠ []) :
    path ∈ path'.inits.tail := by
  have hm := (List.mem_inits path path').mpr hp
  cases path' with
  | nil => exact absurd (List.prefix_nil.mp hp) hne
  | cons token rest =>
    rw [List.inits_cons] at hm ⊢
    exact (List.mem_cons.mp hm).resolve_left hne

/-- A trie without dead nodes is no larger than the filters it stores. -/
theorem Shaped.size_le (h : Shaped manager subs left) (ht : manager.Trim) :
    manager.store.root.size ≤ 1 + levelCount subs := by
  let starts := (filters subs).dedup.flatMap fun filter => (tokenizeTopic filter).inits.tail
  have hsub : manager.store.root.paths ⊆ [] :: starts := by
    intro path hp
    by_cases hne : path = []
    · exact hne ▸ List.mem_cons_self
    · obtain ⟨below, hb, hs⟩ := ht path hne ((TrieNode.mem_paths h.keyed).mp hp)
      obtain ⟨filter, hf, rfl⟩ := h.refines.subsAt_ne_nil.mp hs
      refine List.mem_cons_of_mem _ (List.mem_flatMap.mpr ⟨filter, List.mem_dedup.mpr hf, ?_⟩)
      exact mem_tail_inits hb hne
  have hlen : starts.length = levelCount subs := by
    simp [starts, levelCount, List.length_flatMap]
  calc manager.store.root.size
      ≤ ([] :: starts).length := ((TrieNode.nodup_paths _ h.keyed).subperm hsub).length_le
    _ = 1 + levelCount subs := by rw [List.length_cons, hlen, Nat.add_comm]

/-- Where no clear finds a subscription, nothing is left behind. -/
theorem leftovers_eq_nil (hc : ∀ pre, pre ++ [.clear] <+: ops → runFlat pre = [])
    (hp : pre <+: ops) : leftovers pre = [] := by
  induction pre using List.reverseRecOn with
  | nil => rfl
  | append_singleton pre op ih =>
    have hleft := ih ((List.prefix_append pre [op]).trans hp)
    rw [leftovers_append, hleft]
    cases op with
    | add sub => rfl
    | remove topic => simp [Op.leave]
    | clear => rw [Op.leave, hc pre hp]; rfl

/-- A sequence of calls leaves no dead node at any point, and the trie never
larger than the filters it stores, exactly where no clear is called while a
subscription is stored. -/
theorem trim_run_iff (ops : List Op) :
    (∀ pre, pre <+: ops →
        (run pre).Trim ∧ (run pre).store.root.size ≤ 1 + levelCount (runFlat pre)) ↔
      ∀ pre, pre ++ [.clear] <+: ops → runFlat pre = [] := by
  constructor
  · intro h pre hp
    have ht := ((shaped_run _).trim_iff.mp (h _ hp).1)
    rw [leftovers_append, runFlat_append] at ht
    refine List.eq_nil_iff_forall_not_mem.mpr fun sub hs => ?_
    have hleft : sub.topic ∈ leftovers pre ++ filters (runFlat pre) :=
      List.mem_append_right _ (mem_filters hs)
    obtain ⟨other, ho, _⟩ := ht sub.topic hleft
    simp [Op.flat, filters] at ho
  · intro hc pre hp
    have ht : (run pre).Trim := (shaped_run pre).trim_iff.mpr (by simp [leftovers_eq_nil hc hp])
    exact ⟨ht, (shaped_run pre).size_le ht⟩

/-- Two filters added and cleared: nothing is stored, and three nodes are
left. -/
theorem not_trim_after_clear :
    ¬ (run [.add ⟨"a", .level0, 1⟩, .clear, .add ⟨"b", .level0, 1⟩, .clear]).Trim ∧
      (run [.add ⟨"a", .level0, 1⟩, .clear, .add ⟨"b", .level0, 1⟩, .clear]).store.root.size = 3 ∧
      runFlat [.add ⟨"a", .level0, 1⟩, .clear, .add ⟨"b", .level0, 1⟩, .clear] = [] := by
  refine ⟨fun ht => ?_, by decide, rfl⟩
  obtain ⟨other, ho, _⟩ := (shaped_run _).trim_iff.mp ht "a" (by decide)
  simp [runFlat, Op.flat, filters] at ho

end TopicManager

end MesquitteClient
