import MesquitteClient.TopicTrie
import Mathlib.Data.List.Perm.Basic

/-!
# The topic manager refines a flat list of subscriptions

`TopicManager` splits filters and topics at `'/'` and hands the levels to the
trie. Read by filter string, the trie is a map from filters to the
subscriptions stored under them (`entries`), which is how the rest of the
client sees it. Read as a whole, it is a list of subscriptions: adding
appends, removing discards by filter, clearing empties, and matching selects
by the wildcard relation (`matchTopic_refines`).
-/

namespace MesquitteClient

/-- `TopicManager::tokenize_topic`. -/
def tokenizeTopic (topic : String) : List String := (topic.toList.splitOn '/').map String.ofList

theorem tokenizeTopic_injective : Function.Injective tokenizeTopic := by
  intro a b h
  have hinj : Function.Injective String.ofList := fun l l' hl => by
    simpa using congrArg String.toList hl
  have hsplit := List.map_injective_iff.mpr hinj h
  have hlist := congrArg (List.intercalate ['/']) hsplit
  rw [List.intercalate_splitOn, List.intercalate_splitOn] at hlist
  exact String.toList_inj.mp hlist

@[simp] theorem tokenizeTopic_inj : tokenizeTopic a = tokenizeTopic b ↔ a = b :=
  tokenizeTopic_injective.eq_iff

structure MqttTopicTrie where
  root : TrieNode

structure TopicManager where
  store : MqttTopicTrie
  placed : ∀ path sub, sub ∈ store.root.subsAt path → tokenizeTopic sub.topic = path

namespace TopicManager

open PathBag (Matches filed)

def new : TopicManager := ⟨⟨.new⟩, by simp⟩

def add (manager : TopicManager) (subscription : Subscription) : TopicManager where
  store := ⟨manager.store.root.insert subscription (tokenizeTopic subscription.topic)⟩
  placed path sub h := by
    rw [TrieNode.subsAt_insert] at h
    split at h
    · rename_i hp
      rcases List.mem_append.mp h with h | h
      · exact manager.placed path sub h
      · rw [List.mem_singleton.mp h, hp]
    · exact manager.placed path sub h

/-- The trie after `remove`, and what `remove` returns. -/
def remove (manager : TopicManager) (topic : String) : TopicManager × Bool :=
  match h : manager.store.root.remove (tokenizeTopic topic) with
  | none => (manager, false)
  | some root => (⟨⟨root⟩, fun path sub hs => by
      rw [TrieNode.subsAt_remove _ _ _ h] at hs
      split at hs
      · simp at hs
      · exact manager.placed path sub hs⟩, true)

def matchTopic (manager : TopicManager) (topic : String) : List Subscription :=
  manager.store.root.matchTopic (tokenizeTopic topic)

def clear (manager : TopicManager) : TopicManager := ⟨⟨manager.store.root.clearNode⟩, by simp⟩

-- ---------------------------------------------------------------------------
-- By filter string
-- ---------------------------------------------------------------------------

/-- The subscriptions stored for a filter, oldest first. -/
def entries (manager : TopicManager) (filter : String) : List Subscription :=
  manager.store.root.subsAt (tokenizeTopic filter)

@[simp] theorem entries_new : new.entries filter = [] := by
  simp [entries, new]

theorem entries_add (manager : TopicManager) (sub : Subscription) :
    (manager.add sub).entries filter =
      if sub.topic = filter then manager.entries filter ++ [sub] else manager.entries filter := by
  simp [entries, add, TrieNode.subsAt_insert]

theorem subsAt_remove (manager : TopicManager) (topic : String) (path : List String) :
    (manager.remove topic).1.store.root.subsAt path =
      if tokenizeTopic topic = path then [] else manager.store.root.subsAt path := by
  unfold remove
  split
  · rename_i h
    split
    · rename_i hp
      rw [← hp, TrieNode.subsAt_of_remove_none _ _ h]
    · rfl
  · rename_i h
    exact TrieNode.subsAt_remove _ _ _ h

theorem entries_remove (manager : TopicManager) (topic : String) :
    (manager.remove topic).1.entries filter =
      if topic = filter then [] else manager.entries filter := by
  simp [entries, subsAt_remove]

@[simp] theorem entries_clear (manager : TopicManager) : manager.clear.entries filter = [] := by
  simp [entries, clear]

/-- A match returns stored subscriptions only, each under a filter that
matches the topic. -/
theorem mem_matchTopic (manager : TopicManager) (h : sub ∈ manager.matchTopic topic) :
    sub ∈ manager.entries sub.topic ∧
      Matches "+" "#" (tokenizeTopic sub.topic) (tokenizeTopic topic) := by
  obtain ⟨path, hp, hm⟩ := TrieNode.mem_matchTopic h
  rw [entries, manager.placed path sub hp]
  exact ⟨hp, hm⟩

-- ---------------------------------------------------------------------------
-- As a flat list
-- ---------------------------------------------------------------------------

/-- The calls that change a topic manager. -/
inductive Op
  | add (subscription : Subscription)
  | remove (topic : String)
  | clear
  deriving DecidableEq

def Op.apply (manager : TopicManager) : Op → TopicManager
  | .add subscription => manager.add subscription
  | .remove topic => (manager.remove topic).1
  | .clear => manager.clear

/-- What a call means for the flat list. -/
def Op.flat (subs : List Subscription) : Op → List Subscription
  | .add subscription => subs ++ [subscription]
  | .remove topic => subs.filter fun sub => sub.topic ≠ topic
  | .clear => []

def run (ops : List Op) : TopicManager := ops.foldl Op.apply new

def runFlat (ops : List Op) : List Subscription := ops.foldl Op.flat []

/-- The abstraction: the trie stores the list, each subscription under the
levels of its filter. -/
def Refines (manager : TopicManager) (subs : List Subscription) : Prop :=
  manager.store.root.Stores (subs.map fun sub => (tokenizeTopic sub.topic, sub))

theorem refines_new : new.Refines [] := by
  intro path
  simp [new]

theorem Refines.apply (h : Refines manager subs) (op : Op) :
    (op.apply manager).Refines (op.flat subs) := by
  intro path
  cases op with
  | add subscription =>
    simp only [Op.apply, Op.flat, add, TrieNode.subsAt_insert, List.map_append, List.map_cons,
      List.map_nil, PathBag.filed_append, PathBag.filed_cons, PathBag.filed_nil, h path]
    split <;> simp
  | remove topic =>
    simp only [Op.apply, Op.flat, subsAt_remove, h path]
    rw [← PathBag.filed_filter_ne, List.filter_map]
    congr 2
    refine List.filter_congr fun sub _ => ?_
    simp
  | clear => simp [Op.apply, Op.flat, clear]

theorem Refines.foldl (h : Refines manager subs) (ops : List Op) :
    (ops.foldl Op.apply manager).Refines (ops.foldl Op.flat subs) := by
  induction ops generalizing manager subs with
  | nil => exact h
  | cons op ops ih => exact ih (h.apply op)

theorem refines_run (ops : List Op) : (run ops).Refines (runFlat ops) := refines_new.foldl ops

/-- Matching a topic without wildcard levels selects from the list. -/
theorem Refines.matchTopic (h : Refines manager subs)
    (ht : ∀ level ∈ tokenizeTopic topic, level ≠ "+" ∧ level ≠ "#") :
    (manager.matchTopic topic).Perm
      (subs.filter fun sub => Matches "+" "#" (tokenizeTopic sub.topic) (tokenizeTopic topic)) := by
  refine (TrieNode.Stores.matchTopic h ht).trans ?_
  simp [PathBag.matching, List.filter_map, Function.comp_def]

theorem count_runFlat_le (ops : List Op) (sub : Subscription) :
    (runFlat ops).count sub ≤ ops.count (.add sub) := by
  have hrun (subs : List Subscription) :
      (ops.foldl Op.flat subs).count sub ≤ subs.count sub + ops.count (.add sub) := by
    induction ops generalizing subs with
    | nil => simp
    | cons op ops ih =>
      refine Nat.le_trans (ih _) ?_
      cases op with
      | add subscription =>
        simp only [Op.flat, List.count_append, List.count_cons, List.count_nil, beq_iff_eq,
          Op.add.injEq]
        split <;> omega
      | remove topic =>
        have hle := (List.filter_sublist (p := fun s => decide (s.topic ≠ topic))
          (l := subs)).count_le sub
        simp only [Op.flat, List.count_cons, beq_iff_eq, reduceCtorEq, ↓reduceIte, Nat.add_zero]
        omega
      | clear => simp [Op.flat]
  simpa [runFlat] using hrun []

/-- For every sequence of calls the trie answers like the flat list: a topic
without wildcard levels matches, as a multiset, the listed subscriptions
whose filter matches, and none is returned more often than it was added. -/
theorem matchTopic_refines (ops : List Op) (topic : String)
    (ht : ∀ level ∈ tokenizeTopic topic, level ≠ "+" ∧ level ≠ "#") :
    ((run ops).matchTopic topic).Perm
        ((runFlat ops).filter fun sub =>
          Matches "+" "#" (tokenizeTopic sub.topic) (tokenizeTopic topic)) ∧
      ∀ sub, ((run ops).matchTopic topic).count sub ≤ ops.count (.add sub) := by
  have hperm := (refines_run ops).matchTopic ht
  refine ⟨hperm, fun sub => ?_⟩
  calc ((run ops).matchTopic topic).count sub
      = ((runFlat ops).filter fun s =>
          Matches "+" "#" (tokenizeTopic s.topic) (tokenizeTopic topic)).count sub :=
        hperm.count_eq sub
    _ ≤ (runFlat ops).count sub := List.filter_sublist.count_le sub
    _ ≤ ops.count (.add sub) := count_runFlat_le ops sub

/-- The calls of `test_topic_manager`, up to its first match. -/
def testOps : List Op :=
  [.add ⟨"sport/football", .level0, 1⟩, .add ⟨"sport/+/news", .level0, 2⟩,
    .add ⟨"sport/#", .level0, 3⟩, .remove "sport/#"]

theorem matchTopic_refines_test :
    (∀ level ∈ tokenizeTopic "sport/football/news", level ≠ "+" ∧ level ≠ "#") ∧
      ((run testOps).matchTopic "sport/football/news").Perm [⟨"sport/+/news", .level0, 2⟩] :=
  ⟨by decide, (matchTopic_refines testOps "sport/football/news" (by decide)).1⟩

end TopicManager

end MesquitteClient
