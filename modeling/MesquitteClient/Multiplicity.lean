import MesquitteClient.Lib.PathWays
import MesquitteClient.TopicManager

/-!
# How often a subscription is matched

`match_topic` looks a level up as it stands and then under `+`, so a topic
that has wildcard levels itself reaches a filter with the same wildcard twice
at each of them. For every topic, whatever its levels: a subscription is
returned as often as it was added, times two for each wildcard it shares with
the topic (`matchTopic_times`).
-/

namespace MesquitteClient

namespace TrieNode

open PathBag

theorem matchTopic_cons (node : TrieNode) (token : String) (rest : List String) :
    node.matchTopic (token :: rest) = (node.child? token).elim [] (·.matchTopic rest) ++
      (node.child? "+").elim [] (·.matchTopic rest) ++
        (node.child? "#").elim [] (·.subscriptions) := by
  rw [matchTopic]
  cases node.child? token <;> cases node.child? "+" <;> cases node.child? "#" <;> rfl

theorem Stores.count_matchTopic (h : Stores node bag) (query : List String) (sub : Subscription) :
    (node.matchTopic query).count sub = reached "+" "#" bag query sub := by
  induction query generalizing node bag with
  | nil => rw [reached_nil, ← h, subsAt_nil, TrieNode.matchTopic]
  | cons token rest ih =>
    have hbranch (level : String) : ((node.child? level).elim [] (·.matchTopic rest)).count sub =
        reached "+" "#" (below level bag) rest sub := by
      cases hc : node.child? level with
      | some next => exact ih (h.child hc)
      | none =>
        rw [h.no_child hc]
        rfl
    have hlast : (node.child? "#").elim [] (·.subscriptions) = filed (below "#" bag) [] := by
      cases hc : node.child? "#" with
      | some hash => rw [← (h.child hc) [], subsAt_nil, Option.elim_some]
      | none =>
        rw [h.no_child hc]
        rfl
    rw [matchTopic_cons, hlast, List.count_append, List.count_append, hbranch, hbranch,
      reached_cons]

end TrieNode

namespace TopicManager

open PathBag

/-- The subscriptions of a list, each under the levels of its filter. -/
theorem reached_map (subs : List Subscription) (query : List String) (sub : Subscription) :
    reached "+" "#" (subs.map fun sub => (tokenizeTopic sub.topic, sub)) query sub =
      subs.count sub * ways "+" "#" (tokenizeTopic sub.topic) query := by
  induction subs with
  | nil => simp [reached]
  | cons s subs ih =>
    simp only [reached, List.map_cons, List.sum_cons] at ih ⊢
    rw [ih, List.count_cons]
    by_cases hs : s = sub
    · subst hs
      simp [Nat.succ_mul, Nat.add_comm]
    · simp [hs]

/-- What `match_topic` returns, for every history of the trie and every topic. -/
theorem matchTopic_times (ops : List Op) (topic : String) (sub : Subscription) :
    ((run ops).matchTopic topic).count sub =
      if Matches "+" "#" (tokenizeTopic sub.topic) (tokenizeTopic topic) then
        (runFlat ops).count sub * 2 ^ shared "+" "#" (tokenizeTopic sub.topic) (tokenizeTopic topic)
      else 0 := by
  have hstores : (run ops).store.root.Stores
      ((runFlat ops).map fun sub => (tokenizeTopic sub.topic, sub)) := refines_run ops
  rw [TopicManager.matchTopic, hstores.count_matchTopic, reached_map, ways_eq (by decide)]
  split
  · rfl
  · rfl

example : ((run testOps).matchTopic "sport/+/news").count ⟨"sport/+/news", .level0, 2⟩ = 2 := by
  decide

end TopicManager

end MesquitteClient
