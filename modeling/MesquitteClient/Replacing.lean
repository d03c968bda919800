import MesquitteClient.Lifecycle
import MesquitteClient.Wildcards
import Mathlib.Data.List.Nodup

/-!
# Subscribing again

`handle_suback` writes an accepted subscription to two stores. The map
replaces what it had for the filter and the trie pushes, so accepting a filter
the trie already has leaves two subscriptions there, and one message runs two
handlers (`subscribed_twice`). While every accepted filter is new to the trie,
it has at most one subscription for a filter: the one accepted last, which is
the one in the map (`replaced`).
-/

namespace MesquitteClient

theorem length_filter_topic (subs : List Subscription) (filter : String) :
    (subs.filter fun sub => sub.topic = filter).length = (subs.map (·.topic)).count filter := by
  induction subs with
  | nil => rfl
  | cons sub subs ih =>
    rw [List.filter_cons, List.map_cons, List.count_cons, ← ih]
    by_cases ht : sub.topic = filter <;> simp [ht]

/-- Of subscriptions with different filters at most one has a filter. -/
theorem filter_topic_cases {subs : List Subscription} (hn : (subs.map (·.topic)).Nodup)
    (filter : String) : (subs.filter fun sub => sub.topic = filter) = [] ∨
      ∃ sub ∈ subs, sub.topic = filter ∧ (subs.filter fun sub => sub.topic = filter) = [sub] := by
  have hlen : (subs.filter fun sub => sub.topic = filter).length ≤ 1 := by
    rw [length_filter_topic]
    exact List.nodup_iff_count_le_one.mp hn filter
  rcases Nat.le_one_iff_eq_zero_or_eq_one.mp hlen with h0 | h1
  · exact .inl (List.length_eq_zero_iff.mp h0)
  · obtain ⟨sub, hsub⟩ := List.length_eq_one_iff.mp h1
    have hmem : sub ∈ subs.filter fun sub => sub.topic = filter := by
      rw [hsub]
      exact List.mem_singleton_self sub
    obtain ⟨hm, ht⟩ := List.mem_filter.mp hmem
    exact .inr ⟨sub, hm, of_decide_eq_true ht, hsub⟩

namespace TopicManager

theorem Refines.entries_eq (h : Refines manager subs) (filter : String) :
    manager.entries filter = subs.filter fun sub => sub.topic = filter := by
  rw [entries, h (tokenizeTopic filter), PathBag.filed, List.filter_map, List.map_map]
  simp [Function.comp_def]

/-- With at most one subscription for each filter a match returns at most one
for each. -/
theorem Refines.matchTopic_nodup (h : Refines manager subs)
    (hone : ∀ filter, (manager.entries filter).length ≤ 1)
    (ht : ∀ level ∈ tokenizeTopic topic, level ≠ "+" ∧ level ≠ "#") :
    ((manager.matchTopic topic).map (·.topic)).Nodup := by
  have hsubs : (subs.map (·.topic)).Nodup := by
    refine List.nodup_iff_count_le_one.mpr fun filter => ?_
    rw [← length_filter_topic, ← h.entries_eq]
    exact hone filter
  exact ((h.matchTopic ht).map _).nodup_iff.mpr (hsubs.sublist (List.filter_sublist.map _))

end TopicManager

namespace State

theorem topicManager_store (st : State) (subs : List Subscription) :
    (st.store subs).topicManager =
      (subs.map TopicManager.Op.add).foldl TopicManager.Op.apply st.topicManager := by
  induction subs generalizing st with
  | nil => rfl
  | cons sub subs ih => exact ih (st.accept sub)

theorem topicManager_removeTopics (st : State) (topics : List String) :
    (st.removeTopics topics).topicManager =
      (topics.map TopicManager.Op.remove).foldl TopicManager.Op.apply st.topicManager := by
  rw [List.foldl_map]
  rfl

theorem topicManager_readFromServer (packet : VariablePacket) (st : State) :
    (readFromServer packet st).1.topicManager =
      ((stored packet st).map TopicManager.Op.add ++
        (removed packet st).map TopicManager.Op.remove).foldl TopicManager.Op.apply
          st.topicManager := by
  rw [List.foldl_append, ← topicManager_store, ← topicManager_removeTopics, readFromServer_eq]
  cases ended packet st <;> rfl

end State

namespace System

variable {codec : Codec} {options : ClientOptions} {s s' : System} {e : Event}
variable {guard : Lts.Guard System Event} {h : Lts.History System Event}

-- ---------------------------------------------------------------------------
-- The trie as a list
-- ---------------------------------------------------------------------------

/-- A step changes the trie by the calls of its manager only. -/
theorem topicManager_step (hs : step codec options s e = some s') :
    ∃ ops : List TopicManager.Op, s'.state.topicManager =
      ops.foldl TopicManager.Op.apply s.state.topicManager := by
  rw [state_step hs]
  cases e with
  | block e =>
    cases e with
    | jobClear subs => exact ⟨[.clear], rfl⟩
    | _ => exact ⟨[], rfl⟩
  | reader e =>
    cases e with
    | received packet => exact ⟨_, State.topicManager_readFromServer packet s.state⟩
    | _ => exact ⟨[], rfl⟩
  | writer e =>
    cases e with
    | outgoingWritten outgoing | outgoingFailed outgoing err =>
      obtain ⟨packet, _ | t⟩ := outgoing <;> exact ⟨[], rfl⟩
    | _ => exact ⟨[], rfl⟩
  | _ e => cases e <;> exact ⟨[], rfl⟩

theorem refines_reached (hr : Run codec options guard h s) :
    ∃ subs, s.state.topicManager.Refines subs := by
  induction hr with
  | nil => exact ⟨[], TopicManager.refines_new⟩
  | snoc _ _ hs ih =>
    obtain ⟨subs, hsubs⟩ := ih
    obtain ⟨ops, hops⟩ := topicManager_step hs
    rw [hops]
    exact ⟨_, hsubs.foldl ops⟩

-- ---------------------------------------------------------------------------
-- What was accepted last
-- ---------------------------------------------------------------------------

/-- The subscription for a filter that a SUBACK accepted last. -/
def lastAccepted (filter : String) : Lts.History System Event → Option Subscription
  | [] => none
  | (s, .reader (.received packet)) :: h =>
    ((State.stored packet s.state).filter fun sub => sub.topic = filter).getLast?.or
      (lastAccepted filter h)
  | _ :: h => lastAccepted filter h

/-- The map has the subscription accepted last. -/
theorem subscription_eq_lastAccepted (hr : Run codec options guard h s) (filter : String) :
    s.subscription filter = lastAccepted filter h := by
  induction hr with
  | nil => rfl
  | @snoc h s e s' _ _ hs ih =>
    rw [subscription_step hs]
    cases e with
    | reader e =>
      cases e with
      | received packet => rw [subscriptionAfter, lastAccepted, ih]
      | _ => exact ih
    | _ e => exact ih

/-- What a SUBACK accepts is new to the trie, and has no filter twice. -/
def acceptsNew : Lts.Guard System Event := fun _ s e =>
  match e with
  | .reader (.received packet) =>
    ((State.stored packet s.state).map (·.topic)).Nodup &&
      (State.stored packet s.state).all fun sub => s.entries sub.topic = []
  | _ => true

/-- The trie has at most one subscription for each filter, the one that was
accepted last and is in the map. -/
def Replaces (h : Lts.History System Event) (s : System) : Prop := ∀ filter,
  s.entries filter = [] ∨ ∃ sub, s.entries filter = [sub] ∧ s.subscription filter = some sub ∧
    lastAccepted filter h = some sub

theorem single_step
    (hone : s.entries filter = [] ∨ ∃ sub, s.entries filter = [sub] ∧ s.subscription filter = some sub)
    (hg : acceptsNew h s e) (hs : step codec options s e = some s') :
    s'.entries filter = [] ∨
      ∃ sub, s'.entries filter = [sub] ∧ s'.subscription filter = some sub := by
  rw [entries_step hs, subscription_step hs]
  cases e with
  | block e =>
    cases e with
    | jobClear subs => exact .inl rfl
    | _ => exact hone
  | reader e =>
    cases e with
    | received packet =>
      simp only [acceptsNew, Bool.and_eq_true, decide_eq_true_eq, List.all_eq_true] at hg
      obtain ⟨hnodup, hnew⟩ := hg
      simp only [entriesAfter, subscriptionAfter]
      split
      · exact .inl rfl
      · rcases filter_topic_cases hnodup filter with hnil | ⟨sub, hm, rfl, hsub⟩
        · rw [hnil, List.append_nil]
          exact hone
        · rw [hsub, hnew sub hm]
          exact .inr ⟨sub, rfl, rfl⟩
    | _ => exact hone
  | _ e => exact hone

theorem replaces_run (hr : Run codec options acceptsNew h s) : Replaces h s := by
  intro filter
  have hone : s.entries filter = [] ∨
      ∃ sub, s.entries filter = [sub] ∧ s.subscription filter = some sub :=
    hr.invariant (P := fun _ s => s.entries filter = [] ∨
        ∃ sub, s.entries filter = [sub] ∧ s.subscription filter = some sub)
      (.inl TopicManager.entries_new) fun _ hone hg hs => single_step hone hg hs
  rcases hone with hnil | ⟨sub, hsub, hmap⟩
  · exact .inl hnil
  · exact .inr ⟨sub, hsub, hmap, (subscription_eq_lastAccepted hr filter).symm.trans hmap⟩

/-- A SUBACK that the guard refuses leaves two subscriptions for a filter. -/
theorem doubled (hs : step codec options s e = some s') (hg : ¬ acceptsNew h s e) :
    ∃ filter, 2 ≤ (s'.entries filter).length := by
  cases e with
  | reader e =>
    cases e with
    | received packet =>
      have hlen (filter : String) (hne : State.stored packet s.state ≠ []) :
          (s'.entries filter).length = (s.entries filter).length +
            ((State.stored packet s.state).map (·.topic)).count filter := by
        have hnone : State.removed packet s.state = [] := by
          cases packet with
          | suback pkid codes => rfl
          | _ => exact absurd rfl hne
        rw [entries_step hs, entriesAfter, hnone, if_neg List.not_mem_nil, List.length_append,
          length_filter_topic]
      by_cases hnodup : ((State.stored packet s.state).map (·.topic)).Nodup
      · simp only [acceptsNew, Bool.and_eq_true, decide_eq_true_eq, List.all_eq_true, hnodup,
          true_and, not_forall] at hg
        obtain ⟨sub, hm, hold⟩ := hg
        refine ⟨sub.topic, ?_⟩
        rw [hlen sub.topic (List.ne_nil_of_mem hm)]
        have hcount := List.count_pos_iff.mpr (List.mem_map_of_mem (f := (·.topic)) hm)
        have hpos := List.length_pos_iff.mpr hold
        omega
      · rw [List.nodup_iff_count_le_one] at hnodup
        simp only [not_forall, Nat.not_le] at hnodup
        obtain ⟨filter, hcount⟩ := hnodup
        refine ⟨filter, ?_⟩
        rw [hlen filter fun hnil => by simp [hnil] at hcount]
        omega
    | _ => exact absurd rfl hg
  | _ e => exact absurd rfl hg

-- ---------------------------------------------------------------------------
-- What a message runs
-- ---------------------------------------------------------------------------

/-- A topic name has no wildcard levels; the codec decodes a PUBLISH with no other. -/
def TopicName (topic : String) : Prop := ∀ level ∈ tokenizeTopic topic, level ≠ "+" ∧ level ≠ "#"

/-- The tasks a packet spawns when the trie has one subscription for a filter:
one for each filter that matches the message. -/
theorem tasks_of_single (hr : Run codec options guard h s)
    (hone : ∀ filter, (s.entries filter).length ≤ 1)
    (hs : step codec options s (received packet) = some s')
    (htopic : ∀ msg, State.released packet s.state = some msg → TopicName msg.topicName) :
    ∃ tasks, s'.state.spawned = s.state.spawned ++ tasks ∧
      (tasks.map fun task => task.1.topic).Nodup ∧
      ∀ task ∈ tasks, FilterCovers task.1.topic task.2.topic := by
  refine ⟨_, spawned_step hs, ?_⟩
  cases hrel : State.released packet s.state with
  | none => exact ⟨List.nodup_nil, fun task ht => absurd ht List.not_mem_nil⟩
  | some msg =>
    rw [Option.toList_some, List.flatMap_singleton, State.handlerTasks, List.map_map]
    obtain ⟨subs, hsubs⟩ := refines_reached hr
    refine ⟨hsubs.matchTopic_nodup hone (htopic msg hrel), fun task ht => ?_⟩
    obtain ⟨sub, hm, rfl⟩ := List.mem_map.mp ht
    exact (s.state.topicManager.mem_matchTopic hm).2.covers

/-- In every run in which each SUBACK accepts filters that are new to the
trie, the trie has at most one subscription for a filter, the one accepted
last, as in the map, and a message runs at most one handler for a filter. -/
theorem replaced (hr : Run codec options acceptsNew h s) : Replaces h s ∧
    ∀ packet s', step codec options s (received packet) = some s' →
      (∀ msg, State.released packet s.state = some msg → TopicName msg.topicName) →
      ∃ tasks, s'.state.spawned = s.state.spawned ++ tasks ∧
        (tasks.map fun task => task.1.topic).Nodup ∧
        ∀ task ∈ tasks, FilterCovers task.1.topic task.2.topic := by
  have hrep := replaces_run hr
  refine ⟨hrep, fun packet s' hs htopic => tasks_of_single hr (fun filter => ?_) hs htopic⟩
  rcases hrep filter with hnil | ⟨sub, hsub, _⟩
  · rw [hnil]
    exact Nat.zero_le 1
  · rw [hsub]
    exact Nat.le_refl 1

def messageToA : PublishPacket := { topicName := "a", qos := .level0, payload := [1] }

/-- Subscribed to `a`, unsubscribed, and subscribed with another handler. -/
theorem replaced_after_unsubscribe : ∃ h s s' tasks, Run acceptingCodec .new acceptsNew h s ∧
    s.entries "a" = [⟨"a", .level1, 9⟩] ∧ Replaces h s ∧
    step acceptingCodec .new s (received (.publish messageToA)) = some s' ∧
    s'.state.spawned = s.state.spawned ++ tasks ∧ (tasks.map fun task => task.1.topic).Nodup := by
  obtain ⟨h, s, hr, ht⟩ := Lts.exists_run (step acceptingCodec .new) acceptsNew init
    (connecting none 0 false ++ connected none 0 false ++ subscribing "a" 7 1 2 ++
      unsubscribing "a" 2 3 ++ subscribing "a" 9 3 4)
    (fun _ s => s.entries "a" = [⟨"a", .level1, 9⟩] &&
      (step acceptingCodec .new s (received (.publish messageToA))).isSome) (by decide +kernel)
  simp only [Bool.and_eq_true, decide_eq_true_eq, Option.isSome_iff_exists] at ht
  obtain ⟨hone, s', hs⟩ := ht
  obtain ⟨hrep, hmsg⟩ := replaced hr
  obtain ⟨tasks, hspawn, hnodup, _⟩ := hmsg _ s' hs fun msg hrel => by
    cases hrel
    unfold TopicName
    decide
  exact ⟨h, s, s', tasks, hr, hone, hrep, hs, hspawn, hnodup⟩

/-- Subscribed to `a` twice, with two handlers: the trie has both. -/
theorem subscribed_twice : ¬ ∀ h s, Run acceptingCodec .new Lts.anything h s → Replaces h s := by
  obtain ⟨h, s, hr, ht⟩ := Lts.exists_run (step acceptingCodec .new) Lts.anything init
    (connecting none 0 false ++ connected none 0 false ++ subscribing "a" 7 1 2 ++
      subscribing "a" 9 2 3)
    (fun _ s => s.entries "a" = [⟨"a", .level1, 7⟩, ⟨"a", .level1, 9⟩]) (by decide +kernel)
  rw [decide_eq_true_eq] at ht
  intro hall
  rcases hall h s hr "a" with hnil | ⟨sub, hsub, _⟩
  · simp [ht] at hnil
  · simp [ht] at hsub

end System

end MesquitteClient
