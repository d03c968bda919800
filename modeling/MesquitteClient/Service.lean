import MesquitteClient.Delivery
import MesquitteClient.Replacing
import MesquitteClient.Lib.PubSub

/-!
# What the subscribers get

The client, with its trie, its table of pending packets and its dispatched
tasks, is a publish/subscribe service (`serves`): each step of it is a few acts
of `PubSub.Service`, and what it has is what the service has. So every handler
call has its reasons in what the server sent before it (`run_reason`), and each
message is called, or still dispatched, for each subscription as often as the
server made it due (`run_balance`).
-/

namespace MesquitteClient

open PathBag (Matches)
open Lts (Path)

/-- A subscription covers what matches its filter level by level. -/
def rules : PubSub.Rules String Subscription Message where
  topic := (·.topic)
  covers sub msg := Matches "+" "#" (tokenizeTopic sub.topic) (tokenizeTopic msg.topic)

instance (sub : Subscription) (msg : Message) : Decidable (rules.covers sub msg) :=
  inferInstanceAs (Decidable (Matches ..))

abbrev ServiceAct := PubSub.Act String UInt16 Subscription Message

namespace TopicManager

def Op.act : Op → ServiceAct
  | .add subscription => .subscribe subscription
  | .remove topic => .unsubscribe topic
  | .clear => .reset

end TopicManager

namespace State

variable {st st' : State} {packet : VariablePacket}
variable {a : PubSub.Service UInt16 Subscription Message}

/-- What a packet does with the message it has or stands for. -/
def carried (packet : VariablePacket) (st : State) : List ServiceAct :=
  match packet with
  | .publish packet =>
    match packet.qos with
    | .level2 pkid => [.hold pkid (.ofPublish packet)]
    | _ => [.publish (.ofPublish packet)]
  | .pubrel pkid =>
    match st.pendingPackets.entries[pkid]? with
    | some _ => [.release pkid]
    | none => [.forget pkid]
  | _ => []

/-- The client has what the service has. -/
structure Serves (st : State) (a : PubSub.Service UInt16 Subscription Message) : Prop where
  subs : ∃ subs, st.topicManager.Refines subs ∧ a.subs = Multiset.ofList subs
  held : ∀ k, a.held k = st.pendingPackets.entries[k]?.map fun e => Message.ofPublish e.1
  due : a.due = Multiset.ofList st.spawned

theorem Serves.op (h : Serves st a) (op : TopicManager.Op)
    (htopic : st'.topicManager = op.apply st.topicManager)
    (hpending : st'.pendingPackets = st.pendingPackets) (hspawned : st'.spawned = st.spawned) :
    Serves st' (a.record rules op.act) := by
  obtain ⟨subs, hrefines, hsubs⟩ := h.subs
  have hsame : (a.record rules op.act).held = a.held ∧ (a.record rules op.act).due = a.due := by
    cases op <;> exact ⟨rfl, rfl⟩
  refine ⟨⟨op.flat subs, htopic ▸ hrefines.apply op, ?_⟩, fun k => ?_, ?_⟩
  · cases op with
    | add sub => exact congrArg (· + {sub}) hsubs
    | remove topic =>
      exact (congrArg (Multiset.filter _) hsubs).trans (Multiset.filter_coe ..)
    | clear => rfl
  · rw [hsame.1, h.held, hpending]
  · rw [hsame.2, h.due, hspawned]

theorem Serves.ops (h : Serves st a) (ops : List TopicManager.Op)
    (htopic : st'.topicManager = ops.foldl TopicManager.Op.apply st.topicManager)
    (hpending : st'.pendingPackets = st.pendingPackets) (hspawned : st'.spawned = st.spawned) :
    ∃ a', Path (PubSub.Step rules) a (ops.map TopicManager.Op.act) a' ∧ Serves st' a' := by
  induction ops generalizing st a with
  | nil =>
    refine ⟨a, .nil, ?_, fun k => ?_, ?_⟩
    · rw [htopic]
      exact h.subs
    · rw [hpending]
      exact h.held k
    · rw [hspawned]
      exact h.due
  | cons op ops ih =>
    have hop : Serves { st with topicManager := op.apply st.topicManager }
        (a.record rules op.act) := h.op op rfl rfl rfl
    obtain ⟨a', hp, hs⟩ := ih hop htopic hpending hspawned
    have hstep : PubSub.Step rules a op.act (a.record rules op.act) :=
      .record (by cases op <;> rfl)
    exact ⟨a', .cons hstep hp, hs⟩

/-- A message that is dispatched becomes due where it should. -/
theorem Serves.dispatch (h : Serves st a) (packet : PublishPacket)
    (hname : System.TopicName packet.topicName) :
    (a.offer rules (.ofPublish packet)).due =
      Multiset.ofList (st.spawned ++ st.handlerTasks packet) := by
  obtain ⟨subs, hrefines, hsubs⟩ := h.subs
  rw [PubSub.Service.offer, h.due, hsubs, Multiset.filter_coe, Multiset.map_coe, Multiset.coe_add]
  refine Multiset.coe_eq_coe.mpr (List.Perm.append_left _ ?_)
  exact ((hrefines.matchTopic hname).map _).symm

theorem Serves.carried (h : Serves st a)
    (hname : ∀ msg, released packet st = some msg → System.TopicName msg.topicName)
    (htopic : st'.topicManager = st.topicManager)
    (hpending : st'.pendingPackets = pendingAfter packet st)
    (hspawned : st'.spawned = st.spawned ++ (released packet st).toList.flatMap st.handlerTasks) :
    ∃ a', Path (PubSub.Step rules) a (State.carried packet st) a' ∧ Serves st' a' := by
  have hsubs : ∃ subs, st'.topicManager.Refines subs ∧ a.subs = Multiset.ofList subs :=
    htopic ▸ h.subs
  have hnone (hr : released packet st = none) : a.due = Multiset.ofList st'.spawned := by
    rw [hspawned, hr, h.due]
    simp
  have hsome {msg : PublishPacket} (hr : released packet st = some msg) :
      (a.offer rules (.ofPublish msg)).due = Multiset.ofList st'.spawned := by
    rw [hspawned, hr, h.dispatch msg (hname msg hr)]
    simp
  cases packet with
  | publish packet =>
    have hdirect (hq : packet.qos.split.1 ≠ .level2)
        (hp : pendingAfter (.publish packet) st = st.pendingPackets) :
        Serves st' (a.offer rules (.ofPublish packet)) := by
      have hr : released (.publish packet) st = some packet := if_neg hq
      exact ⟨hsubs, fun k => by rw [hpending, hp]; exact h.held k, hsome hr⟩
    cases hk : packet.qos with
    | level0 =>
      simp only [State.carried, hk]
      exact ⟨_, .single (.record rfl), hdirect (by simp [hk, QoSWithPacketIdentifier.split])
        (by simp [pendingAfter, hk])⟩
    | level1 pkid =>
      simp only [State.carried, hk]
      exact ⟨_, .single (.record rfl), hdirect (by simp [hk, QoSWithPacketIdentifier.split])
        (by simp [pendingAfter, hk])⟩
    | level2 pkid =>
      simp only [State.carried, hk]
      refine ⟨_, .single (.record rfl), hsubs, fun k => ?_, hnone ?_⟩
      · rw [PubSub.Service.held_hold, hpending, h.held]
        simp only [pendingAfter, hk, TtlMap.entries_insert, eq_comm]
        split <;> rfl
      · simp [released, hk, QoSWithPacketIdentifier.split]
  | pubrel pkid =>
    have hevict (k : UInt16) : (if k = pkid then none else a.held k) =
        st'.pendingPackets.entries[k]?.map fun e => Message.ofPublish e.1 := by
      rw [hpending, h.held]
      simp only [pendingAfter, TtlMap.entries_evict, eq_comm]
      split <;> rfl
    cases hg : st.pendingPackets.entries[pkid]? with
    | none =>
      simp only [State.carried, hg]
      refine ⟨_, .single (.record rfl), hsubs, fun k => ?_, hnone (by simp [released, hg])⟩
      rw [PubSub.Service.held_forget, hevict]
    | some entry =>
      obtain ⟨msg, t⟩ := entry
      have hr : released (.pubrel pkid) st = some msg := by simp [released, hg]
      simp only [State.carried, hg]
      refine ⟨_, .single (.record rfl), ?_, fun k => ?_, ?_⟩
      · rw [PubSub.Service.subs_release]
        exact hsubs
      · rw [PubSub.Service.held_release, hevict]
      · have hheld : a.held pkid = some (Message.ofPublish msg) := by rw [h.held, hg]; rfl
        rw [PubSub.Service.due_release hheld, hsome hr]
  | _ =>
    exact ⟨a, .nil, hsubs, fun k => by rw [hpending]; exact h.held k, hnone rfl⟩

/-- A packet that is read does what it shows. -/
theorem Serves.received (h : Serves st a)
    (hname : ∀ msg, released packet st = some msg → System.TopicName msg.topicName) :
    ∃ a', Path (PubSub.Step rules) a ((stored packet st).map .subscribe ++
      (removed packet st).map .unsubscribe ++ State.carried packet st) a' ∧
      Serves (readFromServer packet st).1 a' := by
  -- no packet both changes the subscriptions and carries a message
  have hor : (stored packet st = [] ∧ removed packet st = []) ∨
      State.carried packet st = [] ∧ released packet st = none ∧
        pendingAfter packet st = st.pendingPackets := by
    cases packet with
    | publish packet => exact .inl ⟨rfl, rfl⟩
    | pubrel pkid => exact .inl ⟨rfl, rfl⟩
    | _ => exact .inr ⟨rfl, rfl, rfl⟩
  have htopic := topicManager_readFromServer packet st
  have hpending := pendingPackets_readFromServer packet st
  have hspawned := spawned_readFromServer packet st
  rcases hor with ⟨hs, hr⟩ | ⟨hc, hr, hp⟩
  · rw [hs, hr] at htopic ⊢
    exact h.carried hname htopic hpending hspawned
  · have hacts : (stored packet st).map .subscribe ++ (removed packet st).map .unsubscribe =
        ((stored packet st).map TopicManager.Op.add ++
          (removed packet st).map TopicManager.Op.remove).map TopicManager.Op.act := by
      simp [TopicManager.Op.act, Function.comp_def]
    rw [hc, List.append_nil, hacts]
    refine h.ops _ htopic (hpending.trans hp) ?_
    rw [hspawned, hr]
    simp

end State

namespace System

instance (topic : String) : Decidable (TopicName topic) := inferInstanceAs (Decidable (∀ _ ∈ _, _))

variable {codec : Codec} {options : ClientOptions} {guard : Lts.Guard System Event}
variable {s s' : System} {e : Event} {h : Lts.History System Event}

/-- The acts of a step. -/
def shows : System × Event → List ServiceAct
  | (s, .reader (.received packet)) =>
    (State.stored packet s.state).map .subscribe ++ (State.removed packet s.state).map .unsubscribe
      ++ State.carried packet s.state
  | (_, .block (.jobClear _)) => [.reset]
  | (_, .runtime (.evicted pkid)) => [.forget pkid]
  | (_, .runtime (.handlerRan task)) => [.call task.1 task.2]
  | _ => []

/-- No name the server publishes under has wildcards in it: the codec decodes
no other. -/
def plainTopics : Lts.Guard System Event
  | _, _, .reader (.received (.publish packet)) => TopicName packet.topicName
  | _, _, _ => true

/-- A message held for its PUBREL was published under a plain name. -/
theorem held_plain (hr : Run codec options plainTopics h s) :
    ∀ (k : UInt16) (packet : PublishPacket) (t : Duration),
      s.state.pendingPackets.entries[k]? = some (packet, t) → TopicName packet.topicName := by
  induction hr with
  | nil =>
    intro k packet t hp
    simp [init, State.new, TtlMap.empty] at hp
  | @snoc h s e s' _ hg hs ih =>
    intro k packet t hp
    rw [pendingEntry_step hs] at hp
    unfold pendingEntryAfter at hp
    split at hp
    · split at hp
      · obtain rfl := congrArg Prod.fst (Option.some.inj hp)
        exact of_decide_eq_true hg
      · exact ih k packet t hp
    · split at hp
      · cases hp
      · exact ih k packet t hp
    · split at hp
      · cases hp
      · exact ih k packet t hp
    · exact ih k packet t hp

/-- What a packet releases was published under a plain name. -/
theorem released_plain (hr : Run codec options plainTopics h s)
    (hg : plainTopics h s (received packet)) {msg : PublishPacket}
    (hm : State.released packet s.state = some msg) : TopicName msg.topicName := by
  cases packet with
  | publish packet =>
    simp only [State.released, Option.ite_none_left_eq_some, Option.some.injEq] at hm
    obtain ⟨_, rfl⟩ := hm
    exact of_decide_eq_true hg
  | pubrel pkid =>
    obtain ⟨⟨_, t⟩, ht, rfl⟩ := Option.map_eq_some_iff.mp hm
    exact held_plain hr pkid _ t ht
  | _ => cases hm

/-- The trie after an event. -/
def topicManagerAfter (s : System) : Event → TopicManager
  | .reader (.received packet) => (readFromServer packet s.state).1.topicManager
  | .block (.jobClear _) => s.state.topicManager.clear
  | _ => s.state.topicManager

theorem topicManagerAfter_step (hs : step codec options s e = some s') :
    s'.state.topicManager = topicManagerAfter s e := by
  rw [state_step hs]
  cases e with
  | writer e =>
    rw [stateAfter_writer]
    rfl
  | _ e => cases e <;> rfl

/-- Each step does what it shows. -/
theorem serves_step (hr : Run codec options plainTopics h s) (hserves : s.state.Serves a)
    (hg : plainTopics h s e) (hs : step codec options s e = some s') :
    ∃ a', Path (PubSub.Step rules) a (shows (s, e)) a' ∧ s'.state.Serves a' := by
  have htopic := topicManagerAfter_step hs
  have hpending := pendingPackets_step hs
  have hspawned := spawned_step hs
  have hrest (h₀ : shows (s, e) = []) (h₁ : topicManagerAfter s e = s.state.topicManager)
      (h₂ : pendingPacketsAfter s e = s.state.pendingPackets)
      (h₃ : spawnedAfter s e = s.state.spawned) :
      ∃ a', Path (PubSub.Step rules) a (shows (s, e)) a' ∧ s'.state.Serves a' := by
    rw [h₀]
    exact hserves.ops [] (htopic.trans h₁) (hpending.trans h₂) (hspawned.trans h₃)
  cases e with
  | reader e =>
    cases e with
    | received packet =>
      have hstate : s'.state = (readFromServer packet s.state).1 := state_step hs
      rw [hstate]
      exact hserves.received fun msg hm => released_plain hr hg hm
    | _ => exact hrest rfl rfl rfl rfl
  | block e =>
    cases e with
    | jobClear subs => exact hserves.ops [.clear] htopic hpending hspawned
    | _ => exact hrest rfl rfl rfl rfl
  | runtime e =>
    cases e with
    | elapsed duration => exact hrest rfl rfl rfl rfl
    | evicted pkid =>
      obtain ⟨subs, hsubs⟩ := hserves.subs
      refine ⟨_, .single (.record rfl), ⟨subs, htopic ▸ hsubs⟩, fun k => ?_, ?_⟩
      · rw [PubSub.Service.held_forget, hpending, hserves.held]
        simp only [pendingPacketsAfter, TtlMap.entries_evict, eq_comm]
        split <;> rfl
      · rw [hspawned]
        exact hserves.due
    | handlerRan task =>
      simp only [step, stepRuntime, when_eq_some] at hs
      have hmem : task ∈ a.due := hserves.due ▸ Multiset.mem_coe.mpr hs.1
      obtain ⟨subs, hsubs⟩ := hserves.subs
      refine ⟨_, .single (.call hmem), ⟨subs, htopic ▸ hsubs⟩, fun k => ?_, ?_⟩
      · rw [hpending]
        exact hserves.held k
      · rw [hspawned, hserves.due]
        simp only [spawnedAfter, Multiset.coe_erase]
        -- the two sides compare tasks by different instances
        exact congrArg (fun inst => Multiset.ofList (@List.erase _ inst s.state.spawned task))
          (lawful_beq_subsingleton ..)
  | _ e => exact hrest rfl rfl rfl rfl

/-- A subscription, a message at QoS 1, another at QoS 2 and its handler. -/
def servedEvents : List Event :=
  connecting none 0 false ++ connected none 0 false ++ subscribing "a/+" 7 1 2 ++
    [received (.publish { topicName := "a/b", qos := .level1 3, payload := [0] }),
      .reader (.responded (.puback 3))] ++ exchangeEvents "a/c" 5

def servedTask : HandlerTask :=
  (⟨"a/+", .level1, 7⟩, .ofPublish { topicName := "a/c", qos := .level2 5, payload := [1] })

theorem serves_run (hr : Run codec options plainTopics h s) :
    ∃ a, Path (PubSub.Step rules) {} (Lts.shown shows h) a ∧ s.state.Serves a :=
  hr.simulates ⟨⟨[], TopicManager.refines_new, rfl⟩,
    fun _ => by simp [init, State.new, TtlMap.empty], rfl⟩
    fun hr hserves hg hs => serves_step hr hserves hg hs

/-- For every run in which the server publishes under plain names: the client
is a publish/subscribe service that does what the steps show, with the
subscriptions of the trie, the messages of the pending packets and the tasks
that have been dispatched and not run. -/
theorem serves (hr : Run codec options plainTopics h s) :
    ∃ a, Path (PubSub.Step rules) {} (Lts.shown shows h) a ∧
      (∃ subs, s.state.topicManager.Refines subs ∧ a.subs = Multiset.ofList subs) ∧
      (∀ k, a.held k = s.state.pendingPackets.entries[k]?.map fun e => Message.ofPublish e.1) ∧
      a.due = Multiset.ofList s.state.spawned := by
  obtain ⟨a, hp, hserves⟩ := serves_run hr
  exact ⟨a, hp, hserves.subs, hserves.held, hserves.due⟩

theorem serves_two : ∃ h s, Run acceptingCodec .new plainTopics h s ∧ s.state.spawned.length = 2 ∧
    ∃ a, Path (PubSub.Step rules) {} (Lts.shown shows h) a ∧
      a.due = Multiset.ofList s.state.spawned := by
  obtain ⟨h, s, hr, ht⟩ := Lts.exists_run (step acceptingCodec .new) plainTopics init
    servedEvents (fun _ s => s.state.spawned.length = 2) (by decide +kernel)
  obtain ⟨a, hp, _, _, hdue⟩ := serves hr
  exact ⟨h, s, hr, of_decide_eq_true ht, a, hp, hdue⟩

/-- For every run in which the server publishes under plain names: the
subscriptions and the held messages are what the acts leave, and what became
due is, as often as it did, called or still dispatched. -/
theorem run_balance (hr : Run codec options plainTopics h s) :
    (∃ subs, s.state.topicManager.Refines subs ∧
      Multiset.ofList subs = (PubSub.ledger rules (Lts.shown shows h)).subs) ∧
    (∀ k, s.state.pendingPackets.entries[k]?.map (fun e => Message.ofPublish e.1) =
      (PubSub.ledger rules (Lts.shown shows h)).held k) ∧
    PubSub.calls (Lts.shown shows h) + Multiset.ofList s.state.spawned =
      (PubSub.ledger rules (Lts.shown shows h)).due := by
  obtain ⟨a, hp, hserves⟩ := serves_run hr
  obtain ⟨subs, hrefines, hsubs⟩ := hserves.subs
  have hbalance := PubSub.path_balance hp
  refine ⟨⟨subs, hrefines, ?_⟩, fun k => ?_, ?_⟩
  · rw [← hsubs, hbalance.subs]
  · rw [← hserves.held, hbalance.held]
  · rw [← hserves.due, hbalance.due]

theorem run_balance_two : ∃ h s, Run acceptingCodec .new plainTopics h s ∧
    s.state.spawned.length = 1 ∧
    PubSub.calls (Lts.shown shows h) + Multiset.ofList s.state.spawned =
      (PubSub.ledger rules (Lts.shown shows h)).due := by
  obtain ⟨h, s, hr, ht⟩ := Lts.exists_run (step acceptingCodec .new) plainTopics init
    (servedEvents ++ [.runtime (.handlerRan servedTask)])
    (fun _ s => s.state.spawned.length = 1) (by decide +kernel)
  exact ⟨h, s, hr, of_decide_eq_true ht, (run_balance hr).2.2⟩

/-- For every run in which the server publishes under plain names: when a
handler is called, its subscription had been accepted, and not taken away
since, when the message was published to it or released for it. -/
theorem run_reason (later : Lts.History System Event)
    (hr : Run codec options plainTopics (later ++ (s₁, .runtime (.handlerRan task)) :: before) s) :
    PubSub.Offered rules (Lts.shown shows before) task.1 task.2 := by
  obtain ⟨-, -, s₂, -, hr⟩ := hr.split
  obtain ⟨a, hp, -⟩ := serves_run hr
  have hp' : Path (PubSub.Step rules) {} (Lts.shown shows before ++ .call task.1 task.2 :: []) a :=
    hp
  exact PubSub.path_reason hp'

theorem run_reason_two : ∃ s₁ before s, Run acceptingCodec .new plainTopics
      ((s₁, .runtime (.handlerRan servedTask)) :: before) s ∧
    PubSub.Offered rules (Lts.shown shows before) servedTask.1 servedTask.2 := by
  obtain ⟨h, s, hr, ht⟩ := Lts.exists_run (step acceptingCodec .new) plainTopics init
    (servedEvents ++ [.runtime (.handlerRan servedTask)])
    (fun h _ => h.head?.any fun x => x.2 = .runtime (.handlerRan servedTask)) (by decide +kernel)
  obtain ⟨⟨s₁, e⟩, hx, he⟩ := (Option.any_eq_true _ _).mp ht
  obtain rfl : e = .runtime (.handlerRan servedTask) := of_decide_eq_true he
  obtain ⟨before, rfl⟩ := List.head?_eq_some_iff.mp hx
  exact ⟨s₁, before, s, hr, run_reason [] hr⟩

end System

end MesquitteClient
