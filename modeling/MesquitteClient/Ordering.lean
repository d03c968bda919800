import MesquitteClient.Delivery
import MesquitteClient.Wildcards

/-!
# The order in which handlers run

The read loop spawns a task for every message and subscription, and the
runtime runs the tasks in any order, so two messages can reach a handler the
wrong way round (`handled_reversed`). What the tasks are is determined: each
QoS 0 or QoS 1 message is spawned once for every subscription its match
returns, in the order of arrival, and runs at most once. When the tasks of a
subscription run oldest first, its handler gets its messages in the order of
their arrival (`handled_in_order`).
-/

namespace MesquitteClient

namespace System

variable {codec : Codec} {options : ClientOptions} {s s' : System} {e : Event}
variable {guard : Lts.Guard System Event} {h : Lts.History System Event}

-- ---------------------------------------------------------------------------
-- Messages and tasks
-- ---------------------------------------------------------------------------

/-- A message that is dispatched when it is read, not by its PUBREL. -/
def direct (msg : Message) : Bool := msg.qos ≠ .level2

/-- The messages a step receives for a subscription: a QoS 0 or QoS 1 PUBLISH,
as often as the match returns the subscription. -/
def arrived (sub : Subscription) : System × Event → List Message
  | (s, .reader (.received (.publish packet))) =>
    if packet.qos.split.1 = .level2 then []
    else List.replicate ((s.state.topicManager.matchTopic packet.topicName).count sub)
      (.ofPublish packet)
  | _ => []

/-- Those received so far, oldest first. -/
def arrivals (sub : Subscription) : Lts.History System Event → List Message
  | [] => []
  | x :: h => arrivals sub h ++ arrived sub x

/-- A task of the subscription for such a message. -/
def taskOf (sub : Subscription) (task : HandlerTask) : Bool := task.1 = sub && direct task.2

/-- The messages the handler of a subscription has been called with. -/
def invocations (sub : Subscription) : Lts.History System Event → List Message
  | [] => []
  | (_, .runtime (.handlerRan task)) :: h =>
    invocations sub h ++ if taskOf sub task then [task.2] else []
  | _ :: h => invocations sub h

/-- The messages whose tasks have not run yet. -/
def waiting (sub : Subscription) (s : System) : List Message :=
  (s.state.spawned.filter (taskOf sub)).map Prod.snd

/-- Of the tasks of one subscription the oldest runs first. -/
def oldestFirst : Lts.Guard System Event := fun _ s e =>
  match e with
  | .runtime (.handlerRan task) =>
    (s.state.spawned.filter fun other => other.1 = task.1).head? = some task
  | _ => true

theorem direct_ofPublish (packet : PublishPacket) :
    direct (.ofPublish packet) = decide (packet.qos.split.1 ≠ .level2) := rfl

/-- The tasks that a dispatch spawns for a subscription. -/
theorem tasks_filter (st : State) (packet : PublishPacket) (sub : Subscription) :
    ((st.handlerTasks packet).filter (taskOf sub)).map Prod.snd =
      if packet.qos.split.1 = .level2 then []
      else List.replicate ((st.topicManager.matchTopic packet.topicName).count sub)
        (.ofPublish packet) := by
  unfold State.handlerTasks
  by_cases hq : packet.qos.split.1 = .level2
  · simp [taskOf, direct_ofPublish, hq]
  · rw [if_neg hq]
    induction st.topicManager.matchTopic packet.topicName with
    | nil => rfl
    | cons other subs ih =>
      rw [List.map_cons, List.filter_cons, List.count_cons]
      by_cases ho : other = sub
      · simp [taskOf, direct_ofPublish, hq, ho, ih, List.replicate_succ]
      · simp [taskOf, ho, ih]

/-- What is pending is QoS 2, so its dispatch is none of these. -/
theorem tasks_pending (hr : Run codec options guard h s) (sub : Subscription)
    (hp : State.released (.pubrel k) s.state = some packet) :
    ((s.state.handlerTasks packet).filter (taskOf sub)).map Prod.snd = [] := by
  obtain ⟨t, hlast⟩ := released_pubrel hr hp
  rw [tasks_filter, lastPublish_qos hlast]
  rfl

/-- An event other than a handler's run spawns the tasks of what it receives. -/
theorem waiting_arrived (hr : Run codec options guard h s) (hs : step codec options s e = some s')
    (hne : ∀ task, e ≠ .runtime (.handlerRan task)) (sub : Subscription) :
    waiting sub s' = waiting sub s ++ arrived sub (s, e) := by
  have hsame (hspawn : spawnedAfter s e = s.state.spawned) (harr : arrived sub (s, e) = []) :
      waiting sub s' = waiting sub s ++ arrived sub (s, e) := by
    rw [waiting, spawned_step hs, hspawn, harr]
    exact (List.append_nil _).symm
  cases e with
  | reader e =>
    cases e with
    | received packet =>
      have hspawn := spawned_step hs
      simp only [spawnedAfter] at hspawn
      rw [waiting, hspawn, List.filter_append, List.map_append, waiting]
      congr 1
      cases packet with
      | publish packet =>
        by_cases hq : packet.qos.split.1 = .level2
        · simp [State.released, arrived, hq]
        · simp only [State.released, hq, ↓reduceIte, Option.toList_some, List.flatMap_cons,
            List.flatMap_nil, List.append_nil, tasks_filter, arrived]
      | pubrel pkid =>
        cases hp : State.released (.pubrel pkid) s.state with
        | none => rfl
        | some packet => simpa [arrived] using tasks_pending hr sub hp
      | _ => rfl
    | _ => exact hsame rfl rfl
  | runtime e =>
    cases e with
    | handlerRan task => exact absurd rfl (hne task)
    | _ => exact hsame rfl rfl
  | _ e => exact hsame rfl rfl

-- ---------------------------------------------------------------------------
-- Any order
-- ---------------------------------------------------------------------------

theorem handlerRan_step (hs : step codec options s (.runtime (.handlerRan task)) = some s') :
    task ∈ s.state.spawned ∧ s'.state.spawned = s.state.spawned.erase task := by
  have hspawn := spawned_step hs
  simp only [step, stepRuntime, when_eq_some] at hs
  exact ⟨hs.1, hspawn⟩

theorem invocations_cons (hne : ∀ task, e ≠ .runtime (.handlerRan task)) :
    invocations sub ((s, e) :: h) = invocations sub h := by
  cases e with
  | runtime e =>
    cases e with
    | handlerRan task => exact absurd rfl (hne task)
    | _ => rfl
  | _ e => rfl

/-- Every message is spawned once for each time its match returns the
subscription, and runs at most once. -/
theorem handled_perm (hr : Run codec options guard h s) (sub : Subscription) :
    (invocations sub h ++ waiting sub s).Perm (arrivals sub h) := by
  induction hr with
  | nil => exact .refl []
  | @snoc h s e s' hr _ hs ih =>
    by_cases hran : ∃ task, e = .runtime (.handlerRan task)
    · obtain ⟨task, rfl⟩ := hran
      obtain ⟨hmem, hspawn⟩ := handlerRan_step hs
      have harr : arrivals sub ((s, .runtime (.handlerRan task)) :: h) = arrivals sub h :=
        List.append_nil _
      have hwait : (waiting sub s).Perm
          ((if taskOf sub task then [task.2] else []) ++ waiting sub s') := by
        have hperm := ((List.perm_cons_erase hmem).filter (taskOf sub)).map Prod.snd
        rw [← hspawn] at hperm
        refine hperm.trans (.of_eq ?_)
        rw [waiting, List.filter_cons]
        split <;> rfl
      rw [harr]
      refine List.Perm.trans ?_ ih
      rw [invocations, List.append_assoc]
      exact hwait.symm.append_left _
    · have hne (task : HandlerTask) : e ≠ .runtime (.handlerRan task) := fun he => hran ⟨task, he⟩
      rw [invocations_cons hne, waiting_arrived hr hs hne, ← List.append_assoc, arrivals]
      exact ih.append_right _

-- ---------------------------------------------------------------------------
-- Oldest first
-- ---------------------------------------------------------------------------

/-- The oldest of the elements with a property taken out of a list. -/
theorem filter_erase_head {α : Type} [BEq α] [LawfulBEq α] {l : List α} {p q : α → Bool} {a : α}
    (hp : (l.filter p).head? = some a) (hqp : ∀ x, q x → p x) :
    l.filter q = (if q a then [a] else []) ++ (l.erase a).filter q := by
  obtain ⟨rest, hrest⟩ := List.head?_eq_some_iff.mp hp
  obtain ⟨l₁, l₂, rfl, hnone, hpa, _⟩ := List.filter_eq_cons_iff.mp hrest
  have hnot : a ∉ l₁ := fun hm => hnone a hm hpa
  have hnil : l₁.filter q = [] :=
    List.filter_eq_nil_iff.mpr fun x hx hq => hnone x hx (hqp x hq)
  rw [List.erase_append_right _ hnot, List.erase_cons_head, List.filter_append, List.filter_append,
    hnil, List.filter_cons]
  split <;> rfl

/-- When the tasks of a subscription run oldest first, those that have run and
those that wait are in the order of arrival. -/
theorem handled_oldestFirst (hr : Run codec options oldestFirst h s) (sub : Subscription) :
    invocations sub h ++ waiting sub s = arrivals sub h := by
  induction hr with
  | nil => rfl
  | @snoc h s e s' hr hg hs ih =>
    by_cases hran : ∃ task, e = .runtime (.handlerRan task)
    · obtain ⟨task, rfl⟩ := hran
      obtain ⟨_, hspawn⟩ := handlerRan_step hs
      have harr : arrivals sub ((s, .runtime (.handlerRan task)) :: h) = arrivals sub h :=
        List.append_nil _
      have hwait : waiting sub s =
          (if taskOf sub task then [task.2] else []) ++ waiting sub s' := by
        rw [waiting, waiting, hspawn]
        by_cases ht : task.1 = sub
        · have hsub (other : HandlerTask) (ho : taskOf sub other) : other.1 = task.1 := by
            simp only [taskOf, Bool.and_eq_true, decide_eq_true_eq] at ho
            rw [ho.1, ht]
          rw [filter_erase_head (of_decide_eq_true hg) fun other ho => decide_eq_true (hsub other ho),
            List.map_append]
          split <;> rfl
        · -- a task of another subscription
          have hnot : taskOf sub task = false := by simp [taskOf, ht]
          have hmem : task ∉ s.state.spawned.filter (taskOf sub) := by simp [hnot]
          rw [← List.erase_filter, List.erase_of_not_mem hmem, hnot]
          rfl
      rw [harr, ← ih, hwait, invocations, List.append_assoc]
    · have hne (task : HandlerTask) : e ≠ .runtime (.handlerRan task) := fun he => hran ⟨task, he⟩
      rw [invocations_cons hne, waiting_arrived hr hs hne, ← List.append_assoc, ih, arrivals]

/-- In every run each QoS 0 and QoS 1 message is spawned once for each time its
match returns a subscription, and runs at most once; and in a run in which the
tasks of a subscription run oldest first, its handler is called with them in
the order of arrival. -/
theorem handled_in_order (hr : Run codec options guard h s) (sub : Subscription) :
    (invocations sub h ++ waiting sub s).Perm (arrivals sub h) ∧
      (Run codec options oldestFirst h s → invocations sub h <+: arrivals sub h) :=
  ⟨handled_perm hr sub, fun hr' => ⟨waiting sub s, handled_oldestFirst hr' sub⟩⟩

/-- A task is only spawned for a subscription whose filter matches its message. -/
theorem spawned_covers (hr : Run codec options guard h s) (ht : (sub, msg) ∈ s.state.spawned) :
    FilterCovers sub.topic msg.topic := by
  induction hr with
  | nil => cases ht
  | @snoc h s e s' hr _ hs ih =>
    rw [spawned_step hs] at ht
    unfold spawnedAfter at ht
    split at ht
    · rcases List.mem_append.mp ht with ht | ht
      · exact ih ht
      · obtain ⟨packet, _, ht⟩ := List.mem_flatMap.mp ht
        obtain ⟨sub, hmatch, heq⟩ := List.mem_map.mp ht
        cases heq
        exact (TopicManager.mem_matchTopic _ hmatch).2.covers
    · exact ih (List.mem_of_mem_erase ht)
    · exact ih ht

def message (byte : UInt8) : PublishPacket := { topicName := "a", qos := .level0, payload := [byte] }

/-- The subscription that `subscribing` makes. -/
def subscriptionToA : Subscription := ⟨"a", .level1, 7⟩

/-- A connected client subscribed to `a`, and two messages for it. -/
def twoMessages : List Event :=
  connecting none 0 false ++ connected none 0 false ++ subscribing "a" 7 1 2 ++
    [received (.publish (message 1)), received (.publish (message 2))]

theorem handled_in_order_two : ∃ h s, Run acceptingCodec .new oldestFirst h s ∧
    invocations subscriptionToA h = [.ofPublish (message 1), .ofPublish (message 2)] ∧
    invocations subscriptionToA h <+: arrivals subscriptionToA h := by
  obtain ⟨h, s, hr, ht⟩ := Lts.exists_run (step acceptingCodec .new) oldestFirst init
    (twoMessages ++ [.runtime (.handlerRan (subscriptionToA, .ofPublish (message 1))),
      .runtime (.handlerRan (subscriptionToA, .ofPublish (message 2)))])
    (fun h _ => invocations subscriptionToA h = [.ofPublish (message 1), .ofPublish (message 2)])
    (by decide +kernel)
  exact ⟨h, s, hr, of_decide_eq_true ht, (handled_in_order hr subscriptionToA).2 hr⟩

/-- The task of the second message runs first. -/
theorem handled_reversed : ¬ ∀ h s, Run acceptingCodec .new Lts.anything h s →
    ∀ sub, invocations sub h <+: arrivals sub h := by
  obtain ⟨h, s, hr, ht⟩ := Lts.exists_run (step acceptingCodec .new) Lts.anything init
    (twoMessages ++ [.runtime (.handlerRan (subscriptionToA, .ofPublish (message 2)))])
    (fun h _ => invocations subscriptionToA h = [.ofPublish (message 2)] &&
      arrivals subscriptionToA h = [.ofPublish (message 1), .ofPublish (message 2)])
    (by decide +kernel)
  simp only [Bool.and_eq_true, decide_eq_true_eq] at ht
  intro hall
  have hpre := hall h s hr subscriptionToA
  rw [ht.1, ht.2] at hpre
  exact absurd hpre (by decide)

end System

end MesquitteClient
