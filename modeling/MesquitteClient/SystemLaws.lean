import MesquitteClient.System
import MesquitteClient.NetLaws

/-!
# What a step does

`stateAfter`, `connAfter` and `statusAfter` are what a step leaves, over all
events (`step_parts`), and the laws after them say what that means for each
part of the state: the identifier table, the tokens, the trie, the
subscriptions, the pending packets and the dispatched messages. Everything
later about these follows from the laws, without opening `step` again.
-/

namespace MesquitteClient

namespace System

variable {codec : Codec} {options : ClientOptions} {s s' : System} {e : Event}

def owner (s : System) (pkid : UInt16) : Option TokenId := s.state.owner pkid

/-- A token is registered under some identifier. -/
def registered (s : System) (t : TokenId) : Bool := t ∈ s.state.packetIds.registered

theorem registered_iff (s : System) : s.registered t ↔ ∃ k, s.owner k = some t := by
  simp only [registered, decide_eq_true_eq, PacketIds.mem_registered]
  rfl

def entries (s : System) (filter : String) : List Subscription := s.state.entries filter

/-- What the map of subscriptions holds for a filter. -/
def subscription (s : System) (filter : String) : Option Subscription :=
  s.state.subscriptions[filter]?

/-- The token an event creates. -/
def created : Event → Option InnerToken
  | .call (.accepted _ call) => some call.newToken
  | .call (.refused _ call) => some (call.newToken.setError .connectionLost)
  | .connect (.started _) => some .connect
  | .connect (.already _) => some (InnerToken.connect.setReturnCode .connectionAccepted)
  | .connect (.reconnecting _) => some (InnerToken.connect.setError .reconnecting)
  | _ => none

/-- The token an event changes on its own, and how. -/
def touched : Event → Option (TokenId × (InnerToken → InnerToken))
  | .call (.exhausted frame) => some (frame.token, (·.setError .packetIdError))
  | .call (.topicAdded frame _ topic _) => some (frame.token, (·.addTopic topic))
  | .call (.invalid frame _ _) => some (frame.token, (·.setError .invalidTopic))
  | .call (.sendFailed frame _) => some (frame.token, (·.setError .internalServerError))
  | .call (.returned frame) => some (frame.token, (·.addSubscriptions frame.call.subscriptions))
  | .connect (.transportFailed _ t err) => some (t, (·.setError err))
  | .connect (.refused _ t item) => some (t, fun inner => (refuse item inner).getD inner)
  | .connect (.returned _ t sessionPresent) =>
    some (t, fun inner => (if sessionPresent then inner.setSessionPresent else inner).flowComplete)
  | .writer (.outgoingWritten outgoing) => outgoing.token.map (·, completeWritten)
  | .writer (.outgoingFailed outgoing err) => outgoing.token.map (·, (·.setError (.ioError err)))
  | _ => none

/-- The events that run `clean_up`. -/
def cleansUp : Event → Bool
  | .block .jobCleanUp | .supervisor .cleanedUp => true
  | _ => false

theorem cleansUp_iff : cleansUp e ↔ e = .block .jobCleanUp ∨ e = .supervisor .cleanedUp := by
  refine ⟨fun h => ?_, ?_⟩
  · unfold cleansUp at h
    split at h
    · exact .inl rfl
    · exact .inr rfl
    · cases h
  · rintro (rfl | rfl) <;> rfl

def stateAfter (st : State) : Event → State
  | .call (.registered frame _) => { st with packetIds := (st.packetIds.getId frame.token).1 }
  | .reader (.received packet) => (readFromServer packet st).1
  | .connect (.accepted ..) => st.renew
  | .block .jobCleanUp => st.cleanUp
  | .supervisor .cleanedUp => st.cleanUp
  | .block (.jobClear _) => { st with topicManager := st.topicManager.clear }
  | .writer (.msgWritten _) => { st with lastSentPacketAt := st.now }
  | .writer (.outgoingWritten outgoing) =>
    { (match touched (.writer (.outgoingWritten outgoing)) with
       | some (t, f) => st.modifyToken t f
       | none => st) with lastSentPacketAt := st.now }
  | .runtime (.elapsed duration) => { st with now := st.now + duration }
  | .runtime (.evicted pkid) => { st with pendingPackets := st.pendingPackets.evict pkid }
  | .runtime (.handlerRan task) => { st with spawned := st.spawned.erase task }
  | e =>
    match created e, touched e with
    | some token, _ => { st with tokens := st.tokens.alloc token }
    | none, some (t, f) => st.modifyToken t f
    | none, none => st

def connAfter (options : ClientOptions) (s : System) : Event → Connection
  | .call (.enqueued frame packet) =>
    { s.conn with outgoing := s.conn.outgoing ++ [⟨packet, some frame.token⟩] }
  | .connect (.accepted ..) => {}
  | .reader (.received packet) =>
    { s.conn with
      reader := match (readFromServer packet s.state).2 with
        | .proceed => .reading
        | .respond resp => .responding resp
        | .leave => .ended }
  | .reader (.responded resp) => { s.conn with reader := .reading, msg := s.conn.msg ++ [resp] }
  | .reader (.respondFailed _) => { s.conn with reader := .ended }
  | .reader .streamEnded => { s.conn with reader := .ended }
  | .writer (.msgTaken packet) =>
    { s.conn with writer := .writingMsg packet, msg := s.conn.msg.tail }
  | .writer (.outgoingTaken outgoing) =>
    { s.conn with writer := .writingOutgoing outgoing, outgoing := s.conn.outgoing.tail }
  | .writer (.msgWritten _) => { s.conn with writer := .selecting }
  | .writer (.outgoingWritten _) => { s.conn with writer := .selecting }
  | .writer (.msgFailed _) => s.conn.writerEnds
  | .writer (.outgoingFailed ..) => s.conn.writerEnds
  | .writer .msgClosed => s.conn.writerEnds
  | .keepAlive .checked =>
    let elapsed := s.state.now - s.state.lastSentPacketAt
    { s.conn with
      keepAlive :=
        if s.conn.exit then .ended
        else if options.keepAlive ≤ elapsed then .sending
        else .remaining (options.keepAlive - elapsed) }
  | .keepAlive .pinged =>
    { s.conn with outgoing := s.conn.outgoing ++ [⟨.pingreq, none⟩], keepAlive := .pinged }
  | .keepAlive .pingFailed => { s.conn with keepAlive := .pinged }
  | .keepAlive .sleep =>
    { s.conn with keepAlive := .sleeping (s.state.now + options.keepAlive) }
  | .keepAlive (.sleepUntil remaining) =>
    { s.conn with keepAlive := .sleeping (s.state.now + remaining) }
  | .keepAlive (.woke _) => { s.conn with keepAlive := .checking }
  | .supervisor .joined => { s.conn with supervisor := .statusSet }
  | .supervisor .exitStored => { s.conn with exit := true, supervisor := .exitSet }
  | .supervisor .cleanedUp => { s.conn with supervisor := .finished }
  | _ => s.conn

def statusAfter (s : System) : Event → ConnectStatus
  | .connect (.started _) => .connecting
  | .connect (.transportFailed ..) | .connect (.refused ..) => .disconnected
  | .connect (.statusSet ..) => .connected
  | .supervisor .joined => .disconnected
  | _ => s.connectStatus

/-- The events of the client task. -/
def ofClient : Event → Bool
  | .call _ | .connect _ | .block _ => true
  | _ => false

theorem afterSleep_eq (options : ClientOptions) (s : System) : afterSleep options s =
    { s with notify := (afterSleep options s).notify, client := (afterSleep options s).client } := by
  unfold afterSleep
  split <;> (try split) <;> (try split) <;> rfl

/-- What a step leaves of each part of the system; only the client task moves
itself. -/
theorem step_parts (hs : step codec options s e = some s') :
    s'.state = stateAfter s.state e ∧ s'.conn = connAfter options s e ∧
      s'.connectStatus = statusAfter s e ∧ (ofClient e = false → s'.client = s.client) := by
  cases e with
  | call e =>
    cases e with
    | exhausted frame =>
      simp only [step, stepCall, when_eq_some] at hs
      obtain ⟨⟨_, hz⟩, rfl⟩ := hs
      rcases s.state.packetIds.getId_cases frame.token with ⟨_, hids⟩ | ⟨hne, _⟩
      · simp only [hids]
        exact ⟨rfl, rfl, rfl, fun h => by cases h⟩
      · exact absurd hz hne
    | _ =>
      simp only [step, stepCall, when_eq_some] at hs
      obtain ⟨_, rfl⟩ := hs
      exact ⟨rfl, rfl, rfl, fun h => by cases h⟩
  | connect e =>
    cases e <;> simp only [step, stepConnect, when_eq_some] at hs <;> obtain ⟨_, rfl⟩ := hs <;>
      exact ⟨rfl, rfl, rfl, fun h => by cases h⟩
  | block e =>
    cases e with
    | slept cnt =>
      simp only [step, stepBlock, when_eq_some] at hs
      obtain ⟨_, rfl⟩ := hs
      rw [afterSleep_eq]
      exact ⟨rfl, rfl, rfl, fun h => by cases h⟩
    | _ =>
      simp only [step, stepBlock, when_eq_some] at hs
      obtain ⟨_, rfl⟩ := hs
      exact ⟨rfl, rfl, rfl, fun h => by cases h⟩
  | reader e =>
    cases e <;> simp only [step, stepReader, when_eq_some] at hs <;> obtain ⟨_, rfl⟩ := hs <;>
      exact ⟨rfl, rfl, rfl, fun _ => rfl⟩
  | writer e =>
    cases e with
    | outgoingWritten outgoing | outgoingFailed outgoing err =>
      simp only [step, stepWriter, when_eq_some] at hs
      obtain ⟨_, rfl⟩ := hs
      obtain ⟨packet, _ | t⟩ := outgoing <;> exact ⟨rfl, rfl, rfl, fun _ => rfl⟩
    | _ =>
      simp only [step, stepWriter, when_eq_some] at hs
      obtain ⟨_, rfl⟩ := hs
      exact ⟨rfl, rfl, rfl, fun _ => rfl⟩
  | keepAlive e =>
    cases e <;> simp only [step, stepKeepAlive, when_eq_some] at hs <;> obtain ⟨_, rfl⟩ := hs <;>
      exact ⟨rfl, rfl, rfl, fun _ => rfl⟩
  | supervisor e =>
    cases e <;> simp only [step, stepSupervisor, when_eq_some] at hs <;> obtain ⟨_, rfl⟩ := hs <;>
      exact ⟨rfl, rfl, rfl, fun _ => rfl⟩
  | runtime e =>
    cases e with
    | handlerRan task =>
      simp only [step, stepRuntime, when_eq_some] at hs
      obtain ⟨_, rfl⟩ := hs
      exact ⟨rfl, rfl, rfl, fun _ => rfl⟩
    | _ =>
      simp only [step, stepRuntime, Option.some.injEq] at hs
      obtain rfl := hs
      exact ⟨rfl, rfl, rfl, fun _ => rfl⟩

theorem state_step (hs : step codec options s e = some s') : s'.state = stateAfter s.state e :=
  (step_parts hs).1

theorem conn_step (hs : step codec options s e = some s') : s'.conn = connAfter options s e :=
  (step_parts hs).2.1

/-- The write loop leaves the rest of the state alone. -/
theorem stateAfter_writer (st : State) (e : WriterEvent) :
    stateAfter st (.writer e) = { st with
      tokens := (stateAfter st (.writer e)).tokens
      lastSentPacketAt := (stateAfter st (.writer e)).lastSentPacketAt } := by
  cases e with
  | outgoingWritten outgoing | outgoingFailed outgoing err =>
    obtain ⟨packet, _ | u⟩ := outgoing <;> rfl
  | _ => rfl

theorem status_step (hs : step codec options s e = some s') :
    s'.connectStatus = statusAfter s e :=
  (step_parts hs).2.2.1

theorem client_step (hs : step codec options s e = some s') (he : ofClient e = false) :
    s'.client = s.client :=
  (step_parts hs).2.2.2 he

-- ---------------------------------------------------------------------------
-- The laws
-- ---------------------------------------------------------------------------

def ownerAfter (s : System) (k : UInt16) : Event → Option TokenId
  | .call (.registered frame pkid) => if pkid = k then some frame.token else s.owner k
  | .reader (.received packet) =>
    if (State.ended packet s.state).map Prod.fst = some k then none else s.owner k
  | e => if cleansUp e then none else s.owner k

/-- A call registers its token under an identifier that was free. -/
theorem registered_step (hs : step codec options s (.call (.registered frame pkid)) = some s') :
    s.client = .call frame .registering ∧ pkid ≠ 0 ∧ s.owner pkid = none := by
  simp only [step, stepCall, when_eq_some] at hs
  obtain ⟨⟨hc, rfl, hz⟩, _⟩ := hs
  rcases s.state.packetIds.getId_cases frame.token with ⟨h0, _⟩ | ⟨_, hfree, _⟩
  · exact absurd h0 hz
  · exact ⟨hc, hz, hfree⟩

theorem owner_step (hs : step codec options s e = some s') : s'.owner k = ownerAfter s k e := by
  rw [owner, state_step hs]
  cases e with
  | call e =>
    cases e with
    | registered frame pkid =>
      simp only [step, stepCall, when_eq_some] at hs
      obtain ⟨⟨_, rfl, hz⟩, _⟩ := hs
      rcases s.state.packetIds.getId_cases frame.token with ⟨h0, _⟩ | ⟨_, _, hids⟩
      · exact absurd h0 hz
      · simp only [stateAfter, State.owner, hids, PacketIds.getToken_issued]
        rfl
    | _ => rfl
  | block e =>
    cases e with
    | jobCleanUp => exact s.state.owner_cleanUp
    | _ => rfl
  | reader e =>
    cases e with
    | received packet => exact State.owner_readFromServer packet s.state
    | _ => rfl
  | writer e =>
    rw [stateAfter_writer]
    rfl
  | supervisor e =>
    cases e with
    | cleanedUp => exact s.state.owner_cleanUp
    | _ => rfl
  | _ e => cases e <;> rfl

/-- A token after an event, if it was there before. -/
def cellAfter (s : System) (t : TokenId) : Event → InnerToken
  | .reader (.received packet) =>
    if (State.ended packet s.state).map Prod.snd = some t then
      (State.noted packet (s.cell t)).flowComplete
    else s.cell t
  | e =>
    if cleansUp e && s.registered t then (s.cell t).setError .connectionLost
    else match touched e with
      | some (u, f) => if t = u then f (s.cell u) else s.cell t
      | none => s.cell t

theorem cell_alloc (st : State) (token : InnerToken) (ht : t < st.tokens.next) :
    ({ st with tokens := st.tokens.alloc token } : State).cell t = st.cell t :=
  st.tokens.cell_alloc_of_lt ht

theorem cell_cleanUp (s : System) (t : TokenId) : s.state.cleanUp.cell t =
    if s.registered t then (s.cell t).setError .connectionLost else s.cell t := by
  rw [State.cell_cleanUp]
  simp [registered, cell]

theorem cell_step (hs : step codec options s e = some s') (ht : t < s.state.tokens.next) :
    s'.cell t = cellAfter s t e := by
  rw [cell, state_step hs]
  cases e with
  | call e =>
    cases e with
    | accepted job call => exact cell_alloc _ _ ht
    | refused job call => exact cell_alloc _ _ ht
    | registered frame pkid => rfl
    | built frame pkid packet => rfl
    | enqueued frame packet => rfl
    | _ => exact s.state.cell_modifyToken
  | connect e =>
    cases e with
    | started caller => exact cell_alloc _ _ ht
    | already caller => exact cell_alloc _ _ ht
    | reconnecting caller => exact cell_alloc _ _ ht
    | transportFailed caller token err => exact s.state.cell_modifyToken
    | refused caller token item => exact s.state.cell_modifyToken
    | returned caller token sessionPresent => exact s.state.cell_modifyToken
    | _ => rfl
  | block e =>
    cases e with
    | jobCleanUp => exact cell_cleanUp s t
    | _ => rfl
  | reader e =>
    cases e with
    | received packet => exact State.cell_readFromServer packet s.state
    | _ => rfl
  | writer e =>
    cases e with
    | outgoingWritten outgoing | outgoingFailed outgoing err =>
      obtain ⟨packet, _ | u⟩ := outgoing
      · rfl
      · exact s.state.cell_modifyToken
    | _ => rfl
  | supervisor e =>
    cases e with
    | cleanedUp => exact cell_cleanUp s t
    | _ => rfl
  | _ e => cases e <;> rfl

theorem next_step (hs : step codec options s e = some s') : s'.state.tokens.next =
    if (created e).isSome then s.state.tokens.next + 1 else s.state.tokens.next := by
  rw [state_step hs]
  cases e with
  | block e =>
    cases e with
    | jobCleanUp => exact s.state.packetIds.cleanUp_next s.state.tokens
    | _ => rfl
  | reader e =>
    cases e with
    | received packet => exact State.next_readFromServer packet s.state
    | _ => rfl
  | writer e =>
    cases e with
    | outgoingWritten outgoing | outgoingFailed outgoing err =>
      obtain ⟨packet, _ | u⟩ := outgoing <;> rfl
    | _ => rfl
  | supervisor e =>
    cases e with
    | cleanedUp => exact s.state.packetIds.cleanUp_next s.state.tokens
    | _ => rfl
  | _ e => cases e <;> rfl

theorem next_le_step (hs : step codec options s e = some s') :
    s.state.tokens.next ≤ s'.state.tokens.next := by
  rw [next_step hs]
  split
  · exact Nat.le_succ _
  · exact Nat.le_refl _

theorem cell_created (hs : step codec options s e = some s') (hc : created e = some token) :
    s'.cell s.state.tokens.next = token := by
  rw [cell, state_step hs]
  have halloc : ({ s.state with tokens := s.state.tokens.alloc token } : State).cell
      s.state.tokens.next = token := s.state.tokens.cell_alloc_next
  cases e with
  | call e =>
    cases e with
    | accepted job call | refused job call =>
      simp only [created, Option.some.injEq] at hc
      exact hc ▸ halloc
    | _ => simp [created] at hc
  | connect e =>
    cases e with
    | started caller | already caller | reconnecting caller =>
      simp only [created, Option.some.injEq] at hc
      exact hc ▸ halloc
    | _ => simp [created] at hc
  | _ e => simp [created] at hc

-- ---------------------------------------------------------------------------
-- What a token keeps
-- ---------------------------------------------------------------------------

/-- Nothing undoes the completion or the error of a token or takes back its
results; subscriptions are added only when a call returns, and a session is
present only when `connect` returns with one. -/
structure Keeps (e : Event) (token token' : InnerToken) : Prop where
  kind : token'.kind = token.kind
  complete : token.complete → token'.complete
  error : token'.error = none → token.error = none
  result : ∀ topic : String, token.result[topic]?.isSome → token'.result[topic]?.isSome
  subscriptions : (∀ frame, e ≠ .call (.returned frame)) →
    token'.subscriptions = token.subscriptions
  sessionPresent : (∀ caller t, e ≠ .connect (.returned caller t true)) →
    token'.sessionPresent = token.sessionPresent

theorem refuse_cases (hf : refuse item token = some token') :
    Keeps e token token' ∧ token'.complete ∧ token'.error.isSome := by
  unfold refuse at hf
  split at hf <;> cases hf <;> exact ⟨by constructor <;> simp, by simp, by simp⟩

theorem completeWritten_cases (token : InnerToken) :
    completeWritten token = token ∨ completeWritten token = token.flowComplete := by
  unfold completeWritten
  split <;> simp

theorem touched_keeps (hf : touched e = some (u, f)) (token : InnerToken) :
    Keeps e token (f token) := by
  cases e with
  | call e =>
    cases e with
    | exhausted frame | topicAdded frame pkid topic rest | invalid frame pkid topics
    | sendFailed frame packet | returned frame =>
      simp only [touched, Option.some.injEq, Prod.mk.injEq] at hf
      obtain ⟨_, rfl⟩ := hf
      constructor <;> simp
    | _ => simp [touched] at hf
  | connect e =>
    cases e with
    | transportFailed caller t err =>
      simp only [touched, Option.some.injEq, Prod.mk.injEq] at hf
      obtain ⟨_, rfl⟩ := hf
      constructor <;> simp
    | refused caller t item =>
      simp only [touched, Option.some.injEq, Prod.mk.injEq] at hf
      obtain ⟨_, rfl⟩ := hf
      cases hr : refuse item token with
      | none => constructor <;> simp [hr]
      | some token' =>
        simp only [hr, Option.getD_some]
        exact (refuse_cases hr).1
    | returned caller t sessionPresent =>
      simp only [touched, Option.some.injEq, Prod.mk.injEq] at hf
      obtain ⟨_, rfl⟩ := hf
      cases sessionPresent <;> constructor <;> simp
    | _ => simp [touched] at hf
  | writer e =>
    cases e with
    | outgoingWritten outgoing =>
      simp only [touched, Option.map_eq_some_iff, Prod.mk.injEq] at hf
      obtain ⟨_, _, _, rfl⟩ := hf
      rcases completeWritten_cases token with h | h <;> constructor <;> simp [h]
    | outgoingFailed outgoing err =>
      simp only [touched, Option.map_eq_some_iff, Prod.mk.injEq] at hf
      obtain ⟨_, _, _, rfl⟩ := hf
      constructor <;> simp
    | _ => simp [touched] at hf
  | _ e => cases e <;> simp [touched] at hf

/-- What can happen to a token in one step. -/
theorem cell_cases (hs : step codec options s e = some s') (ht : t < s.state.tokens.next) :
    (∃ ack k, e = received ack ∧ State.ended ack s.state = some (k, t) ∧
        s'.cell t = (State.noted ack (s.cell t)).flowComplete) ∨
      (cleansUp e ∧ s.registered t ∧ s'.cell t = (s.cell t).setError .connectionLost) ∨
      (∃ f, touched e = some (t, f) ∧ s'.cell t = f (s.cell t)) ∨
      s'.cell t = s.cell t := by
  rw [cell_step hs ht]
  unfold cellAfter
  split
  · rename_i ack
    split
    · rename_i hsnd
      obtain ⟨⟨k, _⟩, hend, rfl⟩ := Option.map_eq_some_iff.mp hsnd
      exact .inl ⟨ack, k, rfl, hend, rfl⟩
    · exact .inr (.inr (.inr rfl))
  · split
    · rename_i hclean
      rw [Bool.and_eq_true] at hclean
      exact .inr (.inl ⟨hclean.1, hclean.2, rfl⟩)
    · split
      · rename_i u f hf
        by_cases hu : t = u
        · subst hu
          exact .inr (.inr (.inl ⟨f, hf, if_pos rfl⟩))
        · exact .inr (.inr (.inr (if_neg hu)))
      · exact .inr (.inr (.inr rfl))

theorem cell_step_keeps (hs : step codec options s e = some s') (ht : t < s.state.tokens.next) :
    Keeps e (s.cell t) (s'.cell t) := by
  rcases cell_cases hs ht with ⟨ack, k, _, _, h⟩ | ⟨_, _, h⟩ | ⟨f, hf, h⟩ | h <;> rw [h]
  · cases ack with
    | suback pkid codes =>
      constructor
      case result => exact fun topic h => State.record_result 0 codes _ (.inl h)
      all_goals simp [State.noted]
    | _ => constructor <;> simp [State.noted]
  · constructor <;> simp
  · exact touched_keeps hf (s.cell t)
  · constructor <;> simp

theorem kind_step (hs : step codec options s e = some s') (ht : t < s.state.tokens.next) :
    (s'.cell t).kind = (s.cell t).kind := (cell_step_keeps hs ht).kind

theorem complete_step (hs : step codec options s e = some s') (ht : t < s.state.tokens.next)
    (hc : (s.cell t).complete) : (s'.cell t).complete := (cell_step_keeps hs ht).complete hc

theorem error_step (hs : step codec options s e = some s') (ht : t < s.state.tokens.next)
    (hn : (s'.cell t).error = none) : (s.cell t).error = none := (cell_step_keeps hs ht).error hn

/-- An event other than an acknowledgement completes a token without an error
only as the write loop or as `connect`. -/
theorem touched_completes (hf : touched e = some (t, f)) {token : InnerToken}
    (hn : ¬ token.complete) (hc : (f token).complete) (he : (f token).error = none) :
    (∃ o, e = .writer (.outgoingWritten o) ∧ o.token = some t ∧ f = completeWritten) ∨
      ∃ caller sp, e = .connect (.returned caller t sp) := by
  cases e with
  | call e => cases e <;> simp only [touched, Option.some.injEq, Prod.mk.injEq, reduceCtorEq] at hf <;>
      obtain ⟨_, rfl⟩ := hf <;> simp_all
  | connect e =>
    cases e with
    | transportFailed caller u err =>
      simp only [touched, Option.some.injEq, Prod.mk.injEq] at hf
      obtain ⟨_, rfl⟩ := hf
      simp at he
    | refused caller u item =>
      simp only [touched, Option.some.injEq, Prod.mk.injEq] at hf
      obtain ⟨_, rfl⟩ := hf
      cases hr : refuse item token with
      | none =>
        simp only [hr, Option.getD_none] at hc
        exact absurd hc hn
      | some token' =>
        have herr := (refuse_cases (e := .connect (.refused caller u item)) hr).2.2
        simp only [hr, Option.getD_some] at he
        simp [he] at herr
    | returned caller u sp =>
      simp only [touched, Option.some.injEq, Prod.mk.injEq] at hf
      obtain ⟨rfl, _⟩ := hf
      exact .inr ⟨caller, sp, rfl⟩
    | _ => simp [touched] at hf
  | writer e =>
    cases e with
    | outgoingWritten o =>
      simp only [touched, Option.map_eq_some_iff, Prod.mk.injEq] at hf
      obtain ⟨_, hot, rfl, rfl⟩ := hf
      exact .inl ⟨o, rfl, hot, rfl⟩
    | outgoingFailed o err =>
      simp only [touched, Option.map_eq_some_iff, Prod.mk.injEq] at hf
      obtain ⟨_, _, _, rfl⟩ := hf
      simp at he
    | _ => simp [touched] at hf
  | _ e => cases e <;> simp [touched] at hf

-- ---------------------------------------------------------------------------
-- The rest of the state
-- ---------------------------------------------------------------------------

def entriesAfter (s : System) (filter : String) : Event → List Subscription
  | .reader (.received packet) =>
    if filter ∈ State.removed packet s.state then []
    else s.entries filter ++ (State.stored packet s.state).filter fun sub => sub.topic = filter
  | .block (.jobClear _) => []
  | _ => s.entries filter

theorem entries_step (hs : step codec options s e = some s') :
    s'.entries filter = entriesAfter s filter e := by
  rw [entries, state_step hs]
  cases e with
  | block e =>
    cases e with
    | jobClear subs => exact s.state.topicManager.entries_clear
    | _ => rfl
  | reader e =>
    cases e with
    | received packet => exact State.entries_readFromServer packet s.state
    | _ => rfl
  | writer e =>
    rw [stateAfter_writer]
    rfl
  | _ e => cases e <;> rfl

def subscriptionAfter (s : System) (filter : String) : Event → Option Subscription
  | .reader (.received packet) =>
    ((State.stored packet s.state).filter fun sub => sub.topic = filter).getLast?.or
      (s.subscription filter)
  | _ => s.subscription filter

theorem subscription_step (hs : step codec options s e = some s') :
    s'.subscription filter = subscriptionAfter s filter e := by
  rw [subscription, state_step hs]
  cases e with
  | reader e =>
    cases e with
    | received packet =>
      simp only [stateAfter, State.subscriptions_readFromServer]
      exact State.subscriptions_store s.state _ filter
    | _ => rfl
  | writer e =>
    rw [stateAfter_writer]
    rfl
  | _ e => cases e <;> rfl

def pendingPacketsAfter (s : System) : Event → TtlMap UInt16 PublishPacket
  | .reader (.received packet) => State.pendingAfter packet s.state
  | .runtime (.evicted pkid) => s.state.pendingPackets.evict pkid
  | _ => s.state.pendingPackets

theorem pendingPackets_step (hs : step codec options s e = some s') :
    s'.state.pendingPackets = pendingPacketsAfter s e := by
  rw [state_step hs]
  cases e with
  | reader e =>
    cases e with
    | received packet => exact State.pendingPackets_readFromServer packet s.state
    | _ => rfl
  | writer e =>
    rw [stateAfter_writer]
    rfl
  | _ e => cases e <;> rfl

/-- The time that passes in an event. -/
def elapsedIn : Event → Duration
  | .runtime (.elapsed duration) => duration
  | _ => 0

theorem now_step (hs : step codec options s e = some s') :
    s'.state.now = s.state.now + elapsedIn e := by
  rw [state_step hs]
  cases e with
  | reader e =>
    cases e with
    | received packet => exact State.now_readFromServer packet s.state
    | _ => rfl
  | writer e =>
    rw [stateAfter_writer]
    rfl
  | _ e => cases e <;> rfl

theorem now_mono (hs : step codec options s e = some s') : s.state.now ≤ s'.state.now := by
  rw [now_step hs]
  exact Nat.le_add_right _ _

def spawnedAfter (s : System) : Event → List HandlerTask
  | .reader (.received packet) =>
    s.state.spawned ++ (State.released packet s.state).toList.flatMap s.state.handlerTasks
  | .runtime (.handlerRan task) => s.state.spawned.erase task
  | _ => s.state.spawned

theorem spawned_step (hs : step codec options s e = some s') :
    s'.state.spawned = spawnedAfter s e := by
  rw [state_step hs]
  cases e with
  | reader e =>
    cases e with
    | received packet => exact State.spawned_readFromServer packet s.state
    | _ => rfl
  | writer e =>
    rw [stateAfter_writer]
    rfl
  | _ e => cases e <;> rfl

end System

end MesquitteClient
