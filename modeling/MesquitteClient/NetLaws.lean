import MesquitteClient.Net

/-!
# What reading a packet does

One law for each part of the state, over all inbound packets, so that no
later proof opens a handler. `ended` says which registered token a packet
completes; the registry changes there and nowhere else. The trie and the
subscriptions change by an accepted SUBACK or UNSUBACK only, the pending
packets by the two packets of the inbound QoS 2 exchange.
-/

namespace MesquitteClient

namespace State

-- ---------------------------------------------------------------------------
-- The loop of `handle_suback`
-- ---------------------------------------------------------------------------

/-- The subscriptions whose code is not `Failure`, position by position. -/
def accepted (subs : List Subscription) (codes : List SubscribeReturnCode) : List Subscription :=
  (subs.zip codes).filterMap fun p => if p.2 = .failure then none else some p.1

theorem mem_accepted : sub ∈ accepted subs codes ↔
    ∃ (i : Nat) (code : SubscribeReturnCode), subs[i]? = some sub ∧ codes[i]? = some code ∧
      code ≠ .failure := by
  simp only [accepted, List.mem_filterMap, Option.ite_none_left_eq_some, Option.some.injEq,
    Prod.exists]
  constructor
  · rintro ⟨s, code, hm, hc, rfl⟩
    obtain ⟨i, hi⟩ := List.mem_iff_getElem?.mp hm
    rw [List.getElem?_zip_eq_some] at hi
    exact ⟨i, code, hi.1, hi.2, hc⟩
  · rintro ⟨i, code, hs, hc, hf⟩
    refine ⟨sub, code, List.mem_iff_getElem?.mpr ⟨i, ?_⟩, hf, rfl⟩
    rw [List.getElem?_zip_eq_some]
    exact ⟨hs, hc⟩

/-- A list of subscriptions written to the trie and the map, in order. -/
def store (st : State) (subs : List Subscription) : State :=
  subs.foldl accept st

theorem entries_store (st : State) (subs : List Subscription) (filter : String) :
    (st.store subs).entries filter =
      st.entries filter ++ subs.filter fun sub => sub.topic = filter := by
  induction subs generalizing st with
  | nil => simp [store]
  | cons sub subs ih =>
    refine (ih (st.accept sub)).trans ?_
    rw [entries, accept, TopicManager.entries_add]
    by_cases h : sub.topic = filter <;> simp [h, entries]

theorem subscriptions_store (st : State) (subs : List Subscription) (filter : String) :
    (st.store subs).subscriptions[filter]? =
      (subs.filter fun sub => sub.topic = filter).getLast?.or st.subscriptions[filter]? := by
  induction subs generalizing st with
  | nil => simp [store]
  | cons sub subs ih =>
    refine (ih (st.accept sub)).trans ?_
    rw [accept, Std.TreeMap.getElem?_insert]
    by_cases h : sub.topic = filter
    · subst h
      cases hl : (subs.filter fun s => s.topic = sub.topic).getLast? with
      | none => simp [List.getLast?_eq_none_iff.mp hl]
      | some last => simp [List.getLast?_cons, hl]
    · simp [h]

@[simp] theorem store_nil (st : State) : st.store [] = st := rfl

@[simp] theorem removeTopics_nil (st : State) : st.removeTopics [] = st := rfl

/-- Storing touches the trie and the map only. -/
theorem store_eq (st : State) (subs : List Subscription) : st.store subs =
    { st with
      topicManager := (st.store subs).topicManager
      subscriptions := (st.store subs).subscriptions } := by
  induction subs generalizing st with
  | nil => rfl
  | cons sub subs ih => exact ih (st.accept sub)

@[simp] theorem packetIds_store (st : State) : (st.store subs).packetIds = st.packetIds := by
  rw [store_eq]

@[simp] theorem tokens_store (st : State) : (st.store subs).tokens = st.tokens := by
  rw [store_eq]

@[simp] theorem pendingPackets_store (st : State) :
    (st.store subs).pendingPackets = st.pendingPackets := by
  rw [store_eq]

@[simp] theorem lastSentPacketAt_store (st : State) :
    (st.store subs).lastSentPacketAt = st.lastSentPacketAt := by
  rw [store_eq]

@[simp] theorem spawned_store (st : State) : (st.store subs).spawned = st.spawned := by
  rw [store_eq]

@[simp] theorem now_store (st : State) : (st.store subs).now = st.now := by
  rw [store_eq]

@[simp] theorem store_modifyToken (st : State) (subs : List Subscription) :
    (st.modifyToken t f).store subs = (st.store subs).modifyToken t f := by
  induction subs generalizing st with
  | nil => rfl
  | cons sub subs ih => exact ih (st.accept sub)

/-- The codes of a SUBACK recorded in the token, from position `i` on. -/
def record : Nat → List SubscribeReturnCode → InnerToken → InnerToken
  | _, [], token => token
  | i, code :: codes, token => record (i + 1) codes (token.setResult i code)

section
variable (i : Nat) (codes : List SubscribeReturnCode) (token : InnerToken)

@[simp] theorem record_kind : (record i codes token).kind = token.kind := by
  induction codes generalizing i token with
  | nil => rfl
  | cons code codes ih => rw [record, ih, InnerToken.setResult_kind]

@[simp] theorem record_complete : (record i codes token).complete = token.complete := by
  induction codes generalizing i token with
  | nil => rfl
  | cons code codes ih => rw [record, ih, InnerToken.setResult_complete]

@[simp] theorem record_error : (record i codes token).error = token.error := by
  induction codes generalizing i token with
  | nil => rfl
  | cons code codes ih => rw [record, ih, InnerToken.setResult_error]

@[simp] theorem record_subscriptions :
    (record i codes token).subscriptions = token.subscriptions := by
  induction codes generalizing i token with
  | nil => rfl
  | cons code codes ih => rw [record, ih, InnerToken.setResult_subscriptions]

@[simp] theorem record_sessionPresent :
    (record i codes token).sessionPresent = token.sessionPresent := by
  induction codes generalizing i token with
  | nil => rfl
  | cons code codes ih => rw [record, ih, InnerToken.setResult_sessionPresent]

/-- Every position that has both a code and a subscription leaves a result
for the topic of the subscription. -/
theorem record_result
    (h : token.result[topic]?.isSome ∨
      ∃ j sub, j < codes.length ∧ token.subscriptions[i + j]? = some sub ∧ sub.topic = topic) :
    (record i codes token).result[topic]?.isSome := by
  induction codes generalizing i token with
  | nil =>
    rcases h with h | ⟨j, sub, hj, _⟩
    · exact h
    · simp at hj
  | cons code codes ih =>
    apply ih
    rw [InnerToken.setResult_result, InnerToken.setResult_subscriptions]
    rcases h with h | ⟨j, sub, hj, hs, ht⟩
    · left
      split <;> simp [h]
    · cases j with
      | zero =>
        left
        simp only [Nat.add_zero] at hs
        simp [hs, ht]
      | succ j =>
        refine .inr ⟨j, sub, by simpa using hj, ?_, ht⟩
        rw [← hs, Nat.add_right_comm]
        rfl

end

theorem subackEntry_eq (t : TokenId) (i : Nat) (code : SubscribeReturnCode) (st : State) :
    st.subackEntry t i code =
      (st.store (accepted ((st.cell t).subscriptions[i]?.toList) [code])).modifyToken t
        (·.setResult i code) := by
  simp only [subackEntry, cell_modifyToken_self, InnerToken.getSubscription,
    InnerToken.setResult_subscriptions]
  cases (st.cell t).subscriptions[i]? with
  | none => rfl
  | some sub =>
    by_cases hc : code = .failure
    · simp [hc, accepted, store]
    · simp only [ne_eq, hc, not_false_eq_true, ↓reduceIte, accepted, Option.toList_some,
        List.zip_cons_cons, List.zip_nil_right, List.filterMap_cons, List.filterMap_nil]
      rfl

theorem accepted_drop (subs : List Subscription) (i : Nat) :
    accepted (subs.drop i) (code :: codes) =
      accepted subs[i]?.toList [code] ++ accepted (subs.drop (i + 1)) codes := by
  by_cases hi : i < subs.length
  · rw [List.drop_eq_getElem_cons hi, List.getElem?_eq_getElem hi]
    generalize subs[i] = sub, List.drop (i + 1) subs = rest
    by_cases hc : code = .failure <;> simp [accepted, hc]
  · rw [List.drop_eq_nil_of_le (by omega), List.drop_eq_nil_of_le (by omega),
      List.getElem?_eq_none (by omega)]
    rfl

theorem store_append (st : State) : st.store (subs ++ subs') = (st.store subs).store subs' := by
  simp [store]

/-- The loop stores what was accepted and records the codes in the token. -/
theorem subackLoop_eq (t : TokenId) (i : Nat) (codes : List SubscribeReturnCode) (st : State) :
    st.subackLoop t i codes =
      (st.store (accepted ((st.cell t).subscriptions.drop i) codes)).modifyToken t
        (record i codes) := by
  induction codes generalizing i st with
  | nil => simp [subackLoop, accepted, store, record, modifyToken, Tokens.modify]
  | cons code codes ih =>
    have hcell (subs : List Subscription) : (st.store subs).cell t = st.cell t := by
      rw [store_eq]
      rfl
    rw [subackLoop, ih, subackEntry_eq, cell_modifyToken_self, InnerToken.setResult_subscriptions,
      hcell, store_modifyToken, ← store_append, ← accepted_drop]
    simp [modifyToken, Tokens.modify, record]

theorem entries_removeTopics (st : State) (topics : List String) :
    (st.removeTopics topics).entries filter = if filter ∈ topics then [] else st.entries filter := by
  induction topics generalizing st with
  | nil => simp [removeTopics]
  | cons topic topics ih =>
    refine (ih { st with topicManager := (st.topicManager.remove topic).1 }).trans ?_
    simp only [entries, TopicManager.entries_remove, List.mem_cons]
    by_cases ht : filter = topic
    · simp [ht]
    · simp [ht, Ne.symm ht]

-- ---------------------------------------------------------------------------
-- What a packet ends, stores, removes and dispatches
-- ---------------------------------------------------------------------------

/-- The identifier a final acknowledgement is for. -/
def acked : VariablePacket → Option UInt16
  | .puback pkid | .pubcomp pkid | .suback pkid _ | .unsuback pkid => some pkid
  | _ => none

/-- The kinds of token its handler completes. -/
def handles : VariablePacket → TokenKind → Bool
  | .suback .., kind => kind = .subscribe
  | .unsuback _, kind => kind = .unsubscribe
  | _, _ => true

/-- The identifier a packet frees and the token it completes. -/
def ended (packet : VariablePacket) (st : State) : Option (UInt16 × TokenId) :=
  (acked packet).bind fun pkid => (st.owner pkid).bind fun t =>
    if handles packet (st.cell t).kind then some (pkid, t) else none

theorem ended_eq_some {st : State} : ended packet st = some (k, t) ↔
    acked packet = some k ∧ st.owner k = some t ∧ handles packet (st.cell t).kind := by
  simp only [ended, Option.bind_eq_some_iff, Option.ite_none_right_eq_some, Option.some.injEq,
    Prod.mk.injEq]
  constructor
  · rintro ⟨_, ha, _, ho, hh, rfl, rfl⟩
    exact ⟨ha, ho, hh⟩
  · rintro ⟨ha, ho, hh⟩
    exact ⟨k, ha, t, ho, hh, rfl, rfl⟩

/-- What a packet records in the token it completes, besides completing it. -/
def noted (packet : VariablePacket) (token : InnerToken) : InnerToken :=
  match packet with
  | .suback _ codes => record 0 codes token
  | _ => token

/-- The subscriptions a packet makes the client accept. -/
def stored (packet : VariablePacket) (st : State) : List Subscription :=
  match packet, ended packet st with
  | .suback _ codes, some (_, t) => accepted (st.cell t).subscriptions codes
  | _, _ => []

/-- The filters a packet takes out of the trie. -/
def removed (packet : VariablePacket) (st : State) : List String :=
  match packet, ended packet st with
  | .unsuback _, some (_, t) => (st.cell t).topics
  | _, _ => []

/-- The message a packet makes the client dispatch. -/
def released (packet : VariablePacket) (st : State) : Option PublishPacket :=
  match packet with
  | .publish packet => if packet.qos.split.1 = .level2 then none else some packet
  | .pubrel pkid => st.pendingPackets.entries[pkid]?.map Prod.fst
  | _ => none

def handlerTasks (st : State) (packet : PublishPacket) : List HandlerTask :=
  (st.topicManager.matchTopic packet.topicName).map (·, Message.ofPublish packet)

/-- The pending packets after a packet. -/
def pendingAfter (packet : VariablePacket) (st : State) : TtlMap UInt16 PublishPacket :=
  match packet with
  | .publish packet =>
    match packet.qos with
    | .level2 pkid => st.pendingPackets.insert st.now pkid packet
    | _ => st.pendingPackets
  | .pubrel pkid => st.pendingPackets.evict pkid
  | _ => st.pendingPackets

-- ---------------------------------------------------------------------------
-- The laws
-- ---------------------------------------------------------------------------

theorem handleSuback_eq (st : State) : st.handleSuback pkid codes =
    match ended (.suback pkid codes) st with
    | some (k, t) =>
      ((st.store (accepted (st.cell t).subscriptions codes)).modifyToken t (record 0 codes)).finish k t
    | none => st := by
  simp only [handleSuback, ended, acked, handles, Option.bind_some]
  cases st.owner pkid with
  | none => rfl
  | some t =>
    cases hd : (st.cell t).data <;>
      simp [hd, InnerToken.kind, TokenData.kind, subackLoop_eq]

theorem handleUnsuback_eq (st : State) : st.handleUnsuback pkid =
    match ended (.unsuback pkid) st with
    | some (k, t) => (st.removeTopics (st.cell t).topics).finish k t
    | none => st := by
  simp only [handleUnsuback, ended, acked, handles, Option.bind_some]
  cases st.owner pkid with
  | none => rfl
  | some t =>
    cases hd : (st.cell t).data <;> simp [hd, InnerToken.kind, TokenData.kind, InnerToken.topics]

theorem readFromServer_eq (packet : VariablePacket) (st : State) :
    (readFromServer packet st).1 =
      let st' := { (st.store (stored packet st)).removeTopics (removed packet st) with
        pendingPackets := pendingAfter packet st
        spawned := st.spawned ++ (released packet st).toList.flatMap st.handlerTasks }
      match ended packet st with
      | some (k, t) => (st'.modifyToken t (noted packet)).finish k t
      | none => st' := by
  cases packet with
  | publish packet =>
    change (st.handlePublish packet).1 = _
    cases hq : packet.qos <;>
      simp [handlePublish, ended, acked, stored, removed, released, pendingAfter,
        hq, QoSWithPacketIdentifier.split, dispatch, handlerTasks]
  | pubrel pkid =>
    change (st.handlePubrel pkid).1 = _
    cases hp : st.pendingPackets.entries[pkid]? <;>
      simp [handlePubrel, ended, acked, stored, removed, released, pendingAfter,
        hp, dispatch, handlerTasks]
  | puback pkid | pubcomp pkid =>
    -- the two handlers have the same body
    change st.handlePuback pkid = _
    simp only [handlePuback, ended, acked, handles, stored, removed,
      released, pendingAfter, Option.bind_some]
    cases st.owner pkid <;> simp [noted, modifyToken, Tokens.modify]
  | suback pkid codes =>
    change st.handleSuback pkid codes = _
    simp only [handleSuback_eq, stored, removed, released, pendingAfter]
    cases ended (.suback pkid codes) st with
    | none => simp
    | some kt =>
      have hnoted : noted (.suback pkid codes) = record 0 codes := rfl
      dsimp only
      conv_lhs => rw [store_eq]
      simp [removeTopics_nil, hnoted]
  | unsuback pkid =>
    change st.handleUnsuback pkid = _
    simp only [handleUnsuback_eq, stored, removed, released, pendingAfter]
    cases ended (.unsuback pkid) st with
    | none => simp
    | some kt => simp [removeTopics, noted, modifyToken, Tokens.modify]
  | _ =>
    change st = _
    simp [ended, acked, stored, removed, released, pendingAfter]

section
variable (packet : VariablePacket) (st : State)

theorem owner_readFromServer : (readFromServer packet st).1.owner j =
    if (ended packet st).map Prod.fst = some j then none else st.owner j := by
  rw [readFromServer_eq]
  cases ended packet st with
  | none => simp [owner, removeTopics]
  | some kt =>
    simp only [owner_finish, owner_modifyToken, Option.map_some, Option.some.injEq]
    simp [owner, removeTopics]

theorem cell_readFromServer : (readFromServer packet st).1.cell u =
    if (ended packet st).map Prod.snd = some u then (noted packet (st.cell u)).flowComplete
    else st.cell u := by
  rw [readFromServer_eq]
  cases ended packet st with
  | none => simp [cell, removeTopics]
  | some kt =>
    simp only [cell_finish, cell_modifyToken, Option.map_some, Option.some.injEq]
    by_cases hu : u = kt.2
    · subst hu
      simp [cell, removeTopics]
    · simp [hu, Ne.symm hu, cell, removeTopics]

theorem entries_readFromServer : (readFromServer packet st).1.entries filter =
    if filter ∈ removed packet st then []
    else st.entries filter ++ (stored packet st).filter fun sub => sub.topic = filter := by
  rw [readFromServer_eq, ← entries_store, ← entries_removeTopics]
  cases ended packet st <;> rfl

theorem subscriptions_readFromServer : (readFromServer packet st).1.subscriptions =
    (st.store (stored packet st)).subscriptions := by
  rw [readFromServer_eq]
  cases ended packet st <;> rfl

theorem pendingPackets_readFromServer :
    (readFromServer packet st).1.pendingPackets = pendingAfter packet st := by
  rw [readFromServer_eq]
  cases ended packet st <;> rfl

theorem spawned_readFromServer : (readFromServer packet st).1.spawned =
    st.spawned ++ (released packet st).toList.flatMap st.handlerTasks := by
  rw [readFromServer_eq]
  cases ended packet st <;> rfl

theorem now_readFromServer : (readFromServer packet st).1.now = st.now := by
  rw [readFromServer_eq]
  cases ended packet st <;> simp [finish, flowComplete, modifyToken, removeTopics]

theorem lastSentPacketAt_readFromServer :
    (readFromServer packet st).1.lastSentPacketAt = st.lastSentPacketAt := by
  rw [readFromServer_eq]
  cases ended packet st <;> simp [finish, flowComplete, modifyToken, removeTopics]

theorem next_readFromServer : (readFromServer packet st).1.tokens.next = st.tokens.next := by
  rw [readFromServer_eq]
  cases ended packet st <;> simp [finish, flowComplete, modifyToken, removeTopics]

end

end State

end MesquitteClient
