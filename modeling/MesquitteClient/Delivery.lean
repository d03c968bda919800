import MesquitteClient.Lifecycle

/-!
# Delivery of QoS 2 messages

The pending packets against what has been read: an entry is the last QoS 2
PUBLISH with its identifier since the last PUBREL for it. So a message is
dispatched at most once (`dispatches_le_exchanges`), whatever expires, is
evicted or is sent again and however often the client reconnects. It is
dispatched when its PUBREL comes within the time to live of the pending packets
(`pubrel_dispatches`); after that the cache may have swept it, and then nothing
is (`pubrel_after_expiry`).
-/

namespace MesquitteClient

namespace System

variable {codec : Codec} {options : ClientOptions} {s s' : System} {e : Event}
variable {guard : Lts.Guard System Event} {h : Lts.History System Event}

/-- The last QoS 2 PUBLISH read with an identifier, and when, unless a PUBREL
for the identifier has been read since. -/
def lastPublish (k : UInt16) : Lts.History System Event → Option (PublishPacket × Duration)
  | [] => none
  | (s, .reader (.received (.publish packet))) :: h =>
    if packet.qos = .level2 k then some (packet, s.state.now) else lastPublish k h
  | (_, .reader (.received (.pubrel pkid))) :: h => if pkid = k then none else lastPublish k h
  | _ :: h => lastPublish k h

theorem lastPublish_qos (hl : lastPublish k h = some (packet, t)) : packet.qos = .level2 k := by
  induction h with
  | nil => simp [lastPublish] at hl
  | cons x h ih =>
    unfold lastPublish at hl
    split at hl
    · exact absurd hl (by simp)
    · rename_i heq
      cases heq
      split at hl
      · rename_i hq
        simp only [Option.some.injEq, Prod.mk.injEq] at hl
        exact hl.1 ▸ hq
      · exact ih hl
    · rename_i heq
      cases heq
      split at hl
      · exact absurd hl (by simp)
      · exact ih hl
    · rename_i heq
      cases heq
      exact ih hl

/-- A pending packet after an event. -/
def pendingEntryAfter (s : System) (k : UInt16) : Event → Option (PublishPacket × Duration)
  | .reader (.received (.publish packet)) =>
    if packet.qos = .level2 k then some (packet, s.state.now)
    else s.state.pendingPackets.entries[k]?
  | .reader (.received (.pubrel pkid)) =>
    if pkid = k then none else s.state.pendingPackets.entries[k]?
  | .runtime (.evicted pkid) =>
    if pkid = k then none else s.state.pendingPackets.entries[k]?
  | _ => s.state.pendingPackets.entries[k]?

theorem pendingEntry_step (hs : step codec options s e = some s') :
    s'.state.pendingPackets.entries[k]? = pendingEntryAfter s k e := by
  rw [pendingPackets_step hs]
  cases e with
  | reader e =>
    cases e with
    | received packet =>
      cases packet with
      | publish packet =>
        simp only [pendingPacketsAfter, State.pendingAfter, pendingEntryAfter]
        cases hq : packet.qos <;> simp [TtlMap.entries_insert]
      | pubrel pkid => exact TtlMap.entries_evict _
      | _ => rfl
    | _ => rfl
  | runtime e =>
    cases e with
    | evicted pkid => exact TtlMap.entries_evict _
    | _ => rfl
  | _ e => rfl

/-- Whatever expires or is evicted: an entry is the last PUBLISH read. -/
theorem pending_le (hr : Run codec options guard h s)
    (hp : s.state.pendingPackets.entries[k]? = some (packet, t)) :
    lastPublish k h = some (packet, t) := by
  induction hr generalizing packet t with
  | nil => simp [init, State.new, TtlMap.empty] at hp
  | snoc hr _ hs ih =>
    rw [pendingEntry_step hs] at hp
    unfold pendingEntryAfter at hp
    unfold lastPublish
    split at hp <;> (try split at hp) <;> simp_all

theorem timeToLive_step (hs : step codec options s e = some s') :
    s'.state.pendingPackets.timeToLive = s.state.pendingPackets.timeToLive := by
  rw [pendingPackets_step hs]
  cases e with
  | reader e =>
    cases e with
    | received packet =>
      cases packet with
      | publish packet =>
        simp only [pendingPacketsAfter, State.pendingAfter]
        cases packet.qos <;> rfl
      | _ => rfl
    | _ => rfl
  | runtime e => cases e <;> rfl
  | _ e => rfl

theorem timeToLive (hr : Run codec options guard h s) :
    s.state.pendingPackets.timeToLive = Duration.fromSecs 60 := by
  induction hr with
  | nil => rfl
  | snoc hr _ hs ih => rw [timeToLive_step hs, ih]

-- ---------------------------------------------------------------------------
-- At most once
-- ---------------------------------------------------------------------------

/-- The step dispatches a QoS 2 message with the identifier. -/
def dispatchesFor (k : UInt16) : System × Event → Bool
  | (s, .reader (.received packet)) =>
    (State.released packet s.state).any fun packet => packet.qos = .level2 k
  | _ => false

def dispatches (k : UInt16) (h : Lts.History System Event) : Nat := h.countP (dispatchesFor k)

/-- The exchanges from a QoS 2 PUBLISH with the identifier to the first PUBREL
for it; repeated PUBLISHes belong to one. -/
def exchanges (k : UInt16) : Lts.History System Event → Nat
  | [] => 0
  | (_, e) :: h =>
    exchanges k h + if e = received (.pubrel k) ∧ (lastPublish k h).isSome then 1 else 0

theorem released_pubrel (hr : Run codec options guard h s)
    (hp : State.released (.pubrel k) s.state = some packet) :
    ∃ t, lastPublish k h = some (packet, t) := by
  obtain ⟨⟨_, t⟩, he, rfl⟩ := Option.map_eq_some_iff.mp hp
  exact ⟨t, pending_le hr he⟩

theorem spawned_received (hs : step codec options s (received packet) = some s') :
    s'.state.spawned =
      s.state.spawned ++ (State.released packet s.state).toList.flatMap s.state.handlerTasks :=
  spawned_step hs

/-- Only a PUBREL with an open exchange dispatches a QoS 2 message. -/
theorem exchange_of_dispatchesFor (hr : Run codec options guard h s)
    (hd : dispatchesFor k (s, e)) : e = received (.pubrel k) ∧ (lastPublish k h).isSome := by
  unfold dispatchesFor at hd
  split at hd
  · rename_i heq
    cases heq
    rename_i packet
    obtain ⟨m, hm, hq⟩ := (Option.any_eq_true _ _).mp hd
    rw [decide_eq_true_eq] at hq
    cases packet with
    | publish p =>
      simp only [State.released, Option.ite_none_left_eq_some, Option.some.injEq] at hm
      rw [hm.2] at hm
      simp [hq, QoSWithPacketIdentifier.split] at hm
    | pubrel pkid =>
      obtain ⟨t, hl⟩ := released_pubrel hr hm
      have hk := lastPublish_qos hl
      rw [hq] at hk
      cases hk
      exact ⟨rfl, by rw [hl]; rfl⟩
    | _ => simp [State.released] at hm
  · cases hd

/-- QoS 2 messages are dispatched at most once: a PUBLISH dispatches nothing,
a PUBREL at most the last PUBLISH read for its identifier since the previous
PUBREL, and no identifier has more dispatches than exchanges. -/
theorem dispatches_le_exchanges (hr : Run codec options Lts.anything h s) (k : UInt16) :
    (∀ packet s', packet.qos = .level2 k →
        step codec options s (received (.publish packet)) = some s' →
        s'.state.spawned = s.state.spawned) ∧
      (∀ s', step codec options s (received (.pubrel k)) = some s' →
        s'.state.spawned = s.state.spawned ∨
          ∃ packet t, lastPublish k h = some (packet, t) ∧
            s'.state.spawned = s.state.spawned ++ s.state.handlerTasks packet) ∧
      dispatches k h ≤ exchanges k h := by
  refine ⟨fun packet s' hq hs => ?_, fun s' hs => ?_, ?_⟩
  · rw [spawned_received hs]
    simp [State.released, hq, QoSWithPacketIdentifier.split]
  · rw [spawned_received hs]
    cases hp : State.released (.pubrel k) s.state with
    | none => exact .inl (by simp)
    | some packet =>
      obtain ⟨t, hl⟩ := released_pubrel hr hp
      exact .inr ⟨packet, t, hl, by simp⟩
  · induction hr with
    | nil => exact Nat.le_refl 0
    | @snoc h s e s' hr _ _ ih =>
      unfold dispatches at ih ⊢
      rw [List.countP_cons, exchanges]
      by_cases hd : dispatchesFor k (s, e)
      · rw [if_pos hd, if_pos (exchange_of_dispatchesFor hr hd)]
        omega
      · rw [if_neg hd]
        omega

/-- A PUBLISH sent twice, and its PUBREL. -/
def exchangeEvents (topic : String) (k : UInt16) : List Event :=
  let publish := received (.publish { topicName := topic, qos := .level2 k, payload := [1] })
  [publish, .reader (.responded (.pubrec k)), publish, .reader (.responded (.pubrec k)),
    received (.pubrel k)]

/-- One dispatch for a PUBLISH sent twice and a PUBREL sent twice. -/
theorem dispatches_le_exchanges_twice : ∃ h s, Run acceptingCodec .new Lts.anything h s ∧
    dispatches 5 h = 1 ∧ dispatches 5 h ≤ exchanges 5 h := by
  obtain ⟨h, s, hr, ht⟩ := Lts.exists_run (step acceptingCodec .new) Lts.anything init
    (connecting none 0 false ++ connected none 0 false ++ subscribing "a/b" 7 1 2 ++
      exchangeEvents "a/b" 5 ++ [.reader (.responded (.pubcomp 5)), received (.pubrel 5)])
    (fun h _ => dispatches 5 h = 1) (by decide +kernel)
  exact ⟨h, s, hr, of_decide_eq_true ht, (dispatches_le_exchanges hr 5).2.2⟩

-- ---------------------------------------------------------------------------
-- Within the time to live
-- ---------------------------------------------------------------------------

/-- The cache takes away only what has expired. -/
def keepsPending : Lts.Guard System Event
  | _, s, .runtime (.evicted pkid) => s.state.pendingPackets.expired s.state.now pkid
  | _, _, _ => true

/-- Up to its time to live the last PUBLISH read is pending. -/
theorem pending_of_fresh (hr : Run codec options keepsPending h s)
    (hl : lastPublish k h = some (packet, t)) (ht : s.state.now < t + Duration.fromSecs 60) :
    s.state.pendingPackets.entries[k]? = some (packet, t) := by
  induction hr with
  | nil => cases hl
  | @snoc h s e s' hr hg hs ih =>
    have ih (hl : lastPublish k h = some (packet, t)) :=
      ih hl (Nat.lt_of_le_of_lt (now_mono hs) ht)
    rw [pendingEntry_step hs]
    unfold pendingEntryAfter
    split
    · simp only [lastPublish] at hl
      split at hl
      · rwa [if_pos ‹_›]
      · rw [if_neg ‹_›]
        exact ih hl
    · simp only [lastPublish, Option.ite_none_left_eq_some] at hl
      rw [if_neg hl.1]
      exact ih hl.2
    · rename_i pkid
      have hstored := ih hl
      split
      · rename_i hk
        -- nothing is swept before its time
        have hle := TtlMap.le_of_expired hstored (hk ▸ hg)
        rw [timeToLive hr] at hle
        exact absurd (Nat.lt_of_le_of_lt (now_mono hs) ht) (Nat.not_lt.mpr hle)
      · exact hstored
    · refine ih ?_
      unfold lastPublish at hl
      split at hl <;> simp_all

/-- The first PUBREL after a QoS 2 PUBLISH, read within the time to live of
the last one, dispatches its message once to every subscription that matches
then, before the PUBCOMP is queued. -/
theorem pubrel_dispatches (hr : Run codec options keepsPending h s)
    (hp : lastPublish k h = some (packet, t)) (ht : s.state.now < t + Duration.fromSecs 60)
    (hs : step codec options s (received (.pubrel k)) = some s') :
    s'.state.spawned = s.state.spawned ++ s.state.handlerTasks packet ∧
      s'.conn.reader = .responding (.pubcomp k) ∧ s'.conn.msg = s.conn.msg := by
  have hreleased : State.released (.pubrel k) s.state = some packet :=
    Option.map_eq_some_iff.mpr ⟨_, pending_of_fresh hr hp ht, rfl⟩
  refine ⟨by simp [spawned_received hs, hreleased], ?_⟩
  simp only [step, stepReader, when_eq_some] at hs
  obtain ⟨_, rfl⟩ := hs
  exact ⟨rfl, rfl⟩

/-- The events up to a PUBREL that comes some time after its PUBLISH has been
answered. -/
def answeredEvents (topic : String) (k : UInt16) (duration : Duration) : List Event :=
  let publish := received (.publish { topicName := topic, qos := .level2 k, payload := [1] })
  connecting none 0 false ++ connected none 0 false ++ subscribing topic 7 1 2 ++
    [publish, .reader (.responded (.pubrec k)), .writer (.msgTaken (.pubrec k)),
      .writer (.msgWritten (.pubrec k)), .runtime (.elapsed duration)]

/-- The PUBREC for an identifier has been written. -/
def answered (k : UInt16) (h : Lts.History System Event) : Bool :=
  h.any fun x => x.2 = .writer (.msgWritten (.pubrec k))

theorem pubrel_dispatches_in_time : ∃ h s s' packet t, Run acceptingCodec .new keepsPending h s ∧
    lastPublish 5 h = some (packet, t) ∧ s.state.handlerTasks packet ≠ [] ∧
    step acceptingCodec .new s (received (.pubrel 5)) = some s' ∧
    s'.state.spawned = s.state.spawned ++ s.state.handlerTasks packet := by
  obtain ⟨h, s, hr, ht⟩ := Lts.exists_run (step acceptingCodec .new) keepsPending init
    (answeredEvents "a/b" 5 (Duration.fromSecs 59))
    (fun h s => (step acceptingCodec .new s (received (.pubrel 5))).isSome &&
      (lastPublish 5 h).any fun p =>
        s.state.now < p.2 + Duration.fromSecs 60 && s.state.handlerTasks p.1 ≠ [])
    (by decide +kernel)
  rw [Bool.and_eq_true, Option.isSome_iff_exists, Option.any_eq_true] at ht
  obtain ⟨⟨s', hs⟩, ⟨packet, t⟩, hp, ht⟩ := ht
  simp only [Bool.and_eq_true, decide_eq_true_eq] at ht
  exact ⟨h, s, s', packet, t, hr, hp, ht.2, hs, (pubrel_dispatches hr hp ht.1 hs).1⟩

/-- A minute later another message comes, and the cache sweeps the first. -/
def sweptEvents (topic : String) (k j : UInt16) : List Event :=
  answeredEvents topic k (Duration.fromSecs 60) ++
    [received (.publish { topicName := topic, qos := .level2 j, payload := [2] }),
      .reader (.responded (.pubrec j)), .runtime (.evicted k)]

/-- A PUBREL that comes after its message has been swept dispatches nothing. -/
theorem pubrel_after_expiry : ¬ ∀ h s s' k packet t, Run acceptingCodec .new keepsPending h s →
    lastPublish k h = some (packet, t) → answered k h →
    step acceptingCodec .new s (received (.pubrel k)) = some s' →
    s'.state.spawned = s.state.spawned ++ s.state.handlerTasks packet := by
  obtain ⟨h, s, hr, ht⟩ := Lts.exists_run (step acceptingCodec .new) keepsPending init
    (sweptEvents "a/b" 5 6)
    (fun h s => answered 5 h && (step acceptingCodec .new s (received (.pubrel 5))).any fun s' =>
      (lastPublish 5 h).any fun p =>
        s'.state.spawned ≠ s.state.spawned ++ s.state.handlerTasks p.1)
    (by decide +kernel)
  rw [Bool.and_eq_true, Option.any_eq_true] at ht
  obtain ⟨ha, s', hs, ht⟩ := ht
  obtain ⟨⟨packet, t⟩, hp, hne⟩ := (Option.any_eq_true _ _).mp ht
  intro hall
  exact of_decide_eq_true hne (hall h s s' 5 packet t hr hp ha hs)

end System

end MesquitteClient
