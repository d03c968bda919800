import MesquitteClient.Registry
import Mathlib.Data.List.Perm.Subperm
import Mathlib.Data.List.Nodup

/-!
# Packets in flight

The packets with an identifier that a connection has sent, from the outgoing
channel to their final acknowledgement. With a server that acknowledges what
it has received, their identifiers are distinct, the identifier table holds
their tokens, and an acknowledgement completes the token of its packet and no
other (`inflight_unique`). What is assumed of the server can be limited to the
packets of some kinds of token, and the invariant then is about these.
-/

namespace MesquitteClient

variable {ack : VariablePacket}

/-- The identifier of a packet that is to be acknowledged. -/
def VariablePacket.pkid : VariablePacket → Option UInt16
  | .publish packet => packet.qos.split.2
  | .subscribe pkid _ => some pkid
  | .unsubscribe pkid _ => some pkid
  | _ => none

/-- The first is the final acknowledgement of the second: its type and its
identifier. -/
def answers : VariablePacket → VariablePacket → Bool
  | .puback pkid, .publish packet => packet.qos = .level1 pkid
  | .pubcomp pkid, .publish packet => packet.qos = .level2 pkid
  | .suback pkid _, .subscribe pkid' _ => pkid' = pkid
  | .unsuback pkid, .unsubscribe pkid' _ => pkid' = pkid
  | _, _ => false

theorem answers_cases (ha : answers ack packet) :
    ∃ k, State.acked ack = some k ∧ packet.pkid = some k := by
  unfold answers at ha
  split at ha <;> simp_all [State.acked, VariablePacket.pkid, QoSWithPacketIdentifier.split]

/-- The kind of the token that comes with a packet. -/
def VariablePacket.kind : VariablePacket → Option TokenKind
  | .publish packet => some (.publish packet.qos.split.1)
  | .subscribe .. => some .subscribe
  | .unsubscribe .. => some .unsubscribe
  | .disconnect => some .disconnect
  | _ => none

theorem handles_of_answers (ha : answers ack packet) (hk : packet.kind = some kind) :
    State.handles ack kind := by
  unfold answers at ha
  split at ha <;> simp_all [State.handles, VariablePacket.kind]

/-- The packet of a call carries the call's identifier, and is of the kind of
the call's token. -/
theorem Call.packet_eq_some {call : Call} {packet : VariablePacket}
    (hp : call.packet codec pkid = some packet) (hid : pkid.isSome = call.takesId) :
    packet.pkid = pkid ∧ packet.kind = some call.newToken.kind := by
  cases call with
  | publish topic qos retained payload =>
    simp only [Call.packet, Option.ite_none_right_eq_some, Option.some.injEq] at hp
    obtain ⟨_, rfl⟩ := hp
    cases qos <;> cases pkid <;>
      simp_all [Call.takesId, VariablePacket.pkid, QoSWithPacketIdentifier.split,
        VariablePacket.kind, Call.newToken, InnerToken.publish, InnerToken.setQos,
        InnerToken.kind, TokenData.kind]
  | disconnect =>
    simp only [Call.packet, Option.some.injEq] at hp
    subst hp
    cases pkid with
    | none => exact ⟨rfl, rfl⟩
    | some k => simp [Call.takesId] at hid
  | _ =>
    simp only [Call.packet, Option.ite_none_right_eq_some, Option.some.injEq] at hp
    obtain ⟨_, rfl⟩ := hp
    cases pkid with
    | none => simp [Call.takesId] at hid
    | some k => exact ⟨rfl, rfl⟩

/-- The identifier a call has taken and not yet put on its way. -/
def Phase.pkid : Phase → Option UInt16
  | .building pkid _ => pkid
  | .sending packet => packet.pkid
  | _ => none

namespace System

variable {codec : Codec} {options : ClientOptions} {s s' : System} {e : Event}
variable {guard : Lts.Guard System Event} {h : Lts.History System Event}
variable {kinds : TokenKind → Bool}

-- ---------------------------------------------------------------------------
-- What is sent and what the server owes
-- ---------------------------------------------------------------------------

/-- The packet is to be acknowledged, and its token is of the kinds in question. -/
def awaits (kinds : TokenKind → Bool) (packet : VariablePacket) : Bool :=
  packet.pkid.isSome && packet.kind.any kinds

/-- The packets enqueued on the connection and not yet finally acknowledged,
of those that are acknowledged. -/
def inflight (kinds : TokenKind → Bool) : Lts.History System Event → List PacketAndToken
  | [] => []
  | (_, .call (.enqueued frame packet)) :: h =>
    if awaits kinds packet then ⟨packet, some frame.token⟩ :: inflight kinds h else inflight kinds h
  | (_, .reader (.received ack)) :: h => (inflight kinds h).filter fun o => !answers ack o.packet
  | (_, .connect (.accepted ..)) :: _ => []
  | _ :: h => inflight kinds h

/-- Of these, the packets the server may have received: the write loop has
begun to write them. -/
def owed (kinds : TokenKind → Bool) : Lts.History System Event → List PacketAndToken
  | [] => []
  | (_, .writer (.outgoingTaken o)) :: h =>
    if awaits kinds o.packet then o :: owed kinds h else owed kinds h
  | (_, .reader (.received ack)) :: h => (owed kinds h).filter fun o => !answers ack o.packet
  | (_, .connect (.accepted ..)) :: _ => []
  | _ :: h => owed kinds h

/-- A final acknowledgement that finds a token answers a packet that the server
has received and not yet acknowledged, with its identifier and type. -/
def conforming (kinds : TokenKind → Bool) : Lts.Guard System Event
  | h, s, .reader (.received ack) =>
    (State.ended ack s.state).all fun (_, t) =>
      !kinds (s.cell t).kind || (owed kinds h).any fun o => answers ack o.packet
  | _, _, _ => true

theorem conforming_received (hg : conforming kinds h s (received ack))
    (hend : State.ended ack s.state = some (k, t)) (hk : kinds (s.cell t).kind) :
    ∃ o ∈ owed kinds h, answers ack o.packet ∧ o.packet.pkid = some k := by
  simp only [conforming, hend, Option.all_some, hk, Bool.not_true, Bool.false_or,
    List.any_eq_true] at hg
  obtain ⟨o, ho, hans⟩ := hg
  obtain ⟨k', hk', hp⟩ := answers_cases hans
  rw [(State.ended_eq_some.mp hend).1] at hk'
  exact ⟨o, ho, hans, by rw [hp, hk']⟩

/-- An event other than a send adds nothing. -/
theorem inflight_sublist (he : ∀ frame packet, e ≠ .call (.enqueued frame packet)) :
    (inflight kinds ((s, e) :: h)).Sublist (inflight kinds h) := by
  cases e with
  | call e =>
    cases e with
    | enqueued frame packet => exact absurd rfl (he frame packet)
    | _ => exact .refl _
  | connect e =>
    cases e with
    | accepted caller t sp => exact List.nil_sublist _
    | _ => exact .refl _
  | reader e =>
    cases e with
    | received ack => exact List.filter_sublist
    | _ => exact .refl _
  | _ e => exact .refl _

/-- What is in flight after an event was in flight, or has just been sent. -/
theorem inflight_origin (ho : o ∈ inflight kinds ((s, e) :: h)) : o ∈ inflight kinds h ∨
    ∃ frame packet, e = .call (.enqueued frame packet) ∧ o = ⟨packet, some frame.token⟩ ∧
      awaits kinds packet := by
  by_cases he : ∃ frame packet, e = .call (.enqueued frame packet)
  · obtain ⟨frame, packet, rfl⟩ := he
    unfold inflight at ho
    split at ho
    · rename_i hp
      rcases List.mem_cons.mp ho with rfl | ho
      · exact .inr ⟨frame, packet, rfl, rfl, hp⟩
      · exact .inl ho
    · exact .inl ho
  · exact .inl ((inflight_sublist fun frame packet h => he ⟨frame, packet, h⟩).subset ho)

theorem inflight_awaits (ho : o ∈ inflight kinds h) : awaits kinds o.packet := by
  induction h with
  | nil => cases ho
  | cons x h ih =>
    rcases inflight_origin ho with h | ⟨_, _, _, rfl, hp⟩
    · exact ih h
    · exact hp

-- ---------------------------------------------------------------------------
-- The invariant
-- ---------------------------------------------------------------------------

/-- The table holds the packet's token, which is of its kind. -/
def Tracked (s : System) (o : PacketAndToken) : Prop :=
  ∃ k t, o.packet.pkid = some k ∧ o.token = some t ∧ s.owner k = some t ∧
    o.packet.kind = some (s.cell t).kind

/-- Sent packets that are still to reach the server. -/
def queued (kinds : TokenKind → Bool) (s : System) : List PacketAndToken :=
  s.conn.outgoing.filter fun o => awaits kinds o.packet

/-- The client task between a CONNACK and the first call of the job. -/
def freshlyConnected : ClientTask → Bool
  | .connect _ _ (.spawned _) | .connect _ _ (.connected _) => true
  | .job .cleanUp | .job .clone | .job (.clear _) => true
  | _ => false

structure Inflight (kinds : TokenKind → Bool) (h : Lts.History System Event) (s : System) :
    Prop where
  waiting : (queued kinds s ++ owed kinds h).Subperm (inflight kinds h)
  nodup : ((inflight kinds h).map (·.packet.pkid)).Nodup
  tracked : s.conn.supervisor ≠ .finished → ∀ o ∈ inflight kinds h, Tracked s o
  /-- the running call has an identifier of its own -/
  calling : s.conn.supervisor ≠ .finished → s.client = .call frame phase → phase.pkid = some k →
    kinds frame.call.newToken.kind →
    s.owner k = some frame.token ∧ some k ∉ (inflight kinds h).map (·.packet.pkid)
  /-- nothing is sent between a CONNACK and the first call of the job -/
  connecting : freshlyConnected s.client → inflight kinds h = []
  reconnected : s.client = .awaitConnect cnt t → (s.cell t).error = none → inflight kinds h = []

theorem inflight_init : Inflight kinds [] init where
  waiting := by simp [queued, init, Connection.none, owed, inflight]
  nodup := List.nodup_nil
  tracked _ := by simp [inflight]
  calling _ hc := by simp [init] at hc
  connecting _ := rfl
  reconnected _ _ := rfl

/-- Packets at different places on their way have different identifiers. -/
theorem Inflight.ne_of_waiting (hi : Inflight kinds h s) (ho : o ∈ queued kinds s)
    (ho' : o' ∈ owed kinds h) : o.packet.pkid ≠ o'.packet.pkid := by
  obtain ⟨l, hperm, hsub⟩ := hi.waiting
  have hnodup : ((queued kinds s ++ owed kinds h).map (·.packet.pkid)).Nodup :=
    (hperm.map _).nodup_iff.mp (hi.nodup.sublist (hsub.map _))
  rw [List.map_append, List.nodup_append] at hnodup
  exact hnodup.2.2 _ (List.mem_map_of_mem ho) _ (List.mem_map_of_mem ho')

theorem Inflight.owed_subset (hi : Inflight kinds h s) (ho : o ∈ owed kinds h) :
    o ∈ inflight kinds h :=
  hi.waiting.subset (List.mem_append_right _ ho)

theorem not_finished_of_received (hl : Lifecycle options s)
    (hs : step codec options s (received ack) = some s') : s.conn.supervisor ≠ .finished := by
  intro hf
  simp only [step, stepReader, when_eq_some] at hs
  rw [(hl.ended (by rw [hf]; simp)).1] at hs
  cases hs.1

/-- An acknowledgement that finds the token of a packet in flight ends the
exchange of that packet, and of no other. -/
theorem Inflight.acknowledged (hi : Inflight kinds h s) (hg : conforming kinds h s (received ack))
    (hend : State.ended ack s.state = some (k, t)) (hk : kinds (s.cell t).kind) :
    ∃ o ∈ owed kinds h, answers ack o.packet ∧ o.packet.pkid = some k ∧
      ∀ o' ∈ inflight kinds h, o'.packet.pkid = some k → o' = o := by
  obtain ⟨o, ho, hans, hpk⟩ := conforming_received hg hend hk
  refine ⟨o, ho, hans, hpk, fun o' ho' hk' => ?_⟩
  exact List.inj_on_of_nodup_map hi.nodup ho' (hi.owed_subset ho) (hk'.trans hpk.symm)

/-- The token of a packet in flight is of the kinds in question. -/
theorem Tracked.of_owner (ht : Tracked s o) (ho : o ∈ inflight kinds h) (hk : o.packet.pkid = some k)
    (hown : s.owner k = some t) :
    o.token = some t ∧ o.packet.kind = some (s.cell t).kind ∧ kinds (s.cell t).kind := by
  obtain ⟨k', t', hk', hot, hown', hkind⟩ := ht
  cases hk.symm.trans hk'
  cases hown.symm.trans hown'
  have ha := inflight_awaits ho
  simp only [awaits, hkind, Option.any_some, Bool.and_eq_true] at ha
  exact ⟨hot, hkind, ha.2⟩

/-- What an acknowledgement ends is not the identifier of another packet in
flight. -/
theorem Inflight.ended_ne (hi : Inflight kinds h s) (hu : s.conn.supervisor ≠ .finished)
    (hg : conforming kinds h s (received ack)) (he : State.ended ack s.state = some (k, t))
    (ho : o ∈ inflight kinds ((s, received ack) :: h)) : o.packet.pkid ≠ some k := by
  obtain ⟨ho, hno⟩ := List.mem_filter.mp ho
  intro hk
  obtain ⟨_, _, hkinds⟩ := (hi.tracked hu o ho).of_owner ho hk (State.ended_eq_some.mp he).2.1
  obtain ⟨q, _, hans, _, huniq⟩ := hi.acknowledged hg he hkinds
  rw [huniq o ho hk, hans] at hno
  cases hno

/-- An acknowledgement finds the token of a packet in flight that it answers. -/
theorem Inflight.ended_of_answers (hi : Inflight kinds h s) (hu : s.conn.supervisor ≠ .finished)
    (ho : o ∈ inflight kinds h) (hans : answers ack o.packet) :
    ∃ k t, o.packet.pkid = some k ∧ o.token = some t ∧ State.ended ack s.state = some (k, t) ∧
      kinds (s.cell t).kind := by
  obtain ⟨k, ha, hk⟩ := answers_cases hans
  have htracked := hi.tracked hu o ho
  obtain ⟨k', t, hk', _, hown, _⟩ := id htracked
  cases hk.symm.trans hk'
  obtain ⟨hot, hkind, hkinds⟩ := htracked.of_owner ho hk hown
  exact ⟨k, t, hk, hot,
    State.ended_eq_some.mpr ⟨ha, hown, handles_of_answers hans hkind⟩, hkinds⟩

theorem Inflight.waiting_step (hi : Inflight kinds h s) (hl : Lifecycle options s)
    (hg : conforming kinds h s e) (hs : step codec options s e = some s') :
    (queued kinds s' ++ owed kinds ((s, e) :: h)).Subperm (inflight kinds ((s, e) :: h)) := by
  have hw := hi.waiting
  have hdrop : (owed kinds h).Subperm (inflight kinds h) :=
    (List.sublist_append_right _ _).subperm.trans hw
  rw [queued, conn_step hs]
  cases e with
  | call e =>
    cases e with
    | enqueued frame packet =>
      have hq : ((connAfter options s (.call (.enqueued frame packet))).outgoing.filter
          fun o => awaits kinds o.packet) = queued kinds s ++
            [(⟨packet, some frame.token⟩ : PacketAndToken)].filter fun o => awaits kinds o.packet :=
        List.filter_append ..
      rw [hq, List.append_assoc]
      simp only [owed, inflight]
      by_cases hp : awaits kinds packet
      · rw [List.filter_cons_of_pos (by exact hp), if_pos hp]
        exact List.perm_middle.subperm_right.mpr ((List.subperm_cons _).mpr hw)
      · rw [List.filter_cons_of_neg (by exact hp), if_neg hp]
        exact hw
    | _ => exact hw
  | connect e =>
    cases e with
    | accepted caller t sp => exact List.nil_subperm
    | _ => exact hw
  | reader e =>
    cases e with
    | received ack =>
      have hkeep : (queued kinds s).filter (fun o => !answers ack o.packet) = queued kinds s := by
        refine List.filter_eq_self.mpr fun o ho => ?_
        by_contra hans
        have hin : o ∈ inflight kinds h := hw.subset (List.mem_append_left _ ho)
        obtain ⟨k, t, hk, _, hend, hkinds⟩ := hi.ended_of_answers (not_finished_of_received hl hs)
          hin (by simpa using hans)
        obtain ⟨o', ho', _, hk', _⟩ := hi.acknowledged hg hend hkinds
        exact hi.ne_of_waiting ho ho' (hk.trans hk'.symm)
      have hfilter := hw.filter fun o => !answers ack o.packet
      rwa [List.filter_append, hkeep] at hfilter
    | _ => exact hw
  | writer e =>
    cases e with
    | outgoingTaken o =>
      simp only [step, stepWriter, when_eq_some] at hs
      obtain ⟨rest, hrest⟩ : ∃ rest, s.conn.outgoing = o :: rest := by
        cases hout : s.conn.outgoing with
        | nil => simp [hout] at hs
        | cons o' rest =>
          simp only [hout, List.head?_cons, Option.some.injEq] at hs
          exact ⟨rest, by rw [hs.1.2]⟩
      simp only [connAfter, owed, inflight, hrest, List.tail_cons]
      rw [queued, hrest, List.filter_cons] at hw
      split
      · rename_i hawaits
        rw [if_pos hawaits] at hw
        exact List.perm_middle.subperm_right.mpr hw
      · rename_i hawaits
        rwa [if_neg hawaits] at hw
    | msgFailed packet | outgoingFailed o err | msgClosed => exact hdrop
    | _ => exact hw
  | keepAlive e =>
    cases e with
    | pinged =>
      have hq : ((connAfter options s (.keepAlive .pinged)).outgoing.filter
          fun o => awaits kinds o.packet) = queued kinds s := by
        simp [connAfter, awaits, VariablePacket.pkid, queued]
      rw [hq]
      exact hw
    | _ => exact hw
  | supervisor e => cases e <;> exact hw
  | block e | runtime e => exact hw

/-- Neither an acknowledgement nor a `clean_up` frees the identifier of a packet
that stays in flight, or of the running call. -/
theorem Inflight.owner_kept (hi : Inflight kinds h s) (hreg : Registry codec s)
    (hg : conforming kinds h s e)
    (hs : step codec options s e = some s') (hu : s.conn.supervisor ≠ .finished)
    (hu' : s'.conn.supervisor ≠ .finished) (ho : s.owner k = some t)
    (hk : (∃ o ∈ inflight kinds h, o.packet.pkid = some k ∧ o ∈ inflight kinds ((s, e) :: h)) ∨
      ∃ frame phase, s.client = .call frame phase ∧ phase.pkid = some k ∧
        kinds frame.call.newToken.kind) :
    s'.owner k = some t := by
  by_contra hn
  rcases owner_lost hs ho hn with ⟨ack, rfl, hend⟩ | hclean
  · rcases hk with ⟨o, _, hk, ho'⟩ | ⟨frame, phase, hc, hk, hkinds⟩
    · exact hi.ended_ne hu hg hend ho' hk
    · obtain ⟨hown, hni⟩ := hi.calling hu hc hk hkinds
      cases ho.symm.trans hown
      obtain ⟨o, ho', _, hk', _⟩ := hi.acknowledged hg hend (by rwa [hreg.call_kind hc])
      exact hni (List.mem_map.mpr ⟨o, hi.owed_subset ho', hk'⟩)
  · rcases cleansUp_iff.mp hclean with rfl | rfl
    · rcases hk with ⟨o, ho', _⟩ | ⟨frame, phase, hc, _⟩
      · simp only [step, stepBlock, when_eq_some] at hs
        rw [hi.connecting (by rw [hs.1]; rfl)] at ho'
        cases ho'
      · exact not_in_call hs (by simp) hc
    · rw [conn_step hs] at hu'
      exact hu' rfl

/-- A call that enqueues a packet with an identifier has the identifier to
itself. -/
theorem Inflight.enqueued (hi : Inflight kinds h s) (hl : Lifecycle options s)
    (hreg : Registry codec s)
    (hs : step codec options s (.call (.enqueued frame packet)) = some s')
    (hp : awaits kinds packet) :
    packet.kind = some (s.cell frame.token).kind ∧ ∃ k, packet.pkid = some k ∧
      s.owner k = some frame.token ∧ some k ∉ (inflight kinds h).map (·.packet.pkid) := by
  simp only [step, stepCall, when_eq_some] at hs
  obtain ⟨⟨hc, hw, _⟩, _⟩ := hs
  have hu : s.conn.supervisor ≠ .finished := by
    intro hf
    exact hw (hl.ended (by rw [hf]; simp)).2
  obtain ⟨pkid, hid, hpacket⟩ := hreg.phase_ok hc
  have hkind := (Call.packet_eq_some hpacket hid).2
  simp only [awaits, hkind, Option.any_some, Bool.and_eq_true] at hp
  obtain ⟨k, hk⟩ := Option.isSome_iff_exists.mp hp.1
  rw [hreg.call_kind hc]
  exact ⟨hkind, k, hk, hi.calling hu hc hk hp.2⟩

theorem Inflight.nodup_step (hi : Inflight kinds h s) (hl : Lifecycle options s)
    (hreg : Registry codec s) (hs : step codec options s e = some s') :
    ((inflight kinds ((s, e) :: h)).map (·.packet.pkid)).Nodup := by
  by_cases he : ∃ frame packet, e = .call (.enqueued frame packet)
  · obtain ⟨frame, packet, rfl⟩ := he
    simp only [inflight]
    split
    · rename_i hp
      obtain ⟨_, k, hk, _, hni⟩ := hi.enqueued hl hreg hs hp
      rw [List.map_cons, List.nodup_cons, hk]
      exact ⟨hni, hi.nodup⟩
    · exact hi.nodup
  · exact hi.nodup.sublist ((inflight_sublist fun frame packet h => he ⟨frame, packet, h⟩).map _)

theorem Inflight.tracked_step (hi : Inflight kinds h s) (hl : Lifecycle options s)
    (hreg : Registry codec s) (hg : conforming kinds h s e) (hs : step codec options s e = some s')
    (hu' : s'.conn.supervisor ≠ .finished) (ho : o ∈ inflight kinds ((s, e) :: h)) :
    Tracked s' o := by
  rcases finished_origin hs hu' with hu | ⟨caller, t, sp, rfl⟩
  · rcases inflight_origin ho with ho' | ⟨frame, packet, rfl, rfl, hp⟩
    · -- a packet that was in flight before keeps its identifier and its token's kind
      obtain ⟨k, t, hk, hot, hown, hkind⟩ := hi.tracked hu o ho'
      refine ⟨k, t, hk, hot, hi.owner_kept hreg hg hs hu hu' hown (.inl ⟨o, ho', hk, ho⟩), ?_⟩
      rw [kind_step hs (hreg.owner_lt hown)]
      exact hkind
    · obtain ⟨hkind, k, hk, hown, _⟩ := hi.enqueued hl hreg hs hp
      refine ⟨k, frame.token, hk, rfl, ?_, ?_⟩
      · rw [System.owner_step hs]
        exact hown
      · rw [kind_step hs (hreg.owner_lt hown)]
        exact hkind
  · cases ho

theorem Inflight.calling_step (hi : Inflight kinds h s) (hreg : Registry codec s)
    (hg : conforming kinds h s e) (hs : step codec options s e = some s')
    (hu' : s'.conn.supervisor ≠ .finished) (hc : s'.client = .call frame phase)
    (hk : phase.pkid = some k) (hkinds : kinds frame.call.newToken.kind) :
    s'.owner k = some frame.token ∧
      some k ∉ (inflight kinds ((s, e) :: h)).map (·.packet.pkid) := by
  -- a call that had its identifier before keeps it
  have hold {phase₀ : Phase} (hu : s.conn.supervisor ≠ .finished)
      (hc₀ : s.client = .call frame phase₀)
      (hk₀ : phase₀.pkid = some k) (he : ∀ frame packet, e ≠ .call (.enqueued frame packet)) :
      s'.owner k = some frame.token ∧
        some k ∉ (inflight kinds ((s, e) :: h)).map (·.packet.pkid) := by
    obtain ⟨hown, hni⟩ := hi.calling hu hc₀ hk₀ hkinds
    exact ⟨hi.owner_kept hreg hg hs hu hu' hown (.inr ⟨frame, phase₀, hc₀, hk₀, hkinds⟩),
      fun hm => hni ((inflight_sublist he).map _ |>.subset hm)⟩
  rcases finished_origin hs hu' with hu | ⟨caller, t, sp, rfl⟩
  · cases call_cases hs hc with
    | other he h0 =>
      refine hold hu h0 hk ?_
      rintro _ _ rfl
      cases he
    | accepted job call he hcalls hf =>
      unfold Call.begin at hk
      split at hk <;> cases hk
    | registered pkid he h0 =>
      subst he
      obtain ⟨_, _, hfree⟩ := registered_step hs
      cases hk
      refine ⟨(owner_step hs).trans (by simp [ownerAfter]), fun hm => ?_⟩
      obtain ⟨o, ho, hk⟩ := List.mem_map.mp hm
      obtain ⟨k', t, hk', _, hown, _⟩ := hi.tracked hu o ho
      rw [hk] at hk'
      cases hk'
      rw [hfree] at hown
      cases hown
    | topicAdded pkid topic rest he h0 => exact hold hu h0 hk (by simp [he])
    | built pkid packet he h0 hp =>
      have hpk := (Call.packet_eq_some hp (hreg.phase_ok h0)).1
      exact hold hu h0 (hpk.symm.trans hk) (by simp [he])
    | enqueued | sendFailed => cases hk
  · simp only [step, stepConnect, when_eq_some] at hs
    obtain ⟨_, rfl⟩ := hs
    cases hc

theorem inflight_eq_nil (hn : inflight kinds h = [])
    (he : ∀ frame packet, e ≠ .call (.enqueued frame packet)) : inflight kinds ((s, e) :: h) = [] :=
  List.sublist_nil.mp (hn ▸ inflight_sublist he)

/-- How the client task gets between a CONNACK and the first call of a job. -/
theorem freshlyConnected_origin (hs : step codec options s e = some s')
    (hc : freshlyConnected s'.client) : (∃ caller t sp, e = .connect (.accepted caller t sp)) ∨
      (∀ frame packet, e ≠ .call (.enqueued frame packet)) ∧ (freshlyConnected s.client ∨
        ∃ cnt t, s.client = .awaitConnect cnt t ∧ (s.cell t).error = none) := by
  cases client_cases hs with
  | other he h0 =>
    refine .inr ⟨?_, .inl (h0 ▸ hc)⟩
    rintro frame packet rfl
    cases he
  | acknowledged caller t sp he _ _ => exact .inl ⟨caller, t, sp, he⟩
  | statusSet _ _ _ he h0 _ => exact .inr ⟨by simp [he], .inl (by rw [h0]; rfl)⟩
  | reconnected cnt t he h0 hn _ => exact .inr ⟨by simp [he], .inr ⟨cnt, t, h0, hn⟩⟩
  | cleanedUp he h0 _ | cloned he h0 _ | cleared _ he h0 _ =>
    exact .inr ⟨by simp [he], .inl (by rw [h0]; rfl)⟩
  | refused _ _ _ _ hc' | callReturned _ _ _ _ hc' =>
    rw [hc'] at hc
    rcases ClientTask.returned_cases _ with h | ⟨_, h⟩ <;> rw [h] at hc <;> cases hc
  | answered _ _ _ hc' | connectReturned _ _ _ _ _ hc' =>
    rw [hc'] at hc
    rcases ClientTask.connectReturned_cases _ _ with h | ⟨_, h⟩ <;> rw [h] at hc <;> cases hc
  | _ =>
    rename_i hc'
    rw [hc'] at hc
    cases hc

theorem Inflight.connecting_step (hi : Inflight kinds h s) (hs : step codec options s e = some s')
    (hc : freshlyConnected s'.client) : inflight kinds ((s, e) :: h) = [] := by
  rcases freshlyConnected_origin hs hc with ⟨_, _, _, rfl⟩ | ⟨he, hf | ⟨cnt, t, h0, hn⟩⟩
  · rfl
  · exact inflight_eq_nil (hi.connecting hf) he
  · exact inflight_eq_nil (hi.reconnected h0 hn) he

theorem Inflight.reconnected_step (hi : Inflight kinds h s) (hl : Lifecycle options s)
    (hreg : Registry codec s) (hs : step codec options s e = some s')
    (hc : s'.client = .awaitConnect cnt t) (hn : (s'.cell t).error = none) :
    inflight kinds ((s, e) :: h) = [] := by
  rcases awaitConnect_origin hl hreg hs hc hn with ⟨h0, hn₀, he⟩ | ⟨sp, rfl, h0⟩
  · refine inflight_eq_nil (hi.reconnected h0 hn₀) ?_
    rintro frame packet rfl
    cases he
  · exact inflight_eq_nil (hi.connecting (by rw [h0]; rfl)) (by simp)

theorem inflight_step (hi : Inflight kinds h s) (hl : Lifecycle options s) (hreg : Registry codec s)
    (hg : conforming kinds h s e) (hs : step codec options s e = some s') :
    Inflight kinds ((s, e) :: h) s' where
  waiting := hi.waiting_step hl hg hs
  nodup := hi.nodup_step hl hreg hs
  tracked hu _ ho := hi.tracked_step hl hreg hg hs hu ho
  calling hu hc hk hkinds := hi.calling_step hreg hg hs hu hc hk hkinds
  connecting hc := hi.connecting_step hs hc
  reconnected hc hn := hi.reconnected_step hl hreg hs hc hn

theorem inflight_run (hr : Run codec options (conforming kinds) h s) : Inflight kinds h s :=
  hr.invariant inflight_init fun hr hi hg hs =>
    inflight_step hi (lifecycle hr) (registry hr) hg hs

def anyKind : TokenKind → Bool := fun _ => true

/-- While a connection is not torn down, and its server acknowledges what it
has received: the packets in flight have distinct identifiers, none is 0, the
table holds exactly their tokens under them, and the final acknowledgement of a
packet completes its token, and no other. -/
theorem inflight_unique (hr : Run codec options (conforming anyKind) h s)
    (hu : s.conn.supervisor ≠ .finished) :
    ((inflight anyKind h).map (·.packet.pkid)).Nodup ∧
      (∀ o ∈ inflight anyKind h, ∃ k t, o.packet.pkid = some k ∧ k ≠ 0 ∧ o.token = some t ∧
        s.owner k = some t) ∧
      ∀ o ∈ inflight anyKind h, ∀ ack s', answers ack o.packet →
        step codec options s (received ack) = some s' →
        ∃ t, o.token = some t ∧ (s'.cell t).complete ∧ ∀ u, u ≠ t → s'.cell u = s.cell u := by
  have hi := inflight_run hr
  refine ⟨hi.nodup, fun o ho => ?_, fun o ho ack s' hans hs => ?_⟩
  · obtain ⟨k, t, hk, hot, hown, _⟩ := hi.tracked hu o ho
    exact ⟨k, t, hk, (registry hr).owner_ne_zero hown, hot, hown⟩
  · obtain ⟨k, t, _, hot, hend, _⟩ := hi.ended_of_answers hu ho hans
    have hcell (u : TokenId) := State.cell_readFromServer ack s.state (u := u)
    have hs' : s'.state = (readFromServer ack s.state).1 := state_step hs
    refine ⟨t, hot, ?_, fun u hut => ?_⟩
    · rw [cell, hs', hcell, hend]
      simp
    · rw [cell, hs', hcell, hend]
      simp [Ne.symm hut, cell]

/-- A QoS 2 publish and a subscribe, both written. -/
def twoInFlight : List Event :=
  let publish : Frame := ⟨none, .publish "a" .level2 false [1], 1⟩
  let packet : VariablePacket := .publish { topicName := "a", qos := .level2 2, payload := [1] }
  let subscribe : Frame := ⟨none, .subscribe "a" .level1 7, 2⟩
  sending publish 2 packet ++ [.call (.returned publish)] ++ writing packet 1 ++
    sending subscribe 3 (.subscribe 3 [("a", .level1)]) ++ [.call (.returned subscribe)] ++
    writing (.subscribe 3 [("a", .level1)]) 2

theorem inflight_unique_two : ∃ h s, Run acceptingCodec .new (conforming anyKind) h s ∧
    (inflight anyKind h).length = 2 ∧ ((inflight anyKind h).map (·.packet.pkid)).Nodup := by
  obtain ⟨h, s, hr, ht⟩ := Lts.exists_run (step acceptingCodec .new) (conforming anyKind) init
    (connecting none 0 false ++ connected none 0 false ++ twoInFlight)
    (fun h s => s.conn.supervisor ≠ .finished && (inflight anyKind h).length = 2)
    (by decide +kernel)
  simp only [Bool.and_eq_true, decide_eq_true_eq] at ht
  exact ⟨h, s, hr, ht.2, (inflight_unique hr ht.1).1⟩

end System

end MesquitteClient
