import MesquitteClient.FailedCalls
import Mathlib.Data.List.Nodup

/-!
# The outcome of a token

`set_error` overwrites, so a token that is complete changes its outcome when
somebody else fails it after that. Besides the identifier table, whose tokens
`clean_up` fails, only one task at a time can: the call that created it, until
its packet is sent, and then the write loop. A call or a write that fails
leaves its token in the table (`outcome_overwritten`). When each token is
failed by its holder or ended by way of the table, but not both, every outcome
is final (`outcome_final`).
-/

namespace MesquitteClient

/-- The token that the method the client task is in can still fail. -/
def ClientTask.unsent : ClientTask → Option TokenId
  | .call frame phase => if phase = .sent then none else some frame.token
  | .connect _ t _ => some t
  | _ => none

/-- A token that nobody else has: one of `connect`, or not yet registered. -/
def ClientTask.alone : ClientTask → Option TokenId
  | .call frame .registering => some frame.token
  | .connect _ t _ => some t
  | _ => none

theorem ClientTask.unsent_of_alone {client : ClientTask} (h : client.alone = some t) :
    client.unsent = some t := by
  unfold alone at h
  split at h <;> simp_all [unsent]

theorem ClientTask.token_of_unsent {client : ClientTask} (h : client.unsent = some t) :
    client.token = some t := by
  unfold unsent at h
  split at h <;> simp_all [token]

theorem ClientTask.unsent_cases {client : ClientTask} (h : client.unsent = some t) :
    (∃ frame phase, client = .call frame phase ∧ phase ≠ .sent ∧ frame.token = t) ∨
      ∃ caller phase, client = .connect caller t phase := by
  unfold unsent at h
  split at h
  · rename_i frame phase
    split at h
    · cases h
    · rename_i hp
      exact .inl ⟨frame, phase, rfl, hp, Option.some.inj h⟩
  · rename_i caller u phase
    cases h
    exact .inr ⟨caller, phase, rfl⟩
  · cases h

theorem ClientTask.alone_cases {client : ClientTask} (h : client.alone = some t) :
    (∃ frame, client = .call frame .registering ∧ frame.token = t) ∨
      ∃ caller phase, client = .connect caller t phase := by
  unfold alone at h
  split at h
  · exact .inl ⟨_, rfl, Option.some.inj h⟩
  · cases h
    exact .inr ⟨_, _, rfl⟩
  · cases h

@[simp] theorem ClientTask.unsent_returned (frame : Frame) : (returned frame).unsent = none := by
  rcases returned_cases frame with h | ⟨_, h⟩ <;> rw [h] <;> rfl

@[simp] theorem ClientTask.unsent_connectReturned (caller : Caller) (t : TokenId) :
    (connectReturned caller t).unsent = none := by
  rcases connectReturned_cases caller t with h | ⟨_, h⟩ <;> rw [h] <;> rfl

/-- The tokens with the write loop: of the packet it writes, and of the queue. -/
def Connection.carried (conn : Connection) : List TokenId :=
  (match conn.writer with
    | .writingOutgoing o => o.token.toList
    | _ => []) ++ conn.outgoing.filterMap (·.token)

namespace System

variable {codec : Codec} {options : ClientOptions} {s s' : System} {e : Event}
variable {guard : Lts.Guard System Event} {h : Lts.History System Event}

-- ---------------------------------------------------------------------------
-- Who can fail a token
-- ---------------------------------------------------------------------------

/-- The token that a call or a write fails: an invalid topic, a closed
channel, an error of the transport. -/
def fails : Event → Option TokenId
  | .call (.invalid frame _ _) => some frame.token
  | .call (.sendFailed frame _) => some frame.token
  | .writer (.outgoingFailed o _) => o.token
  | _ => none

/-- The step ends the token by way of the table: an acknowledgement completes
it, or `clean_up` fails it. -/
def ends (t : TokenId) (x : System × Event) : Bool :=
  (match x.2 with
    | .reader (.received ack) => (State.ended ack x.1.state).map Prod.snd = some t
    | _ => false) || cleansUp x.2 && x.1.registered t

/-- No token is failed that has been ended, and `clean_up` finds none that has
been failed. -/
def failsOnce : Lts.Guard System Event := fun h s e =>
  ((fails e).all fun t => !h.any (ends t)) &&
    (!cleansUp e || s.state.packetIds.registered.all fun t => !h.any fun x => fails x.2 = some t)

/-- The tokens with the client task and with the write loop. -/
def holders (s : System) : List TokenId := s.client.unsent.toList ++ s.conn.carried

theorem ends_iff : ends t (s, e) ↔
    (∃ ack k, e = received ack ∧ State.ended ack s.state = some (k, t)) ∨
      cleansUp e ∧ s.registered t := by
  simp only [ends, Bool.or_eq_true, Bool.and_eq_true]
  refine or_congr_left ⟨fun he => ?_, ?_⟩
  · split at he
    · rename_i ack
      obtain ⟨⟨k, _⟩, hend, rfl⟩ := Option.map_eq_some_iff.mp (of_decide_eq_true he)
      exact ⟨ack, k, rfl, hend⟩
    · cases he
  · rintro ⟨ack, k, rfl, hend⟩
    simp [hend]

theorem registered_of_ends (he : ends t (s, e)) : s.registered t := by
  rcases ends_iff.mp he with ⟨ack, k, rfl, hend⟩ | ⟨_, hr⟩
  · exact (registered_iff s).mpr ⟨k, (State.ended_eq_some.mp hend).2.1⟩
  · exact hr

theorem unregistered_of_ends (hreg : Registry codec s) (hs : step codec options s e = some s')
    (he : ends t (s, e)) : ¬ s'.registered t := by
  rw [registered_iff]
  rintro ⟨j, ho⟩
  rw [owner_step hs] at ho
  rcases ends_iff.mp he with ⟨ack, k, rfl, hend⟩ | ⟨hclean, _⟩
  · simp only [ownerAfter, hend, Option.map_some, Option.some.injEq] at ho
    split at ho
    · cases ho
    · rename_i hne
      exact hne (hreg.owner_inj (State.ended_eq_some.mp hend).2.1 ho)
  · rcases cleansUp_iff.mp hclean with rfl | rfl <;> simp [ownerAfter, cleansUp] at ho

theorem Registry.alone_unregistered (hreg : Registry codec s) (ha : s.client.alone = some t) :
    ¬ s.registered t := by
  rw [registered_iff]
  rintro ⟨k, ho⟩
  rcases ClientTask.alone_cases ha with ⟨frame, hc, rfl⟩ | ⟨caller, phase, hc⟩
  · exact (hreg.phase_ok hc).2 k ho
  · have hk := hreg.owner_numbered ho
    rw [hreg.connect_kind hc] at hk
    cases hk

theorem Registry.holders_lt (hreg : Registry codec s) (ht : t ∈ holders s) :
    t < s.state.tokens.next := by
  rcases List.mem_append.mp ht with ht | ht
  · exact hreg.client_lt (ClientTask.token_of_unsent (Option.mem_toList.mp ht))
  · rcases List.mem_append.mp ht with ht | ht
    · split at ht
      · exact hreg.writing_lt ‹_› (Option.mem_toList.mp ht)
      · cases ht
    · obtain ⟨o, ho, hot⟩ := List.mem_filterMap.mp ht
      exact hreg.queued_lt ho hot

-- ---------------------------------------------------------------------------
-- How tokens change hands
-- ---------------------------------------------------------------------------

/-- The events that put a new token in the hands of the client task. -/
def begins : Event → Bool
  | .call (.accepted ..) | .connect (.started _) => true
  | _ => false

theorem unsent_origin (hs : step codec options s e = some s') (ht : s'.client.unsent = some t) :
    s.client.unsent = some t ∨ begins e ∧ t = s.state.tokens.next := by
  rcases ClientTask.unsent_cases ht with ⟨frame, phase, hc, hp, rfl⟩ | ⟨caller, phase, hc⟩
  · rcases phase_origin hs hc with h0 | ⟨phase', h0, hp', _⟩ | ⟨_, _, rfl, rfl⟩
    · exact .inl (by rw [h0, ← hc, ht])
    · exact .inl (by rw [h0]; exact if_neg hp')
    · exact .inr ⟨rfl, rfl⟩
  · rcases connect_origin hs hc with ⟨phase', h0⟩ | ⟨rfl, rfl⟩
    · exact .inl (by rw [h0]; rfl)
    · exact .inr ⟨rfl, rfl⟩

theorem alone_origin (hs : step codec options s e = some s') (ht : s'.client.alone = some t) :
    s.client.alone = some t ∨ begins e ∧ t = s.state.tokens.next := by
  rcases ClientTask.alone_cases ht with ⟨frame, hc, rfl⟩ | ⟨caller, phase, hc⟩
  · rcases phase_origin hs hc with h0 | ⟨_, _, _, hp⟩ | ⟨_, _, rfl, rfl⟩
    · exact .inl (by rw [h0]; rfl)
    · exact absurd rfl hp
    · exact .inr ⟨rfl, rfl⟩
  · rcases connect_origin hs hc with ⟨phase', h0⟩ | ⟨rfl, rfl⟩
    · exact .inl (by rw [h0]; rfl)
    · exact .inr ⟨rfl, rfl⟩

/-- The write loop gets tokens only from a call that sends. -/
theorem carried_step (hs : step codec options s e = some s') :
    s'.conn.carried.Sublist s.conn.carried ∨
      ∃ frame packet, e = .call (.enqueued frame packet) ∧
        s'.conn.carried = s.conn.carried ++ [frame.token] := by
  rw [conn_step hs]
  cases e with
  | call e =>
    cases e with
    | enqueued frame packet =>
      right
      refine ⟨frame, packet, rfl, ?_⟩
      simp [Connection.carried, connAfter]
    | _ => exact .inl (.refl _)
  | connect e =>
    left
    cases e with
    | accepted caller t sp => exact List.nil_sublist _
    | _ => exact .refl _
  | reader e | supervisor e => left; cases e <;> exact .refl _
  | block e | runtime e => exact .inl (.refl _)
  | writer e =>
    left
    cases e with
    | msgTaken packet | msgWritten packet | outgoingWritten o =>
      simp only [step, stepWriter, when_eq_some] at hs
      simp [Connection.carried, connAfter, hs.1]
    | outgoingTaken o =>
      simp only [step, stepWriter, when_eq_some] at hs
      obtain ⟨⟨hw, hhead⟩, _⟩ := hs
      obtain ⟨rest, hrest⟩ := List.head?_eq_some_iff.mp hhead
      cases ho : o.token <;> simp [Connection.carried, connAfter, hw, hrest, ho]
    | _ => exact List.nil_sublist _
  | keepAlive e =>
    left
    cases e with
    | pinged => simp [Connection.carried, connAfter]
    | _ => exact .refl _

/-- What an event other than an acknowledgement or `clean_up` does to a token:
it neither completes nor fails it, or its holder ends it and lets go of it. -/
theorem touched_cases (hs : step codec options s e = some s') (hf : touched e = some (t, f)) :
    (∀ token, (f token).complete = token.complete ∧ (f token).error = token.error) ∨
      (s.client.unsent = some t ∧ s'.client.unsent = none ∧ s'.conn = s.conn ∧
        (fails e = some t ∨ s.client.alone = some t)) ∨
      ∃ o, s.conn.writer = .writingOutgoing o ∧ o.token = some t ∧ s'.client = s.client ∧
        s'.conn.carried.Sublist (s.conn.outgoing.filterMap (·.token)) ∧
        (fails e = some t ∨ f = completeWritten) := by
  have hconn := conn_step hs
  cases e with
  | call e =>
    cases e with
    | topicAdded frame pkid topic rest | returned frame =>
      simp only [touched, Option.some.injEq, Prod.mk.injEq] at hf
      obtain ⟨_, rfl⟩ := hf
      exact .inl fun token => ⟨by simp, by simp⟩
    | exhausted frame =>
      simp only [touched, Option.some.injEq, Prod.mk.injEq] at hf
      obtain ⟨rfl, _⟩ := hf
      simp only [step, stepCall, when_eq_some] at hs
      obtain ⟨⟨hc, _⟩, rfl⟩ := hs
      rw [hc]
      exact .inr (.inl ⟨rfl, ClientTask.unsent_returned frame, hconn, .inr rfl⟩)
    | invalid frame pkid topics =>
      simp only [touched, Option.some.injEq, Prod.mk.injEq] at hf
      obtain ⟨rfl, _⟩ := hf
      simp only [step, stepCall, when_eq_some] at hs
      obtain ⟨⟨hc, _⟩, rfl⟩ := hs
      rw [hc]
      exact .inr (.inl ⟨rfl, ClientTask.unsent_returned frame, hconn, .inl rfl⟩)
    | sendFailed frame packet =>
      simp only [touched, Option.some.injEq, Prod.mk.injEq] at hf
      obtain ⟨rfl, _⟩ := hf
      simp only [step, stepCall, when_eq_some] at hs
      obtain ⟨⟨hc, _⟩, rfl⟩ := hs
      rw [hc]
      exact .inr (.inl ⟨rfl, rfl, hconn, .inl rfl⟩)
    | _ => cases hf
  | connect e =>
    cases e with
    | transportFailed caller u err | refused caller u item =>
      simp only [touched, Option.some.injEq, Prod.mk.injEq] at hf
      obtain ⟨rfl, _⟩ := hf
      simp only [step, stepConnect, when_eq_some] at hs
      obtain ⟨⟨hc, _⟩, rfl⟩ := hs
      rw [hc]
      exact .inr (.inl ⟨rfl, ClientTask.unsent_connectReturned _ _, hconn, .inr rfl⟩)
    | returned caller u sp =>
      simp only [touched, Option.some.injEq, Prod.mk.injEq] at hf
      obtain ⟨rfl, _⟩ := hf
      simp only [step, stepConnect, when_eq_some] at hs
      obtain ⟨hc, rfl⟩ := hs
      rw [hc]
      exact .inr (.inl ⟨rfl, ClientTask.unsent_connectReturned _ _, hconn, .inr rfl⟩)
    | _ => cases hf
  | writer e =>
    have hclient := client_step hs rfl
    cases e with
    | outgoingWritten o =>
      simp only [touched, Option.map_eq_some_iff, Prod.mk.injEq] at hf
      obtain ⟨_, hot, rfl, rfl⟩ := hf
      simp only [step, stepWriter, when_eq_some] at hs
      rw [hconn]
      exact .inr (.inr ⟨o, hs.1, hot, hclient, .refl _, .inr rfl⟩)
    | outgoingFailed o err =>
      simp only [touched, Option.map_eq_some_iff, Prod.mk.injEq] at hf
      obtain ⟨_, hot, rfl, rfl⟩ := hf
      simp only [step, stepWriter, when_eq_some] at hs
      rw [hconn]
      exact .inr (.inr ⟨o, hs.1, hot, hclient, List.nil_sublist _, .inl hot⟩)
    | _ => cases hf
  | _ e => cases e <;> cases hf

-- ---------------------------------------------------------------------------
-- The invariant
-- ---------------------------------------------------------------------------

/-- A token is in one pair of hands at most besides the table. One that is
complete while it is held has been ended, and one that is complete while it is
registered has been failed. -/
structure Holding (h : Lts.History System Event) (s : System) : Prop where
  nodup : (holders s).Nodup
  alone : s.client.alone = some t → ¬ (s.cell t).complete
  held : t ∈ holders s → (s.cell t).complete → h.any (ends t)
  table : s.registered t → (s.cell t).complete → h.any fun x => fails x.2 = some t

theorem holding_init : Holding [] init where
  nodup := List.nodup_nil
  alone h := by cases h
  held h := by cases h
  table h := by simp [init, registered, PacketIds.registered, State.new, PacketIds.new] at h

/-- The token the client task has is not with the write loop. -/
theorem Holding.unsent_not_carried (hh : Holding h s) (hu : s.client.unsent = some t) :
    t ∉ s.conn.carried := by
  have hnodup := hh.nodup
  rw [holders, hu, Option.toList_some, List.singleton_append, List.nodup_cons] at hnodup
  exact hnodup.1

theorem Holding.nodup_step (hh : Holding h s) (hreg : Registry codec s)
    (hs : step codec options s e = some s') : (holders s').Nodup := by
  have hcarried : s.conn.carried.Nodup := hh.nodup.sublist (List.sublist_append_right _ _)
  rcases carried_step hs with hsub | ⟨frame, packet, rfl, hcar⟩
  · rw [holders]
    cases hu : s'.client.unsent with
    | none => exact hcarried.sublist hsub
    | some t =>
      rw [Option.toList_some, List.singleton_append, List.nodup_cons]
      refine ⟨fun ht => ?_, hcarried.sublist hsub⟩
      rcases unsent_origin hs hu with h0 | ⟨_, rfl⟩
      · exact hh.unsent_not_carried h0 (hsub.subset ht)
      · exact Nat.lt_irrefl _ (hreg.holders_lt (List.mem_append_right _ (hsub.subset ht)))
  · simp only [step, stepCall, when_eq_some] at hs
    obtain ⟨⟨hc, _⟩, rfl⟩ := hs
    have hu : s.client.unsent = some frame.token := by rw [hc]; rfl
    rw [holders, hcar]
    change (s.conn.carried ++ [frame.token]).Nodup
    exact (List.perm_append_singleton _ _).nodup_iff.mpr
      (List.nodup_cons.mpr ⟨hh.unsent_not_carried hu, hcarried⟩)

/-- A held token was held, or is new and not complete. -/
theorem holders_origin (hs : step codec options s e = some s')
    (ht : t ∈ holders s') : t ∈ holders s ∨ t = s.state.tokens.next ∧ begins e := by
  rcases List.mem_append.mp ht with hu | hcar
  · rcases unsent_origin hs (Option.mem_toList.mp hu) with h0 | ⟨hb, rfl⟩
    · exact .inl (List.mem_append_left _ (Option.mem_toList.mpr h0))
    · exact .inr ⟨rfl, hb⟩
  · left
    rcases carried_step hs with hsub | ⟨frame, packet, rfl, hcar'⟩
    · exact List.mem_append_right _ (hsub.subset hcar)
    · rw [hcar'] at hcar
      rcases List.mem_append.mp hcar with h0 | h0
      · exact List.mem_append_right _ h0
      · simp only [step, stepCall, when_eq_some] at hs
        have hu : s.client.unsent = some frame.token := by rw [hs.1.1]; rfl
        rw [List.mem_singleton.mp h0]
        exact List.mem_append_left _ (Option.mem_toList.mpr hu)

theorem incomplete_of_begins (hs : step codec options s e = some s') (hb : begins e) :
    ¬ (s'.cell s.state.tokens.next).complete := by
  unfold begins at hb
  split at hb
  · rename_i job call
    rw [cell_created hs rfl]
    cases call <;> simp [Call.newToken, InnerToken.publish, InnerToken.setQos, InnerToken.subscribe,
      InnerToken.unsubscribe, InnerToken.disconnect]
  · rw [cell_created hs rfl]
    simp [InnerToken.connect]
  · cases hb

/-- A token becomes complete by way of the table, or by its holder, who lets go
of it. -/
theorem Holding.completing (hh : Holding h s) (hreg : Registry codec s)
    (hs : step codec options s e = some s') (hlt : t < s.state.tokens.next)
    (hn : ¬ (s.cell t).complete) (hc : (s'.cell t).complete) : ends t (s, e) ∨
      t ∈ holders s ∧ t ∉ holders s' ∧ (s.registered t → fails e = some t) := by
  rcases cell_cases hs hlt with ⟨ack, k, rfl, hend, _⟩ | ⟨hclean, hreg', _⟩ | ⟨f, hf, hcell⟩ | hcell
  · exact .inl (ends_iff.mpr (.inl ⟨ack, k, rfl, hend⟩))
  · exact .inl (ends_iff.mpr (.inr ⟨hclean, hreg'⟩))
  · rcases touched_cases hs hf with hsame | ⟨hu, hu', hconn, hby⟩ | ⟨o, hw, hot, hclient, hsub, hby⟩
    · rw [hcell, (hsame _).1] at hc
      exact absurd hc hn
    · refine .inr ⟨List.mem_append_left _ (Option.mem_toList.mpr hu), ?_, fun hr => ?_⟩
      · rw [holders, hu', hconn]
        exact hh.unsent_not_carried hu
      · exact hby.resolve_right fun ha => hreg.alone_unregistered ha hr
    · have hcar : s.conn.carried = t :: s.conn.outgoing.filterMap (·.token) := by
        rw [Connection.carried, hw]
        simp [hot]
      have hmem : t ∈ s.conn.carried := hcar ▸ List.mem_cons_self
      refine .inr ⟨List.mem_append_right _ hmem, fun ht => ?_, fun hr => ?_⟩
      · rcases List.mem_append.mp ht with hu | ht
        · rw [hclient] at hu
          exact hh.unsent_not_carried (Option.mem_toList.mp hu) hmem
        · have hnodup := hh.nodup.sublist (List.sublist_append_right _ _)
          rw [hcar, List.nodup_cons] at hnodup
          exact hnodup.1 (hsub.subset ht)
      · refine hby.resolve_right fun hwritten => ?_
        obtain ⟨k, ho⟩ := (registered_iff s).mp hr
        rw [hcell, hwritten, completeWritten_numbered (hreg.owner_numbered ho)] at hc
        exact hn hc
  · rw [hcell] at hc
    exact absurd hc hn

theorem holding_step (hh : Holding h s) (hreg : Registry codec s)
    (hs : step codec options s e = some s') : Holding ((s, e) :: h) s' where
  nodup := hh.nodup_step hreg hs
  alone {t} ha hc := by
    rcases alone_origin hs ha with h0 | ⟨hb, rfl⟩
    · have ht : t ∈ holders s :=
        List.mem_append_left _ (Option.mem_toList.mpr (ClientTask.unsent_of_alone h0))
      have ht' : t ∈ holders s' :=
        List.mem_append_left _ (Option.mem_toList.mpr (ClientTask.unsent_of_alone ha))
      rcases hh.completing hreg hs (hreg.holders_lt ht) (hh.alone h0) hc with he | ⟨_, hnot, _⟩
      · exact hreg.alone_unregistered h0 (registered_of_ends he)
      · exact hnot ht'
    · exact incomplete_of_begins hs hb hc
  held {t} ht hc := by
    rw [List.any_cons, Bool.or_eq_true]
    rcases holders_origin hs ht with h0 | ⟨rfl, hb⟩
    · by_cases hc₀ : (s.cell t).complete
      · exact .inr (hh.held h0 hc₀)
      · rcases hh.completing hreg hs (hreg.holders_lt h0) hc₀ hc with he | ⟨_, hnot, _⟩
        · exact .inl he
        · exact absurd ht hnot
    · exact absurd hc (incomplete_of_begins hs hb)
  table {t} hr hc := by
    rw [List.any_cons, Bool.or_eq_true, decide_eq_true_eq]
    obtain ⟨k, ho⟩ := (registered_iff s').mp hr
    rcases owner_origin hs ho with h0 | ⟨frame, rfl, rfl⟩
    · have hr₀ : s.registered t := (registered_iff s).mpr ⟨k, h0⟩
      by_cases hc₀ : (s.cell t).complete
      · exact .inr (hh.table hr₀ hc₀)
      · rcases hh.completing hreg hs (hreg.owner_lt h0) hc₀ hc with he | ⟨_, _, hfail⟩
        · exact absurd hr (unregistered_of_ends hreg hs he)
        · exact .inl (hfail hr₀)
    · have hclient := (registered_step hs).1
      rw [cell_step hs (hreg.frame_lt hclient)] at hc
      exact absurd hc (hh.alone (by rw [hclient]; rfl))

theorem holding_run (hr : Run codec options guard h s) : Holding h s :=
  hr.invariant holding_init fun hr hh _ hs => holding_step hh (registry hr) hs

-- ---------------------------------------------------------------------------
-- Outcomes
-- ---------------------------------------------------------------------------

theorem poll_eq_some {token : InnerToken} {waker : Waker} {outcome : Option TokenError} :
    (token.poll waker).2 = some outcome ↔ token.complete ∧ token.error = outcome := by
  unfold InnerToken.poll
  split <;> simp_all

/-- An allowed step leaves the error of a complete token as it is. -/
theorem outcome_step (hr : Run codec options guard h s) (hg : failsOnce h s e)
    (hs : step codec options s e = some s') (hlt : t < s.state.tokens.next)
    (hc : (s.cell t).complete) : (s'.cell t).error = (s.cell t).error := by
  have hh := holding_run hr
  simp only [failsOnce, Bool.and_eq_true, Bool.or_eq_true, Bool.not_eq_true',
    Option.all_eq_true, List.all_eq_true] at hg
  obtain ⟨hfails, hclean⟩ := hg
  have hheld (hby : fails e = some t) (ht : t ∈ holders s) : False := by
    have := hfails t hby
    rw [hh.held ht hc] at this
    cases this
  rcases cell_cases hs hlt with ⟨ack, k, rfl, _, hcell⟩ | ⟨hce, hreg, _⟩ | ⟨f, hf, hcell⟩ | hcell
  · rw [hcell, InnerToken.flowComplete_error]
    cases ack with
    | suback pkid codes => exact State.record_error 0 codes _
    | _ => rfl
  · have := hclean.resolve_left (by simp [hce]) t (of_decide_eq_true hreg)
    rw [hh.table hreg hc] at this
    cases this
  · rw [hcell]
    rcases touched_cases hs hf with hsame | ⟨hu, _, _, hby | ha⟩ | ⟨o, hw, hot, _, _, hby | rfl⟩
    · exact (hsame _).2
    · exact (hheld hby (List.mem_append_left _ (Option.mem_toList.mpr hu))).elim
    · exact absurd hc (hh.alone ha)
    · refine (hheld hby (List.mem_append_right _ (List.mem_append_left _ ?_))).elim
      simp [hw, hot]
    · rcases completeWritten_cases (s.cell t) with h | h <;> rw [h]
      exact InnerToken.flowComplete_error _
  · rw [hcell]

/-- In every run in which no token is failed by its call or its write after it
has been ended by way of the table, and `clean_up` finds none that has been
failed before: what the future of a token yields once, it yields from then
on. -/
theorem outcome_final (hr : Run codec options failsOnce (later ++ (s₁, e) :: h₁) s)
    (hlt : t < s₁.state.tokens.next) (ho : ((s₁.cell t).poll w).2 = some outcome) :
    ((s.cell t).poll w').2 = some outcome := by
  rw [poll_eq_some] at ho ⊢
  obtain ⟨hc, rfl⟩ := ho
  have hrun : ∀ later s, Run codec options failsOnce (later ++ (s₁, e) :: h₁) s →
      t < s.state.tokens.next ∧ (s.cell t).complete ∧ (s.cell t).error = (s₁.cell t).error := by
    intro later
    induction later with
    | nil =>
      intro s hr
      cases hr with
      | snoc hr hg hs =>
        exact ⟨lt_next_step hs hlt, complete_step hs hlt hc, outcome_step hr hg hs hlt hc⟩
    | cons x later ih =>
      intro s hr
      cases hr with
      | snoc hr hg hs =>
        obtain ⟨hlt', hc', he'⟩ := ih _ hr
        exact ⟨lt_next_step hs hlt', complete_step hs hlt' hc',
          (outcome_step hr hg hs hlt' hc').trans he'⟩
  exact (hrun later s hr).2

/-- A subscribe token completes, and stays so when the connection is torn
down. -/
theorem outcome_final_subscribe : ∃ h later s₁ e h₁ s, h = later ++ (s₁, e) :: h₁ ∧
    Run acceptingCodec .new failsOnce h s ∧ s.conn.supervisor = .finished ∧
    ((s₁.cell 1).poll 0).2 = some none ∧ ((s.cell 1).poll 0).2 = some none := by
  obtain ⟨h, s, hr, ht⟩ := Lts.exists_run (step acceptingCodec .new) failsOnce init
    (connecting none 0 false ++ connected none 0 false ++ subscribing "a" 7 1 2 ++ closing)
    (fun h s => s.conn.supervisor = .finished && (h.drop 4).head?.any fun x =>
      1 < x.1.state.tokens.next && ((x.1.cell 1).poll 0).2 = some none) (by decide +kernel)
  simp only [Bool.and_eq_true, decide_eq_true_eq, Option.any_eq_true] at ht
  obtain ⟨hf, ⟨s₁, e⟩, hhead, hlt, ho⟩ := ht
  obtain ⟨h₁, hdrop⟩ := List.head?_eq_some_iff.mp hhead
  have hsplit : h = h.take 4 ++ (s₁, e) :: h₁ := by rw [← hdrop, List.take_append_drop]
  exact ⟨h, h.take 4, s₁, e, h₁, s, hsplit, hr, hf, ho,
    outcome_final (by rw [← hsplit]; exact hr) hlt ho⟩

/-- A subscribe call with an invalid filter: its token yields `InvalidTopic`,
and `ConnectionLost` once the connection is torn down. -/
theorem outcome_overwritten : ¬ ∀ later s₁ e h₁ s t w w' outcome,
    Run refusingCodec .new Lts.anything (later ++ (s₁, e) :: h₁) s → t < s₁.state.tokens.next →
      ((s₁.cell t).poll w).2 = some outcome → ((s.cell t).poll w').2 = some outcome := by
  obtain ⟨h, s, hr, ht⟩ := Lts.exists_run (step refusingCodec .new) Lts.anything init
    (connecting none 0 false ++ connected none 0 false ++ subscribingInvalid ++ closing)
    (fun h s => ((s.cell 1).poll 0).2 = some (some .connectionLost) &&
      (h.drop 4).head?.any fun x =>
        1 < x.1.state.tokens.next && ((x.1.cell 1).poll 0).2 = some (some .invalidTopic))
    (by decide +kernel)
  simp only [Bool.and_eq_true, decide_eq_true_eq, Option.any_eq_true] at ht
  obtain ⟨hlost, ⟨s₁, e⟩, hhead, hlt, ho⟩ := ht
  obtain ⟨h₁, hdrop⟩ := List.head?_eq_some_iff.mp hhead
  have hsplit : h = h.take 4 ++ (s₁, e) :: h₁ := by rw [← hdrop, List.take_append_drop]
  intro hall
  have := hall (h.take 4) s₁ e h₁ s 1 0 0 _ (by rw [← hsplit]; exact hr) hlt ho
  rw [hlost] at this
  cases this

end System

end MesquitteClient
