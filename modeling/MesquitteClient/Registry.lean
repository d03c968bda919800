import MesquitteClient.Lifecycle

/-!
# Calls, tokens and the identifier table

Which tokens exist, what the token of the running call is, and what the
identifier table holds: only tokens of calls that take an identifier, each
under one identifier, none under 0.
-/

namespace MesquitteClient

/-- The kinds of token that are registered under an identifier. -/
def TokenKind.numbered : TokenKind → Bool
  | .publish qos => qos ≠ .level0
  | .subscribe | .unsubscribe => true
  | _ => false

theorem Call.takesId_eq (call : Call) : call.takesId = call.newToken.kind.numbered := by
  cases call <;> rfl

/-- The token of the method the client task is in. -/
def ClientTask.token : ClientTask → Option TokenId
  | .call frame _ => some frame.token
  | .connect _ token _ => some token
  | .awaitConnect _ token => some token
  | .job (.awaiting token _) => some token
  | _ => none

theorem ClientTask.token_returned (h : (returned frame).token = some t) : t = frame.token := by
  rcases returned_cases frame with hr | ⟨rest, hr⟩ <;> rw [hr] at h <;> simp_all [token]

theorem ClientTask.token_connectReturned (h : (connectReturned caller u).token = some t) : t = u := by
  rcases connectReturned_cases caller u with hr | ⟨rest, hr⟩ <;> rw [hr] at h <;> simp_all [token]

namespace System

variable {codec : Codec} {options : ClientOptions} {s s' : System} {e : Event}
variable {guard : Lts.Guard System Event} {h : Lts.History System Event}

-- ---------------------------------------------------------------------------
-- Where the client task comes from
-- ---------------------------------------------------------------------------

theorem token_origin (hs : step codec options s e = some s') (ht : s'.client.token = some t) :
    s.client.token = some t ∨ (created e).isSome ∧ t = s.state.tokens.next := by
  cases client_cases hs with
  | other _ hc => exact .inl (hc ▸ ht)
  | accepted _ _ he _ hc' | started _ he _ hc' =>
    rw [hc'] at ht
    exact .inr ⟨by rw [he]; rfl, (Option.some.inj ht).symm⟩
  | refused _ _ he _ hc' =>
    rw [hc'] at ht
    exact .inr ⟨by rw [he]; rfl, ClientTask.token_returned ht⟩
  | answered _ he _ hc' =>
    rw [hc'] at ht
    rcases he with rfl | rfl <;> exact .inr ⟨rfl, ClientTask.token_connectReturned ht⟩
  | calling _ _ _ _ hc hc' | opened _ _ _ hc hc' | acknowledged _ _ _ _ hc hc'
  | statusSet _ _ _ _ hc hc' =>
    rw [hc'] at ht
    rw [hc]
    exact .inl ht
  | callReturned _ _ _ hc hc' =>
    rw [hc'] at ht
    rw [ClientTask.token_returned ht, hc]
    exact .inl rfl
  | connectReturned _ _ _ _ hc hc' =>
    rw [hc'] at ht
    rw [ClientTask.token_connectReturned ht, hc]
    exact .inl rfl
  | reconnected _ _ _ _ _ hc' => rcases hc' with ⟨_, hc'⟩ | hc' <;> rw [hc'] at ht <;> cases ht
  | _ =>
    rename_i hc'
    rw [hc'] at ht
    cases ht

/-- A call goes through its phases in order: it stays where it was, or goes on,
or has just been accepted. -/
theorem phase_origin (hs : step codec options s e = some s') (hc : s'.client = .call frame phase) :
    s.client = .call frame phase ∨
      (∃ phase', s.client = .call frame phase' ∧ phase' ≠ .sent ∧ phase ≠ .registering) ∨
      ∃ job call, e = .call (.accepted job call) ∧ frame = ⟨job, call, s.state.tokens.next⟩ := by
  cases call_cases hs hc with
  | other _ h0 => exact .inl h0
  | accepted job call he _ hf => exact .inr (.inr ⟨job, call, he, hf⟩)
  | registered _ _ h0 | topicAdded _ _ _ _ h0 | built _ _ _ h0 _ | enqueued _ _ h0
  | sendFailed _ _ h0 =>
    exact .inr (.inl ⟨_, h0, by simp, by simp⟩)

/-- A call in progress was in progress before, or has just been accepted. -/
theorem call_origin (hs : step codec options s e = some s') (hc : s'.client = .call frame phase) :
    (∃ phase', s.client = .call frame phase') ∨
      ∃ job call, e = .call (.accepted job call) ∧ frame = ⟨job, call, s.state.tokens.next⟩ := by
  rcases phase_origin hs hc with h | ⟨phase', h, _⟩ | h
  · exact .inl ⟨phase, h⟩
  · exact .inl ⟨phase', h⟩
  · exact .inr h

/-- `connect` and `block` take no step during a call. -/
theorem not_in_call (hs : step codec options s e = some s')
    (he : (∃ e', e = .connect e') ∨ ∃ e', e = .block e') : s.client ≠ .call frame phase := by
  intro h0
  rcases he with ⟨e, rfl⟩ | ⟨e, rfl⟩
  · cases e with
    | started caller | already caller | reconnecting caller =>
      simp only [step, stepConnect, when_eq_some] at hs
      obtain ⟨⟨hc, _⟩, _⟩ := hs
      rcases ClientTask.connects_cases hc with ⟨h, _⟩ | ⟨_, h, _⟩ <;> cases h0.symm.trans h
    | _ => simp [step, stepConnect, h0] at hs
  · cases e <;> simp [step, stepBlock, h0] at hs

theorem connect_origin (hs : step codec options s e = some s')
    (hc : s'.client = .connect caller t phase) :
    (∃ phase', s.client = .connect caller t phase') ∨
      e = .connect (.started caller) ∧ t = s.state.tokens.next := by
  cases client_cases hs with
  | other _ h0 => exact .inl ⟨phase, h0.symm.trans hc⟩
  | started _ he _ hc' =>
    cases hc'.symm.trans hc
    exact .inr ⟨he, rfl⟩
  | opened _ _ _ h0 hc' | acknowledged _ _ _ _ h0 hc' | statusSet _ _ _ _ h0 hc' =>
    cases hc'.symm.trans hc
    exact .inl ⟨_, h0⟩
  | refused _ _ _ _ hc' | callReturned _ _ _ _ hc' =>
    exact absurd (hc'.symm.trans hc) ClientTask.returned_ne_connect
  | answered _ _ _ hc' | connectReturned _ _ _ _ _ hc' =>
    exact absurd (hc'.symm.trans hc) ClientTask.connectReturned_ne_connect
  | reconnected _ _ _ _ _ hc' => rcases hc' with ⟨_, hc'⟩ | hc' <;> cases hc'.symm.trans hc
  | _ =>
    rename_i hc'
    cases hc'.symm.trans hc

/-- A token is registered where it was before, or by the running call. -/
theorem owner_origin (hs : step codec options s e = some s') (ho : s'.owner k = some t) :
    s.owner k = some t ∨ ∃ frame, e = .call (.registered frame k) ∧ t = frame.token := by
  rw [owner_step hs] at ho
  unfold ownerAfter at ho
  split at ho
  · rename_i frame pkid
    split at ho
    · rename_i hk
      exact .inr ⟨frame, by rw [hk], (Option.some.inj ho).symm⟩
    · exact .inl ho
  · split at ho
    · cases ho
    · exact .inl ho
  · split at ho
    · cases ho
    · exact .inl ho

/-- A token leaves the table by an acknowledgement that completes it, or by
`clean_up`. -/
theorem owner_lost (hs : step codec options s e = some s') (ho : s.owner k = some t)
    (hn : s'.owner k ≠ some t) :
    (∃ ack, e = received ack ∧ State.ended ack s.state = some (k, t)) ∨ cleansUp e := by
  rw [owner_step hs] at hn
  unfold ownerAfter at hn
  split at hn
  · rename_i frame pkid
    split at hn
    · rename_i hk
      subst hk
      exact absurd ho (by rw [(registered_step hs).2.2]; simp)
    · exact absurd ho hn
  · rename_i ack
    split at hn
    · rename_i hfst
      obtain ⟨⟨_, t'⟩, hend, rfl⟩ := Option.map_eq_some_iff.mp hfst
      have ho' : s.owner _ = some t' := (State.ended_eq_some.mp hend).2.1
      rw [ho] at ho'
      cases ho'
      exact .inl ⟨ack, rfl, hend⟩
    · exact absurd ho hn
  · split at hn
    · rename_i hc
      exact .inr hc
    · exact absurd ho hn

theorem cell_cleansUp (hs : step codec options s e = some s') (ho : s.owner k = some t)
    (hlt : t < s.state.tokens.next) (hc : cleansUp e) :
    s'.cell t = (s.cell t).setError .connectionLost := by
  have hr : s.registered t := (registered_iff s).mpr ⟨k, ho⟩
  rw [cell_step hs hlt]
  rcases cleansUp_iff.mp hc with rfl | rfl <;> simp [cellAfter, cleansUp, hr]

/-- A packet in the outgoing channel was there before, or was put there by the
running call, or is a PINGREQ. -/
theorem outgoing_origin (hs : step codec options s e = some s') (ho : o ∈ s'.conn.outgoing) :
    o ∈ s.conn.outgoing ∨
      (∃ frame packet, e = .call (.enqueued frame packet) ∧ o = ⟨packet, some frame.token⟩) ∨
      o = ⟨.pingreq, none⟩ := by
  rw [conn_step hs] at ho
  unfold connAfter at ho
  split at ho
  case h_1 frame packet =>
    rcases List.mem_append.mp ho with h | h
    · exact .inl h
    · exact .inr (.inl ⟨frame, packet, rfl, List.mem_singleton.mp h⟩)
  case h_8 => exact .inl (List.mem_of_mem_tail ho)
  case h_15 =>
    rcases List.mem_append.mp ho with h | h
    · exact .inl h
    · exact .inr (.inr (List.mem_singleton.mp h))
  all_goals first | exact .inl ho | cases ho

theorem writing_origin (hs : step codec options s e = some s')
    (hw : s'.conn.writer = .writingOutgoing o) :
    s.conn.writer = .writingOutgoing o ∨
      e = .writer (.outgoingTaken o) ∧ s.conn.outgoing.head? = some o := by
  rw [conn_step hs] at hw
  unfold connAfter at hw
  split at hw
  case h_8 outgoing =>
    cases hw
    simp only [step, stepWriter, when_eq_some] at hs
    exact .inr ⟨rfl, hs.1.2⟩
  all_goals first | exact .inl hw | cases hw

/-- A connection that is not torn down was not before, or has just been made. -/
theorem finished_origin (hs : step codec options s e = some s')
    (hu : s'.conn.supervisor ≠ .finished) :
    s.conn.supervisor ≠ .finished ∨ ∃ caller t sp, e = .connect (.accepted caller t sp) := by
  rw [conn_step hs] at hu
  cases e with
  | connect e =>
    cases e with
    | accepted caller t sp => exact .inr ⟨caller, t, sp, rfl⟩
    | _ => exact .inl hu
  | supervisor e =>
    left
    cases e <;> simp only [step, stepSupervisor, when_eq_some] at hs <;> simp_all
  | block e | runtime e => exact .inl hu
  | _ e => cases e <;> exact .inl hu

-- ---------------------------------------------------------------------------
-- The registry
-- ---------------------------------------------------------------------------

/-- What a call has done by the time it is in a phase. -/
def PhaseOk (codec : Codec) (s : System) (frame : Frame) : Phase → Prop
  | .registering => frame.call.takesId ∧ ∀ k, s.owner k ≠ some frame.token
  | .building pkid _ => pkid.isSome = frame.call.takesId
  | .sending packet =>
    ∃ pkid, pkid.isSome = frame.call.takesId ∧ frame.call.packet codec pkid = some packet
  | .sent => True

structure Registry (codec : Codec) (s : System) : Prop where
  client_lt : s.client.token = some t → t < s.state.tokens.next
  owner_lt : s.owner k = some t → t < s.state.tokens.next
  queued_lt : o ∈ s.conn.outgoing → o.token = some t → t < s.state.tokens.next
  writing_lt : s.conn.writer = .writingOutgoing o → o.token = some t → t < s.state.tokens.next
  owner_ne_zero : s.owner k = some t → k ≠ 0
  owner_inj : s.owner k = some t → s.owner j = some t → k = j
  owner_numbered : s.owner k = some t → (s.cell t).kind.numbered
  call_kind : s.client = .call frame phase → (s.cell frame.token).kind = frame.call.newToken.kind
  connect_kind : s.client = .connect caller t phase' → (s.cell t).kind = .connect
  phase_ok : s.client = .call frame phase → PhaseOk codec s frame phase

theorem registry_init : Registry codec init where
  client_lt h := by simp [init, ClientTask.token] at h
  owner_lt h := by simp [init, owner, State.owner, State.new] at h
  queued_lt h := by simp [init, Connection.none] at h
  writing_lt h := by simp [init, Connection.none] at h
  owner_ne_zero h := by simp [init, owner, State.owner, State.new] at h
  owner_inj h := by simp [init, owner, State.owner, State.new] at h
  owner_numbered h := by simp [init, owner, State.owner, State.new] at h
  call_kind h := by simp [init] at h
  connect_kind h := by simp [init] at h
  phase_ok h := by simp [init] at h

theorem Registry.frame_lt (hg : Registry codec s) (hc : s.client = .call frame phase) :
    frame.token < s.state.tokens.next :=
  hg.client_lt (by rw [hc]; rfl)

theorem lt_next_step (hs : step codec options s e = some s') (ht : t < s.state.tokens.next) :
    t < s'.state.tokens.next :=
  Nat.lt_of_lt_of_le ht (next_le_step hs)

/-- A call that is in progress goes on, sends, returns, or fails its token. -/
theorem call_next (hlt : frame.token < s.state.tokens.next)
    (hs : step codec options s e = some s') (hc : s.client = .call frame phase) :
    (∃ phase', s'.client = .call frame phase' ∧ (phase' = .sent → phase = .sent)) ∨
      (∃ packet, e = .call (.enqueued frame packet) ∧ s'.client = .call frame .sent) ∨
      (e = .call (.returned frame) ∧ phase = .sent) ∨
      ∃ err, s'.cell frame.token = (s.cell frame.token).setError err := by
  have hcell := cell_step hs hlt
  cases e with
  | call e =>
    cases e with
    | accepted job call | refused job call =>
      simp only [step, stepCall, when_eq_some] at hs
      rcases ClientTask.calls_cases hs.1.1 with ⟨h, _⟩ | ⟨_, _, _, h, _⟩ <;>
        cases hc.symm.trans h
    | registered frame' pkid | topicAdded frame' pkid topic rest | built frame' pkid packet =>
      simp only [step, stepCall, when_eq_some] at hs
      obtain ⟨⟨h0, _⟩, rfl⟩ := hs
      cases hc.symm.trans h0
      exact .inl ⟨_, rfl, by simp⟩
    | enqueued frame' packet =>
      simp only [step, stepCall, when_eq_some] at hs
      obtain ⟨⟨h0, _⟩, rfl⟩ := hs
      cases hc.symm.trans h0
      exact .inr (.inl ⟨packet, rfl, rfl⟩)
    | returned frame' =>
      simp only [step, stepCall, when_eq_some] at hs
      cases hc.symm.trans hs.1
      exact .inr (.inr (.inl ⟨rfl, rfl⟩))
    | exhausted frame' | invalid frame' pkid topics | sendFailed frame' packet =>
      simp only [step, stepCall, when_eq_some] at hs
      cases hc.symm.trans hs.1.1
      rw [hcell]
      exact .inr (.inr (.inr ⟨_, by simp [cellAfter, cleansUp, touched]; rfl⟩))
  | connect e | block e => exact absurd hc (not_in_call hs (by simp))
  | _ e => exact .inl ⟨phase, (client_step hs rfl).trans hc, id⟩

theorem Registry.phase_step (hg : Registry codec s) (hs : step codec options s e = some s')
    (hc : s'.client = .call frame phase) : PhaseOk codec s' frame phase := by
  -- a token that is not registered becomes so only by its own call
  have hfree (hne : ∀ k, s.owner k ≠ some frame.token)
      (he : ∀ frame k, e ≠ .call (.registered frame k)) : ∀ k, s'.owner k ≠ some frame.token := by
    intro k ho
    rcases owner_origin hs ho with h | ⟨frame', rfl, _⟩
    · exact hne k h
    · exact he _ _ rfl
  cases call_cases hs hc with
  | other he h0 =>
    have hok := hg.phase_ok h0
    cases phase with
    | registering =>
      refine ⟨hok.1, hfree hok.2 ?_⟩
      rintro _ _ rfl
      cases he
    | building pkid topics => exact hok
    | sending packet => exact hok
    | sent => trivial
  | accepted job call he _ hf =>
    subst he hf
    unfold Call.begin
    split
    · rename_i hid
      exact ⟨hid, hfree (fun k ho => Nat.lt_irrefl _ (hg.owner_lt ho)) (by simp)⟩
    · rename_i hid
      simp [PhaseOk, hid]
  | registered pkid he h0 => exact (hg.phase_ok h0).1.symm
  | topicAdded pkid topic rest he h0 => exact hg.phase_ok h0
  | built pkid packet he h0 hp => exact ⟨pkid, hg.phase_ok h0, hp⟩
  | enqueued | sendFailed => trivial

theorem registry_step (hg : Registry codec s) (hs : step codec options s e = some s') :
    Registry codec s' where
  client_lt ht := by
    rcases token_origin hs ht with h | ⟨hcr, rfl⟩
    · exact lt_next_step hs (hg.client_lt h)
    · rw [next_step hs, if_pos hcr]
      exact Nat.lt_succ_self _
  owner_lt ho := by
    rcases owner_origin hs ho with h | ⟨frame, rfl, rfl⟩
    · exact lt_next_step hs (hg.owner_lt h)
    · exact lt_next_step hs (hg.frame_lt (registered_step hs).1)
  queued_lt ho ht := by
    rcases outgoing_origin hs ho with h | ⟨frame, packet, rfl, rfl⟩ | rfl
    · exact lt_next_step hs (hg.queued_lt h ht)
    · simp only [step, stepCall, when_eq_some] at hs
      obtain ⟨⟨hc, _⟩, rfl⟩ := hs
      cases ht
      exact hg.frame_lt hc
    · cases ht
  writing_lt hw ht := by
    rcases writing_origin hs hw with h | ⟨rfl, h⟩
    · exact lt_next_step hs (hg.writing_lt h ht)
    · exact lt_next_step hs (hg.queued_lt (List.mem_of_mem_head? h) ht)
  owner_ne_zero ho := by
    rcases owner_origin hs ho with h | ⟨frame, rfl, rfl⟩
    · exact hg.owner_ne_zero h
    · exact (registered_step hs).2.1
  owner_inj ho ho' := by
    rcases owner_origin hs ho with h | ⟨frame, rfl, rfl⟩
    · rcases owner_origin hs ho' with h' | ⟨frame, rfl, rfl⟩
      · exact hg.owner_inj h h'
      · exact absurd h ((hg.phase_ok (registered_step hs).1).2 _)
    · rcases owner_origin hs ho' with h' | ⟨frame', he, _⟩
      · exact absurd h' ((hg.phase_ok (registered_step hs).1).2 _)
      · cases he
        rfl
  owner_numbered ho := by
    rcases owner_origin hs ho with h | ⟨frame, rfl, rfl⟩
    · rw [kind_step hs (hg.owner_lt h)]
      exact hg.owner_numbered h
    · have hc := (registered_step hs).1
      rw [kind_step hs (hg.frame_lt hc), hg.call_kind hc, ← Call.takesId_eq]
      exact (hg.phase_ok hc).1
  call_kind hc := by
    rcases call_origin hs hc with ⟨phase', h⟩ | ⟨job, call, rfl, rfl⟩
    · rw [kind_step hs (hg.frame_lt h), hg.call_kind h]
    · rw [cell_created hs rfl]
  connect_kind hc := by
    rcases connect_origin hs hc with ⟨phase', h⟩ | ⟨rfl, rfl⟩
    · rw [kind_step hs (hg.client_lt (by rw [h]; rfl)), hg.connect_kind h]
    · rw [cell_created hs rfl]
      rfl
  phase_ok hc := hg.phase_step hs hc

theorem registry (hr : Run codec options guard h s) : Registry codec s :=
  hr.invariant (P := fun _ s => Registry codec s) registry_init fun _ hg _ hs => registry_step hg hs

/-- `block` awaits a token without an error after its `connect` was accepted
only: it calls `connect` when the status is `Disconnected`. -/
theorem awaitConnect_origin (hl : Lifecycle options s) (hreg : Registry codec s)
    (hs : step codec options s e = some s') (hc : s'.client = .awaitConnect cnt t)
    (hn : (s'.cell t).error = none) :
    (s.client = .awaitConnect cnt t ∧ (s.cell t).error = none ∧ ofClient e = false) ∨
      ∃ sp, e = .connect (.returned (some cnt) t sp) ∧
        s.client = .connect (some cnt) t (.connected sp) := by
  cases client_cases hs with
  | other he h0 =>
    have hc₀ : s.client = .awaitConnect cnt t := h0.symm.trans hc
    exact .inl ⟨hc₀, error_step hs (hreg.client_lt (by rw [hc₀]; rfl)) hn, he⟩
  | answered caller he hcon hc' =>
    obtain ⟨rfl, _⟩ := ClientTask.connectReturned_eq (hc'.symm.trans hc)
    have hre := (hl.reconnecting (of_decide_eq_true hcon)).1
    rcases he with rfl | rfl <;> simp only [step, stepConnect, when_eq_some] at hs <;>
      cases hre.symm.trans hs.1.2.2
  | connectReturned caller u phase he h0 hc' =>
    obtain ⟨rfl, rfl⟩ := ClientTask.connectReturned_eq (hc'.symm.trans hc)
    rw [cell_step hs (hreg.client_lt (by rw [h0]; rfl))] at hn
    rcases he with ⟨err, rfl⟩ | ⟨item, rfl⟩ | ⟨sp, rfl⟩
    · simp [cellAfter, touched, cleansUp] at hn
    · simp only [step, stepConnect, when_eq_some] at hs
      obtain ⟨token, htok⟩ := Option.isSome_iff_exists.mp hs.1.2.2
      obtain ⟨_, _, herr⟩ := refuse_cases (e := .connect (.refused (some cnt) u item)) htok
      simp only [cellAfter, touched, cleansUp, Bool.false_and, Bool.false_eq_true, ↓reduceIte,
        htok, Option.getD_some] at hn
      simp [hn] at herr
    · simp only [step, stepConnect, when_eq_some] at hs
      exact .inr ⟨sp, rfl, hs.1⟩
  | refused _ _ _ _ hc' | callReturned _ _ _ _ hc' =>
    rcases ClientTask.returned_cases _ with h | ⟨_, h⟩ <;> cases h.symm.trans (hc'.symm.trans hc)
  | reconnected _ _ _ _ _ hc' => rcases hc' with ⟨_, hc'⟩ | hc' <;> cases hc'.symm.trans hc
  | _ =>
    rename_i hc'
    cases hc'.symm.trans hc

theorem completeWritten_numbered {token : InnerToken} (hk : token.kind.numbered) :
    completeWritten token = token := by
  unfold completeWritten
  split <;> simp_all [TokenKind.numbered]

/-- A token of a kind that is registered completes without an error only by an
acknowledgement that finds it. -/
theorem Registry.completes_numbered (hg : Registry codec s)
    (hs : step codec options s e = some s') (hlt : t < s.state.tokens.next)
    (hkind : (s.cell t).kind.numbered) (hn : ¬ (s.cell t).complete) (hc : (s'.cell t).complete)
    (he : (s'.cell t).error = none) :
    ∃ ack k, e = received ack ∧ State.ended ack s.state = some (k, t) := by
  rcases cell_cases hs hlt with ⟨ack, k, rfl, hend, _⟩ | ⟨_, _, h⟩ | ⟨f, hf, h⟩ | h
  · exact ⟨ack, k, rfl, hend⟩
  · rw [h] at he
    cases he
  · rw [h] at hc he
    rcases touched_completes hf hn hc he with ⟨o, _, _, rfl⟩ | ⟨caller, sp, rfl⟩
    · rw [completeWritten_numbered hkind] at hc
      exact absurd hc hn
    · simp only [step, stepConnect, when_eq_some] at hs
      rw [hg.connect_kind hs.1] at hkind
      cases hkind
  · rw [h] at hc
    exact absurd hc hn

/-- A registered token does so by an acknowledgement of its identifier. -/
theorem Registry.completes (hg : Registry codec s) (hs : step codec options s e = some s')
    (ho : s.owner k = some t) (hn : ¬ (s.cell t).complete) (hc : (s'.cell t).complete)
    (he : (s'.cell t).error = none) :
    ∃ ack, e = received ack ∧ State.ended ack s.state = some (k, t) := by
  obtain ⟨ack, k', rfl, hend⟩ :=
    hg.completes_numbered hs (hg.owner_lt ho) (hg.owner_numbered ho) hn hc he
  cases hg.owner_inj ho (State.ended_eq_some.mp hend).2.1
  exact ⟨ack, rfl, hend⟩

end System

end MesquitteClient
