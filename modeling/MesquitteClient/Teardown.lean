import MesquitteClient.Registry

/-!
# Teardown

Where the token of a call is while it is not complete: in the identifier
table, or with the write loop, if its packet is one that no acknowledgement
completes. `clean_up` fails the former. The latter are lost with the queue when
the write loop exits (`hanging_publish`); if there are none then, the teardown
of a connection leaves no token of its calls incomplete
(`completed_of_tornDown`).
-/

namespace MesquitteClient

/-- The kinds of token that the write loop completes. -/
def TokenKind.unacknowledged : TokenKind → Bool
  | .publish .level0 | .disconnect => true
  | _ => false

/-- A call's token is completed by an acknowledgement or by the write loop. -/
theorem Call.kind_cases (call : Call) :
    call.newToken.kind.numbered ∨ call.newToken.kind.unacknowledged := by
  cases call with
  | publish topic qos retained payload => cases qos <;> simp [newToken, InnerToken.publish,
      InnerToken.setQos, InnerToken.kind, TokenData.kind, TokenKind.numbered,
      TokenKind.unacknowledged]
  | _ => simp [newToken, InnerToken.subscribe, InnerToken.unsubscribe, InnerToken.disconnect,
      InnerToken.kind, TokenData.kind, TokenKind.numbered, TokenKind.unacknowledged]

namespace System

variable {codec : Codec} {options : ClientOptions} {s s' : System} {e : Event}
variable {guard : Lts.Guard System Event} {h : Lts.History System Event}

theorem completeWritten_complete {token : InnerToken} (hk : token.kind.unacknowledged) :
    (completeWritten token).complete := by
  unfold completeWritten
  split <;> simp_all [TokenKind.unacknowledged]

/-- The write loop has the token, with a packet that no acknowledgement
completes. -/
def Writable (s : System) (t : TokenId) : Prop :=
  (s.cell t).kind.unacknowledged ∧ ∃ o, o.token = some t ∧
    (o ∈ s.conn.outgoing ∨ s.conn.writer = .writingOutgoing o)

/-- The token is complete, or there is something that will complete it. -/
def Covered (s : System) (t : TokenId) : Prop :=
  (s.cell t).complete ∨ s.registered t ∨ s.Writable t

/-- Nothing the write loop was to complete is queued when it exits. -/
def exitsDrained : Lts.Guard System Event := fun _ s e =>
  match e with
  | .writer (.msgFailed _) | .writer (.outgoingFailed ..) | .writer .msgClosed =>
    s.conn.outgoing.all fun o => o.token.all fun t => !(s.cell t).kind.unacknowledged
  | _ => true

-- ---------------------------------------------------------------------------
-- A covered token stays covered
-- ---------------------------------------------------------------------------

theorem registered_kept (hreg : Registry codec s) (hs : step codec options s e = some s')
    (hr : s.registered t) : (s'.cell t).complete ∨ s'.registered t := by
  obtain ⟨k, ho⟩ := (registered_iff s).mp hr
  have hlt := hreg.owner_lt ho
  by_cases hkept : s'.owner k = some t
  · exact .inr ((registered_iff s').mpr ⟨k, hkept⟩)
  · left
    rcases owner_lost hs ho hkept with ⟨ack, rfl, hend⟩ | hclean
    · rw [cell_step hs hlt, cellAfter, hend, Option.map_some, if_pos rfl]
      rfl
    · rw [cell_cleansUp hs ho hlt hclean]
      rfl

/-- A queued packet stays queued, or is being written, or the write loop has
exited. -/
theorem queued_kept (hl : Lifecycle options s) (hs : step codec options s e = some s')
    (ho : o ∈ s.conn.outgoing) :
    o ∈ s'.conn.outgoing ∨ s'.conn.writer = .writingOutgoing o ∨
      ∀ {h}, exitsDrained h s e → ∀ t, o.token = some t → ¬ (s.cell t).kind.unacknowledged := by
  have hexit (hg : s.conn.outgoing.all fun o =>
      o.token.all fun t => !(s.cell t).kind.unacknowledged) (t : TokenId)
      (ht : o.token = some t) : ¬ (s.cell t).kind.unacknowledged := by
    simpa [ht] using List.all_eq_true.mp hg o ho
  rw [conn_step hs]
  cases e with
  | call e =>
    cases e with
    | enqueued frame packet => exact .inl (List.mem_append_left _ ho)
    | _ => exact .inl ho
  | connect e =>
    cases e with
    | accepted caller t sp =>
      -- the connection before it is drained
      simp only [step, stepConnect, when_eq_some] at hs
      have hf := (hl.handshaking (by rw [hs.1]; rfl)).2
      rw [(hl.drained (hl.ended (by rw [hf]; simp)).2).1] at ho
      cases ho
    | _ => exact .inl ho
  | writer e =>
    cases e with
    | outgoingTaken o' =>
      simp only [step, stepWriter, when_eq_some] at hs
      cases hq : s.conn.outgoing with
      | nil => simp [hq] at hs
      | cons head rest =>
        simp only [hq, List.head?_cons, Option.some.injEq] at hs
        rw [hq] at ho
        rcases List.mem_cons.mp ho with rfl | ho
        · exact .inr (.inl (by rw [connAfter, hs.1.2]))
        · exact .inl (by simpa [connAfter, hq] using ho)
    | msgFailed packet | outgoingFailed o' err | msgClosed =>
      exact .inr (.inr fun hg => hexit hg)
    | _ => exact .inl ho
  | keepAlive e =>
    cases e with
    | pinged => exact .inl (List.mem_append_left _ ho)
    | _ => exact .inl ho
  | reader e | supervisor e => cases e <;> exact .inl ho
  | block e | runtime e => exact .inl ho

/-- A packet being written is being written still, or its token is complete, if
it is one that the write loop completes. -/
theorem writing_kept (hl : Lifecycle options s) (hreg : Registry codec s)
    (hs : step codec options s e = some s') (hw : s.conn.writer = .writingOutgoing o)
    (ht : o.token = some t) (hk : (s.cell t).kind.unacknowledged) :
    s'.conn.writer = .writingOutgoing o ∨ (s'.cell t).complete := by
  have hlt := hreg.writing_lt hw ht
  rw [conn_step hs]
  cases e with
  | connect e =>
    cases e with
    | accepted caller t sp =>
      simp only [step, stepConnect, when_eq_some] at hs
      have hf := (hl.handshaking (by rw [hs.1]; rfl)).2
      rw [(hl.ended (by rw [hf]; simp)).2] at hw
      cases hw
    | _ => exact .inl hw
  | writer e =>
    cases e with
    | outgoingWritten o' | outgoingFailed o' err =>
      have hs₀ := hs
      simp only [step, stepWriter, when_eq_some, hw, Writer.writingOutgoing.injEq] at hs
      obtain ⟨rfl, _⟩ := hs
      right
      rw [cell_step hs₀ hlt]
      simp [cellAfter, cleansUp, touched, ht, completeWritten_complete hk]
    | msgTaken | outgoingTaken | msgWritten | msgFailed | msgClosed =>
      simp [step, stepWriter, hw] at hs
  | reader e | call e | keepAlive e | supervisor e => cases e <;> exact .inl hw
  | block e | runtime e => exact .inl hw

theorem Covered.step (hc : Covered s t) (hl : Lifecycle options s) (hreg : Registry codec s)
    (hg : exitsDrained h s e) (hs : step codec options s e = some s')
    (hlt : t < s.state.tokens.next) : Covered s' t := by
  rcases hc with hc | hr | ⟨hk, o, ht, hw⟩
  · exact .inl (complete_step hs hlt hc)
  · rcases registered_kept hreg hs hr with h | h
    · exact .inl h
    · exact .inr (.inl h)
  · have hk' : (s'.cell t).kind.unacknowledged := by rwa [kind_step hs hlt]
    rcases hw with ho | hw
    · rcases queued_kept hl hs ho with ho' | hw' | hexit
      · exact .inr (.inr ⟨hk', o, ht, .inl ho'⟩)
      · exact .inr (.inr ⟨hk', o, ht, .inr hw'⟩)
      · exact absurd hk (hexit hg t ht)
    · rcases writing_kept hl hreg hs hw ht hk with hw' | hc
      · exact .inr (.inr ⟨hk', o, ht, .inr hw'⟩)
      · exact .inl hc

-- ---------------------------------------------------------------------------
-- The tokens that calls have returned
-- ---------------------------------------------------------------------------

/-- The token that an event returns from a call. -/
def returns (s : System) : Event → Option TokenId
  | .call (.refused ..) => some s.state.tokens.next
  | .call (.exhausted frame) => some frame.token
  | .call (.invalid frame _ _) => some frame.token
  | .call (.returned frame) => some frame.token
  | _ => none

/-- The tokens that calls have returned. -/
def returnedTokens : Lts.History System Event → List TokenId
  | [] => []
  | (s, e) :: h => (returns s e).toList ++ returnedTokens h

/-- Of these, the tokens returned since the last connection was accepted. -/
def currentTokens : Lts.History System Event → List TokenId
  | [] => []
  | (_, .connect (.accepted ..)) :: _ => []
  | (s, e) :: h => (returns s e).toList ++ currentTokens h

/-- What is known of the token of the running call. -/
def PhaseCovered (s : System) (t : TokenId) : Phase → Prop
  | .registering => True
  | .building .. | .sending _ => (s.cell t).kind.numbered → (s.cell t).complete ∨ s.registered t
  | .sent => Covered s t

structure Settling (h : Lts.History System Event) (s : System) : Prop where
  issued : t ∈ returnedTokens h →
    t < s.state.tokens.next ∧ ∀ frame phase, s.client = .call frame phase → frame.token ≠ t
  returned : t ∈ returnedTokens h → Covered s t
  calling : s.client = .call frame phase → PhaseCovered s frame.token phase
  /-- what is registered after a teardown belongs to the running call, which has
  not sent yet -/
  finished : s.conn.supervisor = .finished → s.registered t → (s.cell t).complete ∨
    ∃ frame phase, s.client = .call frame phase ∧ frame.token = t ∧ phase ≠ .sent
  past : t ∈ returnedTokens h → t ∉ currentTokens h → (s.cell t).complete

theorem settling_init : Settling [] init where
  issued h := by simp [returnedTokens] at h
  returned h := by simp [returnedTokens] at h
  calling h := by simp [init] at h
  finished _ h := by simp [init, registered, PacketIds.registered, State.new, PacketIds.new] at h
  past h := by simp [returnedTokens] at h

/-- A token returned on a connection that is torn down is complete. -/
theorem Settling.complete (hst : Settling h s) (hl : Lifecycle options s)
    (hf : s.conn.supervisor = .finished) (ht : t ∈ returnedTokens h) : (s.cell t).complete := by
  have hended := hl.ended (by rw [hf]; simp)
  rcases hst.returned ht with hc | hr | ⟨_, o, _, ho | hw⟩
  · exact hc
  · rcases hst.finished hf hr with hc | ⟨frame, phase, hcall, hne, _⟩
    · exact hc
    · exact absurd hne ((hst.issued ht).2 frame phase hcall)
  · rw [(hl.drained hended.2).1] at ho
    cases ho
  · rw [hended.2] at hw
    cases hw

theorem complete_touched (hs : step codec options s e = some s') (hlt : t < s.state.tokens.next)
    (ht : touched e = some (t, (·.setError err))) (hc : ∀ packet, e ≠ received packet)
    (hclean : cleansUp e = false) : (s'.cell t).complete := by
  have hcell : cellAfter s t e = (s.cell t).setError err := by
    unfold cellAfter
    split
    · exact absurd rfl (hc _)
    · simp [hclean, ht]
  rw [cell_step hs hlt, hcell]
  rfl

theorem Settling.returns_step (hst : Settling h s) (hl : Lifecycle options s)
    (hreg : Registry codec s) (hg : exitsDrained h s e) (hs : step codec options s e = some s')
    (hr : returns s e = some t) :
    t < s'.state.tokens.next ∧ (∀ frame phase, s'.client ≠ .call frame phase) ∧ Covered s' t := by
  have hs₀ := hs
  cases e with
  | call e =>
    cases e with
    | refused job call =>
      cases hr
      refine ⟨?_, ?_, .inl ?_⟩
      · rw [next_step hs]
        exact Nat.lt_succ_self _
      · simp only [step, stepCall, when_eq_some] at hs
        obtain ⟨_, rfl⟩ := hs
        exact fun _ _ => ClientTask.returned_ne_call
      · rw [cell_created hs rfl]
        rfl
    | exhausted frame | invalid frame pkid topics =>
      cases hr
      simp only [step, stepCall, when_eq_some] at hs
      obtain ⟨⟨hc, _⟩, rfl⟩ := hs
      have hlt := hreg.frame_lt hc
      exact ⟨lt_next_step hs₀ hlt, fun _ _ => ClientTask.returned_ne_call,
        .inl (complete_touched hs₀ hlt rfl (by simp) rfl)⟩
    | returned frame =>
      cases hr
      simp only [step, stepCall, when_eq_some] at hs
      obtain ⟨hc, rfl⟩ := hs
      have hlt := hreg.frame_lt hc
      exact ⟨lt_next_step hs₀ hlt, fun _ _ => ClientTask.returned_ne_call,
        Covered.step (hst.calling hc) hl hreg hg hs₀ hlt⟩
    | _ => cases hr
  | _ e => cases hr

theorem Settling.issued_step (hst : Settling h s) (hl : Lifecycle options s)
    (hreg : Registry codec s) (hg : exitsDrained h s e) (hs : step codec options s e = some s')
    (ht : t ∈ returnedTokens ((s, e) :: h)) :
    t < s'.state.tokens.next ∧ ∀ frame phase, s'.client = .call frame phase → frame.token ≠ t := by
  rcases List.mem_append.mp ht with hr | ht
  · obtain ⟨hlt, hne, _⟩ := hst.returns_step hl hreg hg hs (Option.mem_toList.mp hr)
    exact ⟨hlt, fun frame phase hc => absurd hc (hne frame phase)⟩
  · obtain ⟨hlt, hne⟩ := hst.issued ht
    refine ⟨lt_next_step hs hlt, fun frame phase hc => ?_⟩
    rcases call_origin hs hc with ⟨phase', h0⟩ | ⟨job, call, _, rfl⟩
    · exact hne frame phase' h0
    · exact (Nat.ne_of_lt hlt).symm

theorem Settling.calling_step (hst : Settling h s) (hl : Lifecycle options s)
    (hreg : Registry codec s) (hg : exitsDrained h s e) (hs : step codec options s e = some s')
    (hc : s'.client = .call frame phase) : PhaseCovered s' frame.token phase := by
  -- a token that is registered before the send is, or is complete
  have hold (hlt : frame.token < s.state.tokens.next)
      (h0 : (s.cell frame.token).kind.numbered →
        (s.cell frame.token).complete ∨ s.registered frame.token)
      (hk : (s'.cell frame.token).kind.numbered) :
      (s'.cell frame.token).complete ∨ s'.registered frame.token := by
    rw [kind_step hs hlt] at hk
    rcases h0 hk with h | h
    · exact .inl (complete_step hs hlt h)
    · exact registered_kept hreg hs h
  cases call_cases hs hc with
  | other he h0 =>
    cases phase with
    | registering => trivial
    | building pkid topics => exact hold (hreg.frame_lt h0) (hst.calling h0)
    | sending packet => exact hold (hreg.frame_lt h0) (hst.calling h0)
    | sent => exact Covered.step (hst.calling h0) hl hreg hg hs (hreg.frame_lt h0)
  | accepted job call he _ hf =>
    subst he hf
    unfold Call.begin
    split
    · trivial
    · rename_i hid
      intro hk
      rw [cell_created hs rfl, ← Call.takesId_eq] at hk
      exact absurd hk hid
  | registered pkid he h0 =>
    subst he
    intro _
    right
    rw [registered_iff]
    exact ⟨pkid, (owner_step hs).trans (if_pos rfl)⟩
  | topicAdded pkid topic rest he h0 => exact hold (hreg.frame_lt h0) (hst.calling h0)
  | built pkid packet he h0 _ => exact hold (hreg.frame_lt h0) (hst.calling h0)
  | enqueued packet he h0 =>
    subst he
    have hlt := hreg.frame_lt h0
    have hkind := hreg.call_kind h0
    rcases frame.call.kind_cases with hk | hk
    · rcases hold hlt (hst.calling h0) (by rwa [kind_step hs hlt, hkind]) with h | h
      · exact .inl h
      · exact .inr (.inl h)
    · refine .inr (.inr ⟨by rwa [kind_step hs hlt, hkind], ⟨packet, some frame.token⟩, rfl,
        .inl ?_⟩)
      rw [conn_step hs]
      exact List.mem_append_right _ (List.mem_singleton_self _)
  | sendFailed packet he h0 =>
    subst he
    exact .inl (complete_touched hs (hreg.frame_lt h0) rfl (by simp) rfl)

/-- A call that has not sent yet sends next, or goes on, or completes its
token. -/
theorem unsent_step (hreg : Registry codec s) (hs : step codec options s e = some s')
    (hc : s.client = .call frame phase) (hp : phase ≠ .sent) :
    (∃ phase', s'.client = .call frame phase' ∧ phase' ≠ .sent) ∨ (s'.cell frame.token).complete ∨
      ∃ packet, e = .call (.enqueued frame packet) := by
  rcases call_next (hreg.frame_lt hc) hs hc with ⟨phase', hc', hsent⟩ | ⟨packet, he, _⟩ | ⟨_, h⟩ |
    ⟨_, herr⟩
  · exact .inl ⟨phase', hc', fun h => hp (hsent h)⟩
  · exact .inr (.inr ⟨packet, he⟩)
  · exact absurd h hp
  · rw [herr]
    exact .inr (.inl rfl)

theorem Settling.finished_step (hst : Settling h s) (hl : Lifecycle options s)
    (hreg : Registry codec s) (hs : step codec options s e = some s')
    (hf : s'.conn.supervisor = .finished) (hr : s'.registered t) : (s'.cell t).complete ∨
      ∃ frame phase, s'.client = .call frame phase ∧ frame.token = t ∧ phase ≠ .sent := by
  obtain ⟨k, ho⟩ := (registered_iff s').mp hr
  rcases owner_origin hs ho with hold | ⟨frame, rfl, rfl⟩
  · have hf₀ : s.conn.supervisor = .finished := by
      rw [conn_step hs] at hf
      rw [owner_step hs] at ho
      unfold connAfter at hf
      split at hf <;> first | exact hf | (cases hf; done) | simp [ownerAfter, cleansUp] at ho
    rcases hst.finished hf₀ ((registered_iff s).mpr ⟨k, hold⟩) with hc | ⟨frame, phase, hc, rfl, hp⟩
    · exact .inl (complete_step hs (hreg.owner_lt hold) hc)
    · rcases unsent_step hreg hs hc hp with ⟨phase', hc', hp'⟩ | hc' | ⟨packet, rfl⟩
      · exact .inr ⟨frame, phase', hc', rfl, hp'⟩
      · exact .inl hc'
      · simp only [step, stepCall, when_eq_some] at hs
        exact absurd (hl.ended (by rw [hf₀]; simp)).2 hs.1.2.1
  · simp only [step, stepCall, when_eq_some] at hs
    obtain ⟨_, rfl⟩ := hs
    exact .inr ⟨frame, _, rfl, rfl, by simp⟩

theorem Settling.past_step (hst : Settling h s) (hl : Lifecycle options s)
    (hs : step codec options s e = some s') (ht : t ∈ returnedTokens ((s, e) :: h))
    (hn : t ∉ currentTokens ((s, e) :: h)) : (s'.cell t).complete := by
  have hold (ht : t ∈ returnedTokens h) (hn : t ∉ currentTokens h) : (s'.cell t).complete :=
    complete_step hs (hst.issued ht).1 (hst.past ht hn)
  unfold currentTokens at hn
  split at hn
  · cases ‹_ :: _ = _›
  · rename_i heq
    cases heq
    -- the connection before the one that is accepted is torn down
    have hf : s.conn.supervisor = .finished := by
      simp only [step, stepConnect, when_eq_some] at hs
      exact (hl.handshaking (by rw [hs.1]; rfl)).2
    exact complete_step hs (hst.issued ht).1 (hst.complete hl hf ht)
  · rename_i heq
    cases heq
    rw [List.mem_append, not_or] at hn
    rcases List.mem_append.mp ht with hr | ht
    · exact absurd hr hn.1
    · exact hold ht hn.2

theorem settling_step (hst : Settling h s) (hl : Lifecycle options s) (hreg : Registry codec s)
    (hg : exitsDrained h s e) (hs : step codec options s e = some s') :
    Settling ((s, e) :: h) s' where
  issued ht := hst.issued_step hl hreg hg hs ht
  returned ht := by
    rcases List.mem_append.mp ht with hr | ht
    · exact (hst.returns_step hl hreg hg hs (Option.mem_toList.mp hr)).2.2
    · exact (hst.returned ht).step hl hreg hg hs (hst.issued ht).1
  calling hc := hst.calling_step hl hreg hg hs hc
  finished hf hr := hst.finished_step hl hreg hs hf hr
  past ht hn := hst.past_step hl hs ht hn

/-- In every run in which the write loop exits with none of the packets in its
queue that it completes itself: the token a call has returned is complete once
the connection of the call is torn down. -/
theorem completed_of_tornDown (hr : Run codec options exitsDrained h s)
    (ht : t ∈ returnedTokens h)
    (hf : t ∈ currentTokens h → s.conn.supervisor = .finished) : (s.cell t).complete := by
  have hst : Settling h s := hr.invariant settling_init fun hr hst hg hs =>
    settling_step hst (lifecycle hr) (registry hr) hg hs
  by_cases hc : t ∈ currentTokens h
  · exact hst.complete (lifecycle hr) (hf hc) ht
  · exact hst.past ht hc

/-- A publish up to its return; the write loop has not taken its packet. -/
def publishing (qos : QoSWithPacketIdentifier) (token : TokenId) : List Event :=
  let frame : Frame := ⟨none, .publish "a" qos.split.1 false [1], token⟩
  let packet : VariablePacket := .publish { topicName := "a", qos, payload := [1] }
  (match qos.split.2 with
    | some pkid => sending frame pkid packet
    | none => [.call (.accepted none frame.call), .call (.built frame none packet),
        .call (.enqueued frame packet)]) ++
    [.call (.returned frame)]

theorem completed_of_tornDown_publish : ∃ h s, Run acceptingCodec .new exitsDrained h s ∧
    1 ∈ currentTokens h ∧ s.conn.supervisor = .finished ∧ (s.cell 1).complete := by
  obtain ⟨h, s, hr, ht⟩ := Lts.exists_run (step acceptingCodec .new) exitsDrained init
    (connecting none 0 false ++ connected none 0 false ++ publishing (.level1 2) 1 ++ closing)
    (fun h s => 1 ∈ returnedTokens h && 1 ∈ currentTokens h && s.conn.supervisor = .finished)
    (by decide +kernel)
  simp only [Bool.and_eq_true, decide_eq_true_eq] at ht
  obtain ⟨⟨hret, hcur⟩, hf⟩ := ht
  exact ⟨h, s, hr, hcur, hf, completed_of_tornDown hr hret fun _ => hf⟩

/-- The token of a QoS 0 publish hangs when the connection is closed before the
write loop takes its packet. -/
theorem hanging_publish : ¬ ∀ h s t, Run acceptingCodec .new Lts.anything h s →
    t ∈ returnedTokens h → (t ∈ currentTokens h → s.conn.supervisor = .finished) →
    (s.cell t).complete := by
  obtain ⟨h, s, hr, ht⟩ := Lts.exists_run (step acceptingCodec .new) Lts.anything init
    (connecting none 0 false ++ connected none 0 false ++ publishing .level0 1 ++ closing)
    (fun h s => 1 ∈ returnedTokens h && s.conn.supervisor = .finished && !(s.cell 1).complete)
    (by decide +kernel)
  simp only [Bool.and_eq_true, decide_eq_true_eq, Bool.not_eq_true'] at ht
  obtain ⟨⟨hret, hf⟩, hn⟩ := ht
  intro hall
  have := hall h s 1 hr hret fun _ => hf
  rw [hn] at this
  cases this

end System

end MesquitteClient
