import MesquitteClient.Outcomes

/-!
# Attempts to connect

What a call of `connect` makes of the client and of its token. From
`Disconnected` it is an attempt: up to the CONNACK nothing is touched but the
status, and then the next connection's `State` is made out of the last one's.
Called when the client is connected, `connect` returns a token that nobody
completes (`connected_token_pending`). A will that cannot be put in the packet
stops the attempt halfway, by a panic, with the status at `Connecting`
(`will_panics`), and so does a panic of the transport; no other attempt stops
halfway (`attempt_atomic_iff`).
-/

namespace MesquitteClient

def ConnectPhase.acknowledged : ConnectPhase → Bool
  | .spawned _ | .connected _ => true
  | _ => false

namespace System

variable {codec : Codec} {options : ClientOptions} {s s' : System} {e : Event}
variable {guard : Lts.Guard System Event} {h : Lts.History System Event}

def beginsAttempt : Event → Bool
  | .connect (.started _) => true
  | _ => false

/-- The state in which the last attempt began. -/
def begun (h : Lts.History System Event) : Option System := Lts.lastAt beginsAttempt h

/-- What has been done since. -/
def attempt (h : Lts.History System Event) : Lts.History System Event :=
  Lts.since beginsAttempt h

/-- No connection is lost in some steps. -/
def unlost (steps : Lts.History System Event) : Bool :=
  steps.all fun x => x.2 ≠ .supervisor .joined

/-- Only `connect`, the clock and the cache take steps. -/
def undisturbed (steps : Lts.History System Event) : Bool :=
  steps.all fun x =>
    match x.2 with
    | .connect _ | .runtime _ => true
    | _ => false

theorem begun_cons (he : beginsAttempt e = false) : begun ((s, e) :: h) = begun h :=
  Lts.lastAt_of_neg he

theorem attempt_cons (he : beginsAttempt e = false) :
    attempt ((s, e) :: h) = (s, e) :: attempt h :=
  Lts.since_of_neg he

/-- The token of the call of `connect` that an event ends. -/
def connectEnds (s : System) : ConnectEvent → Option TokenId
  | .already _ | .reconnecting _ => some s.state.tokens.next
  | .transportFailed _ token _ | .refused _ token _ | .returned _ token _ => some token
  | _ => none

-- ---------------------------------------------------------------------------
-- What an attempt leaves alone
-- ---------------------------------------------------------------------------

def Evicted : TtlMap UInt16 PublishPacket → TtlMap UInt16 PublishPacket → Prop :=
  Relation.ReflTransGen fun m m' => ∃ pkid, m' = m.evict pkid

/-- The parts of the client that a connection works on are the same; the cache
evicts when it likes. -/
structure Kept (s₀ s : System) : Prop where
  packetIds : s.state.packetIds = s₀.state.packetIds
  subscriptions : s.state.subscriptions = s₀.state.subscriptions
  topicManager : s.state.topicManager = s₀.state.topicManager
  pendingPackets : Evicted s₀.state.pendingPackets s.state.pendingPackets
  cell : t < s₀.state.tokens.next → s.cell t = s₀.cell t

/-- Nothing has changed but the status; the old connection's `keep_alive` may
go on, with nothing left to send to. -/
structure Unchanged (s₀ s : System) : Prop extends Kept s₀ s where
  lastSentPacketAt : s.state.lastSentPacketAt = s₀.state.lastSentPacketAt
  manualDisconnect : s.manualDisconnect = s₀.manualDisconnect
  notify : s.notify = s₀.notify
  conn : s.conn = { s₀.conn with keepAlive := s.conn.keepAlive }

/-- The new `State`, with a new outgoing channel. -/
structure Renewed (s₀ s : System) : Prop extends Kept s₀ s where
  conn : s.conn = {}

theorem Kept.refl (s : System) : Kept s s := ⟨rfl, rfl, rfl, .refl, fun _ => rfl⟩

theorem Unchanged.refl (s : System) : Unchanged s s := ⟨.refl s, rfl, rfl, rfl, rfl⟩

/-- The token of the attempt is none of those that were there. -/
theorem Kept.modifyToken (hk : Kept s₀ s) (ht : s₀.state.tokens.next ≤ t) :
    Kept s₀ (s.modifyToken t f) where
  packetIds := hk.packetIds
  subscriptions := hk.subscriptions
  topicManager := hk.topicManager
  pendingPackets := hk.pendingPackets
  cell {u} hu := by
    have hne : u ≠ t := Nat.ne_of_lt (Nat.lt_of_lt_of_le hu ht)
    exact (s.state.cell_modifyToken.trans (if_neg hne)).trans (hk.cell hu)

/-- During `connect` the client task does nothing else. -/
theorem only_connect (hs : step codec options s e = some s')
    (hc : s.client = .connect caller t phase) :
    ofClient e = false ∨ ∃ e', e = .connect e' ∧ beginsAttempt e = false := by
  cases client_cases hs with
  | other he _ => exact .inl he
  | opened _ _ he _ _ | acknowledged _ _ _ he _ _ | statusSet _ _ _ he _ _ =>
    subst he
    exact .inr ⟨_, rfl, rfl⟩
  | panicked _ _ he _ _ => rcases he with rfl | rfl <;> exact .inr ⟨_, rfl, rfl⟩
  | connectReturned _ _ _ he _ _ =>
    rcases he with ⟨_, rfl⟩ | ⟨_, rfl⟩ | ⟨_, rfl⟩ <;> exact .inr ⟨_, rfl, rfl⟩
  | accepted _ _ _ hcalls _ | refused _ _ _ hcalls _ =>
    rcases ClientTask.calls_cases hcalls with ⟨h0, _⟩ | ⟨_, _, _, h0, _⟩ <;>
      cases hc.symm.trans h0
  | started _ _ hcon _ | answered _ _ hcon _ =>
    rcases ClientTask.connects_cases hcon with ⟨h0, _⟩ | ⟨_, h0, _⟩ <;> cases hc.symm.trans h0
  | reconnectFailed _ _ _ h0 _ _ | reconnected _ _ _ h0 _ _ | notified _ _ h0 _ _
  | awaited _ _ _ h0 _ _ => cases hc.symm.trans h0
  | _ =>
    rename_i h0 _
    cases hc.symm.trans h0

/-- A step of `connect` up to the CONNACK. -/
theorem Unchanged.connect {e : ConnectEvent} (hu : Unchanged s₀ s)
    (hc : s.client = .connect caller t phase) (ht : s₀.state.tokens.next ≤ t)
    (hs : step codec options s (.connect e) = some s')
    (hp : phase = .transport ∨ phase = .handshake) :
    Unchanged s₀ s' ∨ ∃ sp, e = .accepted caller t sp := by
  cases e with
  | started caller' | already caller' | reconnecting caller' =>
    simp only [step, stepConnect, when_eq_some] at hs
    rcases ClientTask.connects_cases hs.1.1 with ⟨h0, _⟩ | ⟨_, h0, _⟩ <;> cases hc.symm.trans h0
  | accepted caller' t' sp =>
    simp only [step, stepConnect, when_eq_some] at hs
    cases hc.symm.trans hs.1
    exact .inr ⟨sp, rfl⟩
  | statusSet caller' t' sp | returned caller' t' sp =>
    simp only [step, stepConnect, when_eq_some] at hs
    rcases hp with rfl | rfl <;> simp [hc] at hs
  | transportFailed caller' t' err | refused caller' t' item =>
    simp only [step, stepConnect, when_eq_some] at hs
    obtain ⟨⟨h0, _⟩, rfl⟩ := hs
    cases hc.symm.trans h0
    exact .inl { hu.modifyToken ht, hu with }
  | transportPanicked caller' t' | transportOpened caller' t' | panicked caller' t' =>
    simp only [step, stepConnect, when_eq_some] at hs
    obtain ⟨_, rfl⟩ := hs
    exact .inl { hu with }

/-- A step of another task while there is no connection. -/
theorem Unchanged.task (hu : Unchanged s₀ s) (hr : s.conn.reader = .ended)
    (hw : s.conn.writer = .ended) (hf : s.conn.supervisor = .finished)
    (hs : step codec options s e = some s') (he : ofClient e = false) : Unchanged s₀ s' := by
  cases e with
  | call e | connect e | block e => cases he
  | reader e => cases e <;> simp [step, stepReader, hr] at hs
  | writer e => cases e <;> simp [step, stepWriter, hw] at hs
  | supervisor e => cases e <;> simp [step, stepSupervisor, hf] at hs
  | keepAlive e =>
    cases e with
    | pinged => simp [step, stepKeepAlive, hw] at hs
    | _ =>
      simp only [step, stepKeepAlive, when_eq_some] at hs
      obtain ⟨_, rfl⟩ := hs
      exact { hu with conn := by rw [hu.conn] }
  | runtime e =>
    cases e with
    | evicted pkid =>
      cases hs
      exact { hu with pendingPackets := hu.pendingPackets.tail ⟨pkid, rfl⟩ }
    | elapsed duration =>
      cases hs
      exact { hu with }
    | handlerRan task =>
      simp only [step, stepRuntime, when_eq_some] at hs
      obtain ⟨_, rfl⟩ := hs
      exact { hu with }

theorem Renewed.runtime {e : RuntimeEvent} (hn : Renewed s₀ s)
    (hs : step codec options s (.runtime e) = some s') : Renewed s₀ s' := by
  cases e with
  | evicted pkid =>
    cases hs
    exact { hn with pendingPackets := hn.pendingPackets.tail ⟨pkid, rfl⟩ }
  | elapsed duration =>
    cases hs
    exact { hn with }
  | handlerRan task =>
    simp only [step, stepRuntime, when_eq_some] at hs
    obtain ⟨_, rfl⟩ := hs
    exact { hn with }

/-- What the server's acceptance makes of the state. -/
theorem Unchanged.renewed (hu : Unchanged s₀ s)
    (hs : step codec options s (.connect (.accepted caller t sp)) = some s') : Renewed s₀ s' := by
  simp only [step, stepConnect, when_eq_some] at hs
  obtain ⟨_, rfl⟩ := hs
  exact { hu with conn := rfl }

-- ---------------------------------------------------------------------------
-- An attempt under way
-- ---------------------------------------------------------------------------

/-- The attempt has got a `State` for the new connection. -/
def MadeState (codec : Codec) (options : ClientOptions) (steps : Lts.History System Event)
    (s₀ : System) : Prop :=
  ∃ s₁ e s₂, (s₁, e) ∈ steps ∧ step codec options s₁ e = some s₂ ∧ Renewed s₀ s₂

/-- The attempt that began in `s₀`. -/
structure Attempting (codec : Codec) (options : ClientOptions) (h : Lts.History System Event)
    (s : System) (t : TokenId) (phase : ConnectPhase) (s₀ : System) : Prop where
  begun : begun h = some s₀
  disconnected : s₀.connectStatus = .disconnected
  next_le : s₀.state.tokens.next ≤ t
  error : (s.cell t).error = none
  built : phase ≠ .transport → (buildConnectPacket codec options).isSome
  unchanged : phase.acknowledged = false → Unchanged s₀ s
  made : phase.acknowledged → MadeState codec options (attempt h) s₀
  undisturbed : phase.acknowledged → undisturbed (attempt h) → Renewed s₀ s
  connected : phase = .connected sp → unlost (attempt h) → s.connectStatus = .connected

/-- The token of `connect` is its own. -/
theorem attempt_error (hreg : Registry codec s) (hh : Holding h s)
    (hs : step codec options s e = some s') (hc : s.client = .connect caller t phase)
    (hc' : s'.client = .connect caller t phase') (hn : (s.cell t).error = none) :
    (s'.cell t).error = none := by
  have hu : s.client.unsent = some t := by rw [hc]; rfl
  have hfree : ¬ s.registered t := hreg.alone_unregistered (by rw [hc]; rfl)
  rcases cell_cases hs (hreg.client_lt (ClientTask.token_of_unsent hu)) with
    ⟨ack, k, _, hend, _⟩ | ⟨_, hr, _⟩ | ⟨f, hf, h⟩ | h
  · exact absurd ((registered_iff s).mpr ⟨k, (State.ended_eq_some.mp hend).2.1⟩) hfree
  · exact absurd hr hfree
  · rcases touched_cases hs hf with hkeep | ⟨_, hu', _⟩ | ⟨o, hw, hot, _⟩
    · rw [h, (hkeep _).2, hn]
    · rw [hc'] at hu'
      cases hu'
    · have hcarried : t ∈ s.conn.carried := by simp [Connection.carried, hw, hot]
      exact absurd hcarried (hh.unsent_not_carried hu)
  · rw [h, hn]

theorem MadeState.cons (hm : MadeState codec options steps s₀) :
    MadeState codec options (x :: steps) s₀ := by
  obtain ⟨s₁, e, s₂, hx, hs, hn⟩ := hm
  exact ⟨s₁, e, s₂, List.mem_cons_of_mem _ hx, hs, hn⟩

theorem Attempting.task (ha : Attempting codec options h s t phase s₀) (hl : Lifecycle options s)
    (hs : step codec options s e = some s') (he : ofClient e = false)
    (hc : s.client = .connect caller t phase) (hn : (s'.cell t).error = none) :
    Attempting codec options ((s, e) :: h) s' t phase s₀ := by
  have hb : beginsAttempt e = false := by
    cases e with
    | connect e => cases he
    | _ => rfl
  have hsteps := attempt_cons (s := s) (h := h) hb
  refine {
    begun := (begun_cons hb).trans ha.begun
    disconnected := ha.disconnected
    next_le := ha.next_le
    error := hn
    built := ha.built
    unchanged := fun hp => ?_
    made := fun hp => ?_
    undisturbed := fun hp hu => ?_
    connected := fun hp hu => ?_ }
  · have hstage : s.client.stage = .handshaking := by
      rw [hc]
      cases phase <;> first | rfl | cases hp
    have hfin := (hl.handshaking hstage).2
    obtain ⟨hr, hw⟩ := hl.ended (by rw [hfin]; simp)
    exact (ha.unchanged hp).task hr hw hfin hs he
  · rw [hsteps]
    exact (ha.made hp).cons
  · rw [hsteps] at hu
    obtain ⟨hown, hu⟩ := Bool.and_eq_true_iff.mp hu
    cases e with
    | runtime e => exact (ha.undisturbed hp hu).runtime hs
    | call e | connect e | block e => cases he
    | _ e => cases hown
  · rw [hsteps] at hu
    obtain ⟨hne, hu⟩ := Bool.and_eq_true_iff.mp hu
    rw [status_step hs, ← ha.connected hp hu]
    cases e with
    | call e | connect e | block e => cases he
    | supervisor e =>
      cases e with
      | joined => simp at hne
      | _ => rfl
    | _ e => rfl

theorem attempting_started (hs : step codec options s (.connect (.started caller)) = some s')
    (hc : s'.client = .connect caller' t phase) :
    Attempting codec options ((s, .connect (.started caller)) :: h) s' t phase s := by
  have hs₀ := hs
  simp only [step, stepConnect, when_eq_some] at hs
  obtain ⟨⟨_, _, hd⟩, rfl⟩ := hs
  cases hc
  refine {
    begun := rfl
    disconnected := hd
    next_le := Nat.le_refl _
    error := ?_
    built := fun h => absurd rfl h
    unchanged := fun _ => { Unchanged.refl s with cell := fun ht => cell_alloc s.state _ ht }
    made := fun h => by cases h
    undisturbed := fun h => by cases h
    connected := fun h => by cases h }
  rw [cell_created hs₀ rfl]
  rfl

/-- A step of the attempt that does not end it. -/
theorem Attempting.connect {e : ConnectEvent} (ha : Attempting codec options h s t phase s₀)
    (hs : step codec options s (.connect e) = some s') (hc : s.client = .connect caller t phase)
    (hc' : s'.client = .connect caller t phase') (hb : beginsAttempt (.connect e) = false)
    (hn : (s'.cell t).error = none) :
    Attempting codec options ((s, .connect e) :: h) s' t phase' s₀ := by
  have hs₀ := hs
  have hsteps := attempt_cons (s := s) (h := h) hb
  have hbegun := (begun_cons (s := s) (h := h) hb).trans ha.begun
  cases e with
  | started caller' => cases hb
  | already caller' | reconnecting caller' | transportFailed caller' t' err
  | refused caller' t' item | returned caller' t' sp =>
    simp only [step, stepConnect, when_eq_some] at hs
    obtain ⟨_, rfl⟩ := hs
    exact absurd hc' ClientTask.connectReturned_ne_connect
  | transportPanicked caller' t' | panicked caller' t' =>
    simp only [step, stepConnect, when_eq_some] at hs
    obtain ⟨_, rfl⟩ := hs
    cases hc'
  | transportOpened caller' t' =>
    simp only [step, stepConnect, when_eq_some] at hs
    obtain ⟨⟨h0, hbuilt⟩, rfl⟩ := hs
    cases hc.symm.trans h0
    cases hc'
    exact {
      begun := hbegun
      disconnected := ha.disconnected
      next_le := ha.next_le
      error := hn
      built := fun _ => hbuilt
      unchanged := fun _ => { ha.unchanged rfl with }
      made := fun h => by cases h
      undisturbed := fun h => by cases h
      connected := fun h => by cases h }
  | accepted caller' t' sp =>
    simp only [step, stepConnect, when_eq_some] at hs
    obtain ⟨h0, hs'⟩ := hs
    cases hc.symm.trans h0
    have hrenewed := (ha.unchanged rfl).renewed hs₀
    have hphase : phase' = .spawned sp := by
      subst hs'
      cases hc'
      rfl
    subst hphase
    refine {
      begun := hbegun
      disconnected := ha.disconnected
      next_le := ha.next_le
      error := hn
      built := fun _ => ha.built (by simp)
      unchanged := fun h => by cases h
      made := fun _ => ?_
      undisturbed := fun _ _ => hrenewed
      connected := fun h => by cases h }
    rw [hsteps]
    exact ⟨s, _, s', List.mem_cons_self, hs₀, hrenewed⟩
  | statusSet caller' t' sp =>
    simp only [step, stepConnect, when_eq_some] at hs
    obtain ⟨⟨h0, _⟩, rfl⟩ := hs
    cases hc.symm.trans h0
    cases hc'
    refine {
      begun := hbegun
      disconnected := ha.disconnected
      next_le := ha.next_le
      error := hn
      built := fun _ => ha.built (by simp)
      unchanged := fun h => by cases h
      made := fun _ => ?_
      undisturbed := fun _ hu => ?_
      connected := fun _ _ => rfl }
    · rw [hsteps]
      exact (ha.made rfl).cons
    · rw [hsteps] at hu
      exact { ha.undisturbed rfl hu with }

theorem attempting_run (hr : Run codec options guard h s)
    (hc : s.client = .connect caller t phase) :
    ∃ s₀, Attempting codec options h s t phase s₀ := by
  induction hr generalizing phase with
  | nil => simp [init] at hc
  | @snoc h s e s' hr _ hs ih =>
    have hl := lifecycle hr
    have hreg := registry hr
    rcases connect_origin hs hc with ⟨phase', hc₀⟩ | ⟨rfl, rfl⟩
    · obtain ⟨s₀, ha⟩ := ih hc₀
      have hn := attempt_error hreg (holding_run hr) hs hc₀ hc ha.error
      refine ⟨s₀, ?_⟩
      rcases only_connect hs hc₀ with he | ⟨e, rfl, hb⟩
      · cases hc₀.symm.trans ((client_step hs he).symm.trans hc)
        exact ha.task hl hs he hc₀ hn
      · exact ha.connect hs hc₀ hc hb hn
    · exact ⟨s, attempting_started hs hc⟩

-- ---------------------------------------------------------------------------
-- What `connect` answers
-- ---------------------------------------------------------------------------

/-- The state in which the call began that an event ends. -/
def calledIn (h : Lts.History System Event) (s : System) : ConnectEvent → System
  | .already _ | .reconnecting _ => s
  | _ => (begun h).getD s

/-- What was done during that call. -/
def duringCall (h : Lts.History System Event) : ConnectEvent → Lts.History System Event
  | .already _ | .reconnecting _ => []
  | _ => attempt h

/-- The token that `connect` returns is complete, and unless a connection was
lost meanwhile it has no error exactly when the client is connected. -/
def Answered (steps : Lts.History System Event) (s' : System) (t : TokenId) : Prop :=
  (s'.cell t).complete ∧
    (unlost steps → ((s'.cell t).error = none ↔ s'.connectStatus = .connected))

theorem answered_of_error (hc : (s'.cell t).complete) (he : (s'.cell t).error.isSome)
    (hst : s'.connectStatus ≠ .connected) : Answered steps s' t := by
  refine ⟨hc, fun _ => ⟨fun hn => ?_, fun h => absurd h hst⟩⟩
  rw [hn] at he
  cases he

theorem begun_ne_connected (ha : Attempting codec options h s t phase s₀) :
    ((begun h).getD s').connectStatus ≠ .connected := by
  rw [ha.begun, Option.getD_some, ha.disconnected]
  simp

theorem answered_failed (ha : Attempting codec options h s u phase s₀)
    (hc : (s'.cell t).complete) (he : (s'.cell t).error.isSome)
    (hst : s'.connectStatus = .disconnected) :
    Answered (attempt h) s' t ↔ ((begun h).getD s).connectStatus ≠ .connected := by
  exact iff_of_true (answered_of_error hc he (by rw [hst]; simp)) (begun_ne_connected ha)

/-- Whatever result the transport returns and whatever the server sends,
`connect` has a next step up to its return; it can only have to wait while the
supervisor holds the status. -/
structure Proceeds (codec : Codec) (options : ClientOptions) (s : System) : Prop where
  called : s.client.connects caller → ¬ s.statusLocked → ∃ e,
    e ∈ [ConnectEvent.started caller, .already caller, .reconnecting caller] ∧
      (step codec options s (.connect e)).isSome
  failed : s.client = .connect caller t .transport →
    (step codec options s (.connect (.transportFailed caller t err))).isSome
  opened : s.client = .connect caller t .transport → (buildConnectPacket codec options).isSome →
    (step codec options s (.connect (.transportOpened caller t))).isSome
  answered : s.client = .connect caller t .handshake →
    (∃ sp, item = .packet (.connack sp .connectionAccepted) ∧
      (step codec options s (.connect (.accepted caller t sp))).isSome) ∨
      (step codec options s (.connect (.refused caller t item))).isSome
  spawned : s.client = .connect caller t (.spawned sp) → ¬ s.statusLocked →
    (step codec options s (.connect (.statusSet caller t sp))).isSome
  connected : s.client = .connect caller t (.connected sp) →
    (step codec options s (.connect (.returned caller t sp))).isSome
  released : s.statusLocked → ∃ e, (step codec options s (.supervisor e)).isSome

theorem refuse_eq_none (hf : refuse item token = none) :
    ∃ sp, item = .packet (.connack sp .connectionAccepted) := by
  unfold refuse at hf
  split at hf
  · exact ⟨_, rfl⟩
  all_goals cases hf

theorem connect_proceeds (hl : Lifecycle options s) : Proceeds codec options s where
  called {caller} hc hu := by
    cases hst : s.connectStatus with
    | disconnected =>
      exact ⟨.started caller, by simp, by simp [step, stepConnect, when, hc, hu, hst]⟩
    | connected => exact ⟨.already caller, by simp, by simp [step, stepConnect, when, hc, hu, hst]⟩
    | connecting =>
      exact ⟨.reconnecting caller, by simp, by simp [step, stepConnect, when, hc, hu, hst]⟩
  failed hc := by
    have hu : ¬ s.statusLocked := not_statusLocked.mpr (.inr (hl.handshaking (by rw [hc]; rfl)).2)
    simp [step, stepConnect, when, hc, hu]
  opened hc hb := by simp [step, stepConnect, when, hc, hb]
  answered {caller t item} hc := by
    have hu : ¬ s.statusLocked := not_statusLocked.mpr (.inr (hl.handshaking (by rw [hc]; rfl)).2)
    cases hf : refuse item (s.cell t) with
    | none =>
      obtain ⟨sp, rfl⟩ := refuse_eq_none hf
      exact .inl ⟨sp, rfl, by simp [step, stepConnect, when, hc]⟩
    | some token => exact .inr (by simp [step, stepConnect, when, hc, hu, hf])
  spawned hc hu := by simp [step, stepConnect, when, hc, hu]
  connected hc := by simp [step, stepConnect, when, hc]
  released h := by
    simp only [statusLocked, Bool.or_eq_true, decide_eq_true_eq] at h
    rcases h with h | h
    · exact ⟨.exitStored, by simp [step, stepSupervisor, when, h]⟩
    · exact ⟨.cleanedUp, by simp [step, stepSupervisor, when, h]⟩

/-- Whatever result the transport returns, `connect` has its next step, and a
token that `connect` returns is complete and tells the truth exactly when it
was not called with the client connected. -/
theorem connect_answers_iff (hr : Run codec options guard h s) :
    Proceeds codec options s ∧
      ∀ e s' t, step codec options s (.connect e) = some s' → connectEnds s e = some t →
        (Answered (duringCall h e) s' t ↔ (calledIn h s e).connectStatus ≠ .connected) := by
  refine ⟨connect_proceeds (lifecycle hr), fun e s' t hs ht => ?_⟩
  have hs₀ := hs
  cases e with
  | already caller =>
    cases ht
    simp only [step, stepConnect, when_eq_some] at hs
    refine ⟨fun h => ?_, fun h => absurd hs.1.2.2 h⟩
    have hc := h.1
    rw [cell_created hs₀ rfl] at hc
    cases hc
  | reconnecting caller =>
    cases ht
    simp only [step, stepConnect, when_eq_some] at hs
    obtain ⟨⟨_, _, hst⟩, hs'⟩ := hs
    have hcell : s'.cell s.state.tokens.next = InnerToken.connect.setError .reconnecting :=
      cell_created hs₀ rfl
    have hne : s.connectStatus ≠ .connected := by rw [hst]; simp
    have hkept : s'.connectStatus = s.connectStatus := status_step hs₀
    refine iff_of_true (answered_of_error ?_ ?_ ?_) hne
    · rw [hcell]; rfl
    · rw [hcell]; rfl
    · rw [hkept]; exact hne
  | transportFailed caller u err =>
    cases ht
    simp only [step, stepConnect, when_eq_some] at hs
    obtain ⟨s₀, ha⟩ := attempting_run hr hs.1.1
    have hcell : s'.cell t = (s.cell t).setError err := by
      rw [← hs.2]
      exact s.state.cell_modifyToken_self
    exact answered_failed ha (by rw [hcell]; rfl) (by rw [hcell]; rfl) (status_step hs₀)
  | refused caller u item =>
    cases ht
    simp only [step, stepConnect, when_eq_some] at hs
    obtain ⟨s₀, ha⟩ := attempting_run hr hs.1.1
    obtain ⟨token, htok⟩ := Option.isSome_iff_exists.mp hs.1.2.2
    have hcell : s'.cell t = token := by
      rw [← hs.2]
      refine s.state.cell_modifyToken_self.trans ?_
      change (refuse item (s.cell t)).getD (s.cell t) = token
      rw [htok, Option.getD_some]
    obtain ⟨_, hc, he⟩ := refuse_cases (e := .connect (.refused caller t item)) htok
    exact answered_failed ha (hcell ▸ hc) (hcell ▸ he) (status_step hs₀)
  | returned caller u sp =>
    cases ht
    simp only [step, stepConnect, when_eq_some] at hs
    obtain ⟨s₀, ha⟩ := attempting_run hr hs.1
    have hcell : s'.cell t =
        (if sp then (s.cell t).setSessionPresent else s.cell t).flowComplete := by
      rw [← hs.2]
      exact s.state.cell_modifyToken_self
    have hn : (s'.cell t).error = none := by
      rw [hcell]
      cases sp <;> simp [ha.error]
    have hkept : s'.connectStatus = s.connectStatus := status_step hs₀
    refine iff_of_true ⟨by rw [hcell]; rfl, fun hu => iff_of_true hn ?_⟩ ?_
    · rw [hkept]
      exact ha.connected rfl hu
    · exact begun_ne_connected ha
  | started caller | transportPanicked caller u | transportOpened caller u | panicked caller u
  | accepted caller u sp | statusSet caller u sp => cases ht

/-- A second call of `connect` on a connection. -/
theorem connected_token_pending : ¬ ∀ h s e s' t,
    Run acceptingCodec .new Lts.anything h s → step acceptingCodec .new s (.connect e) = some s' →
      connectEnds s e = some t → Answered (duringCall h e) s' t := by
  obtain ⟨h, s, hr, ht⟩ := Lts.exists_run (step acceptingCodec .new) Lts.anything init
    (connecting none 0 false ++ connected none 0 false)
    (fun _ s => s.client = .idle && s.connectStatus = .connected &&
      s.conn.supervisor = .joining) (by decide +kernel)
  simp only [Bool.and_eq_true, decide_eq_true_eq] at ht
  obtain ⟨⟨hc, hst⟩, hj⟩ := ht
  have hs : step acceptingCodec .new s (.connect (.already none)) = some
      { s.alloc (InnerToken.connect.setReturnCode .connectionAccepted) with client := .idle } := by
    simp only [step, stepConnect, when_eq_some]
    exact ⟨⟨by simp [hc, ClientTask.connects], by simp [statusLocked, hj], hst⟩, rfl⟩
  intro hall
  have hd := (hall h s _ _ _ hr hs rfl).1
  rw [cell_created hs rfl] at hd
  cases hd

theorem connect_answers_accepted : ∃ h s s' t,
    Run acceptingCodec .new Lts.anything h s ∧
      step acceptingCodec .new s (.connect (.returned none t false)) = some s' ∧
      Answered (attempt h) s' t ∧ s'.connectStatus = .connected := by
  obtain ⟨h, s, hr, ht⟩ := Lts.exists_run (step acceptingCodec .new) Lts.anything init
    (connecting none 0 false ++ [.connect (.statusSet none 0 false)])
    (fun h s => s.client = .connect none 0 (.connected false) && s.connectStatus = .connected &&
      (begun h).any (·.connectStatus = .disconnected)) (by decide +kernel)
  simp only [Bool.and_eq_true, decide_eq_true_eq] at ht
  obtain ⟨⟨hc, hst⟩, hb⟩ := ht
  obtain ⟨s₀, hb, hd⟩ := (Option.any_eq_true _ _).mp hb
  have hs : step acceptingCodec .new s (.connect (.returned none 0 false)) = some
      { s.modifyToken 0 (·.flowComplete) with manualDisconnect := false, client := .idle } := by
    simp only [step, stepConnect, when_eq_some]
    exact ⟨hc, rfl⟩
  refine ⟨h, s, _, 0, hr, hs, ((connect_answers_iff hr).2 _ _ _ hs rfl).mpr ?_, hst⟩
  change ((begun h).getD s).connectStatus ≠ .connected
  rw [hb, Option.getD_some, decide_eq_true_eq.mp hd]
  simp

-- ---------------------------------------------------------------------------
-- All or nothing
-- ---------------------------------------------------------------------------

def attemptEnds : ConnectEvent → Bool
  | .transportFailed .. | .transportPanicked .. | .panicked .. | .refused .. | .returned .. => true
  | _ => false

/-- An attempt that has failed: everything is as before, and the next call of
`connect` is an attempt again. -/
structure Failed (codec : Codec) (options : ClientOptions) (s₀ s' : System) : Prop
    extends Unchanged s₀ s' where
  connectStatus : s'.connectStatus = .disconnected
  retry : s'.client.connects caller → (step codec options s' (.connect (.started caller))).isSome

/-- An attempt that has succeeded, with its steps: the new `State` is made of
the old one, and unless the new connection's tasks have worked on it already
the client has just that and is connected. -/
structure Succeeded (codec : Codec) (options : ClientOptions) (steps : Lts.History System Event)
    (s₀ s' : System) : Prop where
  made : MadeState codec options steps s₀
  settled : s'.connectStatus ≠ .connecting
  connected : unlost steps → s'.connectStatus = .connected
  renewed : undisturbed steps → Renewed s₀ s'

def willAccepted (codec : Codec) (options : ClientOptions) : Bool :=
  !options.willEnabled || codec.lastWill options.willTopic options.willPayload

theorem buildConnectPacket_isSome :
    (buildConnectPacket codec options).isSome = willAccepted codec options := by
  unfold buildConnectPacket willAccepted
  cases options.willEnabled with
  | false => rfl
  | true => cases codec.lastWill options.willTopic options.willPayload <;> rfl

theorem Unchanged.failed (hu : Unchanged s₀ s') (hlock : ¬ s'.statusLocked)
    (hst : s'.connectStatus = .disconnected) : Failed codec options s₀ s' :=
  { hu with
    connectStatus := hst
    retry := fun hc => by simp [step, stepConnect, when, hc, hlock, hst] }

/-- A panic leaves the status at `Connecting`. -/
theorem not_atomic_of_panicked (hl : Lifecycle options s') (hp : s'.client = .panicked) :
    ¬ (Failed codec options s₀ s' ∨ Succeeded codec options steps s₀ s') := by
  have hconnecting : s'.connectStatus = .connecting := (hl.handshaking (by rw [hp]; rfl)).1
  rintro (hf | hsucc)
  · cases hf.connectStatus.symm.trans hconnecting
  · exact hsucc.settled hconnecting

/-- An attempt to connect succeeds or leaves everything as it was, exactly when
`Transport::connect` returns and fails or the will is accepted. -/
theorem attempt_atomic_iff (hr : Run codec options guard h s) {e : ConnectEvent}
    (hs : step codec options s (.connect e) = some s') (he : attemptEnds e) :
    ∃ s₀, begun h = some s₀ ∧ s₀.connectStatus = .disconnected ∧
      (Failed codec options s₀ s' ∨ Succeeded codec options (attempt h) s₀ s' ↔
        (∀ caller t, e ≠ .transportPanicked caller t) ∧
          ((∃ caller t err, e = .transportFailed caller t err) ∨ willAccepted codec options)) := by
  have hs₀ := hs
  have hl' := lifecycle_step (lifecycle hr) hs
  have hst := status_step hs
  cases e with
  | transportFailed caller t err =>
    simp only [step, stepConnect, when_eq_some] at hs
    obtain ⟨⟨hc, hlock⟩, hs'⟩ := hs
    obtain ⟨s₀, ha⟩ := attempting_run hr hc
    refine ⟨s₀, ha.begun, ha.disconnected,
      iff_of_true (.inl ?_) ⟨by simp, .inl ⟨caller, t, err, rfl⟩⟩⟩
    rcases (ha.unchanged rfl).connect hc ha.next_le hs₀ (.inl rfl) with hu | ⟨_, h⟩
    · exact hu.failed (by rw [← hs']; exact hlock) hst
    · cases h
  | refused caller t item =>
    simp only [step, stepConnect, when_eq_some] at hs
    obtain ⟨⟨hc, hlock, _⟩, hs'⟩ := hs
    obtain ⟨s₀, ha⟩ := attempting_run hr hc
    have hwill := buildConnectPacket_isSome ▸ ha.built (by simp)
    refine ⟨s₀, ha.begun, ha.disconnected, iff_of_true (.inl ?_) ⟨by simp, .inr hwill⟩⟩
    rcases (ha.unchanged rfl).connect hc ha.next_le hs₀ (.inr rfl) with hu | ⟨_, h⟩
    · exact hu.failed (by rw [← hs']; exact hlock) hst
    · cases h
  | panicked caller t =>
    simp only [step, stepConnect, when_eq_some] at hs
    obtain ⟨⟨hc, hnone⟩, hs'⟩ := hs
    obtain ⟨s₀, ha⟩ := attempting_run hr hc
    refine ⟨s₀, ha.begun, ha.disconnected,
      iff_of_false (not_atomic_of_panicked hl' (by rw [← hs'])) ?_⟩
    rintro ⟨_, ⟨_, _, _, h⟩ | hwill⟩
    · cases h
    · rw [← buildConnectPacket_isSome, Option.isNone_iff_eq_none.mp hnone] at hwill
      cases hwill
  | transportPanicked caller t =>
    simp only [step, stepConnect, when_eq_some] at hs
    obtain ⟨hc, hs'⟩ := hs
    obtain ⟨s₀, ha⟩ := attempting_run hr hc
    exact ⟨s₀, ha.begun, ha.disconnected,
      iff_of_false (not_atomic_of_panicked hl' (by rw [← hs'])) fun h => h.1 caller t rfl⟩
  | returned caller t sp =>
    simp only [step, stepConnect, when_eq_some] at hs
    obtain ⟨hc, hs'⟩ := hs
    obtain ⟨s₀, ha⟩ := attempting_run hr hc
    have hwill := buildConnectPacket_isSome ▸ ha.built (by simp)
    refine ⟨s₀, ha.begun, ha.disconnected, iff_of_true (.inr ?_) ⟨by simp, .inr hwill⟩⟩
    refine {
      made := ha.made rfl
      settled := fun h => hl'.connecting h ?_
      connected := fun hu => hst.trans (ha.connected rfl hu)
      renewed := fun hu => ?_ }
    · rw [← hs']
      exact ClientTask.stage_connectReturned caller t
    · have hrenewed := ha.undisturbed rfl hu
      rw [← hs']
      exact { hrenewed.toKept.modifyToken ha.next_le with conn := hrenewed.conn }
  | started caller | already caller | reconnecting caller | transportOpened caller t
  | accepted caller t sp | statusSet caller t sp => cases he

/-- A codec that refuses a will with a wildcard in its topic. -/
def wildcardRefusingCodec : Codec :=
  { acceptingCodec with lastWill := fun topic _ => topic.toList.all fun c => c ≠ '#' && c ≠ '+' }

def wildcardWill : ClientOptions := { ClientOptions.new with willEnabled := true, willTopic := "#" }

/-- A will whose topic has a wildcard. -/
theorem will_panics : ¬ ∀ h s e s',
    Run wildcardRefusingCodec wildcardWill Lts.anything h s →
      step wildcardRefusingCodec wildcardWill s (.connect e) = some s' → attemptEnds e →
        ∃ s₀, begun h = some s₀ ∧ (Failed wildcardRefusingCodec wildcardWill s₀ s' ∨
          Succeeded wildcardRefusingCodec wildcardWill (attempt h) s₀ s') := by
  obtain ⟨h, s, hr, ht⟩ := Lts.exists_run (step wildcardRefusingCodec wildcardWill) Lts.anything
    init [.connect (.started none)]
    (fun _ s => s.client = .connect none 0 .transport && s.connectStatus = .connecting)
    (by decide +kernel)
  simp only [Bool.and_eq_true, decide_eq_true_eq] at ht
  obtain ⟨hc, hst⟩ := ht
  have hs : step wildcardRefusingCodec wildcardWill s (.connect (.panicked none 0)) =
      some { s with client := .panicked } := by
    simp only [step, stepConnect, when_eq_some]
    exact ⟨⟨hc, by decide +kernel⟩, trivial⟩
  intro hall
  obtain ⟨_, _, hf | hsucc⟩ := hall h s _ _ hr hs rfl
  · cases hf.connectStatus.symm.trans hst
  · exact hsucc.settled hst

theorem attempt_atomic_refused : ∃ h s s' s₀,
    Run acceptingCodec .new Lts.anything h s ∧
      step acceptingCodec .new s (.connect (.refused none 0 .closed)) = some s' ∧
      begun h = some s₀ ∧
        (Failed acceptingCodec .new s₀ s' ∨ Succeeded acceptingCodec .new (attempt h) s₀ s') := by
  obtain ⟨h, s, hr, ht⟩ := Lts.exists_run (step acceptingCodec .new) Lts.anything init
    [.connect (.started none), .connect (.transportOpened none 0)]
    (fun _ s => s.client = .connect none 0 .handshake && !s.statusLocked) (by decide +kernel)
  simp only [Bool.and_eq_true, decide_eq_true_eq, Bool.not_eq_true'] at ht
  obtain ⟨hc, hlock⟩ := ht
  have hs : step acceptingCodec .new s (.connect (.refused none 0 .closed)) = some
      { s.modifyToken 0 (·.setError (.connectFailed 0)) with
        connectStatus := .disconnected, client := .idle } := by
    simp only [step, stepConnect, when_eq_some]
    exact ⟨⟨hc, by simp [hlock], rfl⟩, rfl⟩
  obtain ⟨s₀, hb, _, hiff⟩ := attempt_atomic_iff hr hs rfl
  exact ⟨h, s, _, s₀, hr, hs, hb, hiff.mpr ⟨by simp, .inr rfl⟩⟩

end System

end MesquitteClient
