import MesquitteClient.ClientSteps

/-!
# The life of a connection

Which tasks are gone when, how the status follows the client task and the
supervisor, and that `connect` is only tried when the last connection has been
torn down. The status itself can be stale: `connect` spawns the supervisor
before it sets `Connected`, and a teardown in between is overwritten
(`stale_connected`). It is the only way (`not_connected_of_finished`).
-/

namespace MesquitteClient

/-- How far a client task is with `connect`. -/
inductive Stage
  /-- not in `connect`, or done with the status -/
  | settled
  /-- before a CONNACK, or stopped there by a panic -/
  | handshaking
  /-- between the CONNACK and setting the status -/
  | settingStatus
  deriving DecidableEq

def ClientTask.stage : ClientTask → Stage
  | .connect _ _ .transport | .connect _ _ .handshake | .panicked => .handshaking
  | .connect _ _ (.spawned _) => .settingStatus
  | _ => .settled

namespace System

variable {codec : Codec} {options : ClientOptions} {s s' : System} {e : Event}

structure Lifecycle (options : ClientOptions) (s : System) : Prop where
  ended : s.conn.supervisor ≠ .joining → s.conn.reader = .ended ∧ s.conn.writer = .ended
  drained : s.conn.writer = .ended → s.conn.outgoing = [] ∧ s.conn.msg = []
  handshaking : s.client.stage = .handshaking →
    s.connectStatus = .connecting ∧ s.conn.supervisor = .finished
  connecting : s.connectStatus = .connecting → s.client.stage ≠ .settled
  joining : s.conn.supervisor = .joining →
    s.client.stage = .settingStatus ∨ s.connectStatus = .connected
  notified : s.notify →
    (∃ cnt, s.client = .block cnt ∧ ¬ retriesExhausted options cnt) ∧ options.autoReconnect ∧
      s.connectStatus = .disconnected ∧ s.conn.supervisor = .finished
  reconnecting : s.client = .reconnect cnt →
    s.connectStatus = .disconnected ∧ s.conn.supervisor = .finished

theorem not_statusLocked : ¬ s.statusLocked ↔
    s.conn.supervisor = .joining ∨ s.conn.supervisor = .finished := by
  unfold statusLocked
  cases s.conn.supervisor <;> simp

theorem lifecycle_init : Lifecycle options init where
  ended _ := ⟨rfl, rfl⟩
  drained _ := ⟨rfl, rfl⟩
  handshaking h := by simp [init, ClientTask.stage] at h
  connecting h := by simp [init] at h
  joining h := by simp [init, Connection.none] at h
  notified h := by simp [init] at h
  reconnecting h := by simp [init] at h

/-- An unlocked status that is not `Connected` means a connection torn down. -/
theorem Lifecycle.finished (hl : Lifecycle options s) (hu : ¬ s.statusLocked)
    (hc : s.connectStatus = .disconnected) (hstage : s.client.stage = .settled) :
    s.conn.supervisor = .finished := by
  rcases not_statusLocked.mp hu with hj | hf
  · rcases hl.joining hj with h | h
    · rw [hstage] at h
      cases h
    · rw [hc] at h
      cases h
  · exact hf

theorem Lifecycle.not_notify (hl : Lifecycle options s) (hc : ∀ cnt, s.client ≠ .block cnt) :
    ¬ s.notify := by
  intro hn
  obtain ⟨⟨cnt, hcnt, _⟩, _⟩ := hl.notified hn
  exact hc cnt hcnt

/-- What only the client task knows of does not matter, while it is not in
`select!` and not in `connect` before or after the step. -/
theorem Lifecycle.moved (hl : Lifecycle options s) (hconn : s'.conn = s.conn)
    (hstatus : s'.connectStatus = s.connectStatus) (hnotify : s'.notify = s.notify)
    (hstage : s'.client.stage = s.client.stage) (hblock : ∀ cnt, s.client ≠ .block cnt)
    (hre : ∀ cnt, s'.client ≠ .reconnect cnt) : Lifecycle options s' where
  ended h := by
    rw [hconn] at h ⊢
    exact hl.ended h
  drained h := by
    rw [hconn] at h ⊢
    exact hl.drained h
  handshaking h := by
    rw [hconn, hstatus]
    exact hl.handshaking (hstage ▸ h)
  connecting h := by
    rw [hstage]
    exact hl.connecting (hstatus ▸ h)
  joining h := by
    rw [hstage, hstatus]
    exact hl.joining (hconn ▸ h)
  notified h := absurd (hnotify ▸ h) (hl.not_notify hblock)
  reconnecting h := absurd h (hre _)

/-- A step of a task of the connection moves its halves on, and not the
supervisor. -/
theorem Lifecycle.progressed (hl : Lifecycle options s)
    (hsup : s'.conn.supervisor = s.conn.supervisor)
    (hreader : s.conn.reader = .ended → s'.conn.reader = .ended)
    (hwriter : s.conn.writer = .ended → s'.conn.writer = .ended)
    (hdrained : s'.conn.writer = .ended → s'.conn.outgoing = [] ∧ s'.conn.msg = [])
    (hstatus : s'.connectStatus = s.connectStatus) (hnotify : s'.notify = s.notify)
    (hclient : s'.client.stage = s.client.stage) (hblock : s.notify → s'.client = s.client)
    (hre : ∀ cnt, s'.client = .reconnect cnt → s.client = .reconnect cnt) :
    Lifecycle options s' where
  ended h := (hl.ended (hsup ▸ h)).imp hreader hwriter
  drained := hdrained
  handshaking h := by
    rw [hsup, hstatus]
    exact hl.handshaking (hclient ▸ h)
  connecting h := by
    rw [hclient]
    exact hl.connecting (hstatus ▸ h)
  joining h := by
    rw [hclient, hstatus]
    exact hl.joining (hsup ▸ h)
  notified h := by
    rw [hsup, hstatus, hblock (hnotify ▸ h)]
    exact hl.notified (hnotify ▸ h)
  reconnecting h := by
    rw [hsup, hstatus]
    exact hl.reconnecting (hre _ h)

theorem ClientTask.stage_returned (frame : Frame) : (ClientTask.returned frame).stage = .settled := by
  rcases ClientTask.returned_cases frame with h | ⟨_, h⟩ <;> rw [h] <;> rfl

theorem ClientTask.stage_connectReturned (caller : Caller) (t : TokenId) :
    (ClientTask.connectReturned caller t).stage = .settled := by
  rcases ClientTask.connectReturned_cases caller t with h | ⟨_, h⟩ <;> rw [h] <;> rfl

theorem ClientTask.returned_ne_reconnect (frame : Frame) (cnt : UInt16) :
    ClientTask.returned frame ≠ .reconnect cnt := by
  rcases ClientTask.returned_cases frame with h | ⟨_, h⟩ <;> simp [h]

theorem ClientTask.connectReturned_ne_reconnect (caller : Caller) (t : TokenId) (cnt : UInt16) :
    ClientTask.connectReturned caller t ≠ .reconnect cnt := by
  rcases ClientTask.connectReturned_cases caller t with h | ⟨_, h⟩ <;> simp [h]

theorem Lifecycle.call {e : CallEvent} (hl : Lifecycle options s)
    (hs : s.stepCall codec e = some s') : Lifecycle options s' := by
  cases e with
  | accepted job call | refused job call =>
    simp only [stepCall, when_eq_some] at hs
    obtain ⟨⟨hc, _⟩, rfl⟩ := hs
    rcases ClientTask.calls_cases hc with ⟨h0, _⟩ | ⟨_, _, _, h0, _⟩ <;>
      refine hl.moved rfl rfl rfl ?_ (by simp [h0]) (by simp [ClientTask.returned_ne_reconnect]) <;>
      rw [h0] <;> first | rfl | exact ClientTask.stage_returned _
  | enqueued frame packet =>
    simp only [stepCall, when_eq_some] at hs
    obtain ⟨⟨h0, hw, _⟩, rfl⟩ := hs
    exact hl.progressed rfl id id (fun h => absurd h hw) rfl rfl (by simp [h0, ClientTask.stage])
      (fun hn => absurd hn (hl.not_notify (by simp [h0]))) (fun _ h => by cases h)
  | exhausted frame | invalid frame pkid topics | returned frame =>
    simp only [stepCall, when_eq_some] at hs
    obtain ⟨hc, rfl⟩ := hs
    refine hl.moved rfl rfl rfl ?_ (by simp [hc]) (by simp [ClientTask.returned_ne_reconnect])
    rw [ClientTask.stage_returned]
    simp [hc, ClientTask.stage]
  | _ =>
    simp only [stepCall, when_eq_some] at hs
    obtain ⟨hc, rfl⟩ := hs
    exact hl.moved rfl rfl rfl (by simp [hc, ClientTask.stage]) (by simp [hc]) (by simp)

theorem Lifecycle.connect {e : ConnectEvent} (hl : Lifecycle options s)
    (hs : s.stepConnect codec options e = some s') : Lifecycle options s' := by
  cases e with
  | started caller =>
    simp only [stepConnect, when_eq_some] at hs
    obtain ⟨⟨hc, hu, hd⟩, rfl⟩ := hs
    have h0 : s.client.stage = .settled ∧ ∀ cnt, s.client ≠ .block cnt := by
      rcases ClientTask.connects_cases hc with ⟨h0, _⟩ | ⟨_, h0, _⟩ <;> simp [h0, ClientTask.stage]
    have hfin : s.conn.supervisor = .finished := hl.finished hu hd h0.1
    exact {
      ended := hl.ended
      drained := hl.drained
      handshaking := fun _ => ⟨rfl, hfin⟩
      connecting := fun _ h => by cases h
      joining := fun h => by cases hfin.symm.trans h
      notified := fun h => absurd h (hl.not_notify h0.2)
      reconnecting := fun h => by cases h }
  | already caller | reconnecting caller =>
    simp only [stepConnect, when_eq_some] at hs
    obtain ⟨⟨hc, _⟩, rfl⟩ := hs
    rcases ClientTask.connects_cases hc with ⟨h0, _⟩ | ⟨_, h0, _⟩ <;>
      refine hl.moved rfl rfl rfl ?_ (by simp [h0])
        (by simp [ClientTask.connectReturned_ne_reconnect]) <;>
      exact (ClientTask.stage_connectReturned _ _).trans (by rw [h0]; rfl)
  | transportFailed caller t err | refused caller t item =>
    simp only [stepConnect, when_eq_some] at hs
    obtain ⟨⟨h0, _⟩, rfl⟩ := hs
    have hfin := (hl.handshaking (by rw [h0]; rfl)).2
    exact {
      ended := hl.ended
      drained := hl.drained
      handshaking := fun h => by simp [ClientTask.stage_connectReturned] at h
      connecting := fun h => by cases h
      joining := fun h => by cases hfin.symm.trans h
      notified := fun h => absurd h (hl.not_notify (by simp [h0]))
      reconnecting := fun h => absurd h (ClientTask.connectReturned_ne_reconnect _ _ _) }
  | transportPanicked caller t =>
    simp only [stepConnect, when_eq_some] at hs
    obtain ⟨h0, rfl⟩ := hs
    exact hl.moved rfl rfl rfl (by simp [h0, ClientTask.stage]) (by simp [h0]) (by simp)
  | transportOpened caller t | panicked caller t =>
    simp only [stepConnect, when_eq_some] at hs
    obtain ⟨⟨h0, _⟩, rfl⟩ := hs
    exact hl.moved rfl rfl rfl (by simp [h0, ClientTask.stage]) (by simp [h0]) (by simp)
  | accepted caller t sp =>
    simp only [stepConnect, when_eq_some] at hs
    obtain ⟨h0, rfl⟩ := hs
    exact {
      ended := fun h => absurd rfl h
      drained := fun _ => ⟨rfl, rfl⟩
      handshaking := fun h => by cases h
      connecting := fun _ h => by cases h
      joining := fun _ => .inl rfl
      notified := fun h => absurd h (hl.not_notify (by simp [h0]))
      reconnecting := fun h => by cases h }
  | statusSet caller t sp =>
    simp only [stepConnect, when_eq_some] at hs
    obtain ⟨⟨h0, _⟩, rfl⟩ := hs
    exact {
      ended := hl.ended
      drained := hl.drained
      handshaking := fun h => by cases h
      connecting := fun h => by cases h
      joining := fun _ => .inr rfl
      notified := fun h => absurd h (hl.not_notify (by simp [h0]))
      reconnecting := fun h => by cases h }
  | returned caller t sp =>
    simp only [stepConnect, when_eq_some] at hs
    obtain ⟨h0, rfl⟩ := hs
    refine hl.moved rfl rfl rfl ?_ (by simp [h0])
      (by simp [ClientTask.connectReturned_ne_reconnect])
    exact (ClientTask.stage_connectReturned _ _).trans (by rw [h0]; rfl)

/-- `block` notices a connection that is torn down. -/
theorem Lifecycle.slept (hl : Lifecycle options s) (hc : s.client = .block cnt)
    (hx : ¬ retriesExhausted options cnt) (hu : ¬ s.statusLocked) :
    Lifecycle options (afterSleep options s) := by
  unfold afterSleep
  split
  · exact hl
  · rename_i hst
    have hfin := hl.finished hu hst (by rw [hc]; rfl)
    split
    · exact hl
    · split
      · rename_i hauto
        exact { hl with notified := fun _ => ⟨⟨cnt, hc, hx⟩, hauto, hst, hfin⟩ }
      · rename_i hauto
        exact {
          ended := hl.ended
          drained := hl.drained
          handshaking := fun h => by cases h
          connecting := fun h => by cases hst.symm.trans h
          joining := fun h => by cases hfin.symm.trans h
          notified := fun h => absurd (hl.notified h).2.1 hauto
          reconnecting := fun h => by cases h }
  · exact hl

theorem Lifecycle.block {e : BlockEvent} (hl : Lifecycle options s)
    (hs : s.stepBlock options e = some s') : Lifecycle options s' := by
  cases e with
  | exhausted cnt =>
    simp only [stepBlock, when_eq_some] at hs
    obtain ⟨⟨h0, hx⟩, rfl⟩ := hs
    refine hl.progressed rfl id id hl.drained rfl rfl (by rw [h0]; rfl) (fun hn => ?_)
      (fun _ h => by cases h)
    obtain ⟨⟨cnt', hc, hx'⟩, _⟩ := hl.notified hn
    cases h0.symm.trans hc
    exact absurd hx hx'
  | slept cnt =>
    simp only [stepBlock, when_eq_some] at hs
    obtain ⟨⟨h0, hx, hu⟩, rfl⟩ := hs
    exact hl.slept h0 hx hu
  | notified cnt =>
    simp only [stepBlock, when_eq_some] at hs
    obtain ⟨⟨h0, _, hn⟩, rfl⟩ := hs
    obtain ⟨_, _, hst, hfin⟩ := hl.notified hn
    exact {
      ended := hl.ended
      drained := hl.drained
      handshaking := fun h => by cases h
      connecting := fun h => by cases hst.symm.trans h
      joining := fun h => by cases hfin.symm.trans h
      notified := fun h => by cases h
      reconnecting := fun _ => ⟨hst, hfin⟩ }
  | reconnected cnt t =>
    simp only [stepBlock, when_eq_some] at hs
    obtain ⟨⟨h0, _⟩, rfl⟩ := hs
    split <;>
      exact hl.moved rfl rfl rfl (by simp [ClientTask.stage, *]) (by simp [h0]) (by simp [*])
  | _ =>
    simp only [stepBlock, when_eq_some] at hs
    obtain ⟨hc, rfl⟩ := hs
    exact hl.moved rfl rfl rfl (by simp [hc, ClientTask.stage]) (by simp [hc]) (by simp)

theorem Lifecycle.task (hl : Lifecycle options s) (hs : step codec options s e = some s')
    (he : ofClient e = false) (hsup : s'.conn.supervisor = s.conn.supervisor)
    (hstatus : s'.connectStatus = s.connectStatus) (hnotify : s'.notify = s.notify)
    (hreader : s.conn.reader = .ended → s'.conn.reader = .ended)
    (hwriter : s.conn.writer = .ended → s'.conn.writer = .ended)
    (hdrained : s'.conn.writer = .ended → s'.conn.outgoing = [] ∧ s'.conn.msg = []) :
    Lifecycle options s' := by
  have hclient := client_step hs he
  exact hl.progressed hsup hreader hwriter hdrained hstatus hnotify (by rw [hclient])
    (fun _ => hclient) (fun _ h => hclient ▸ h)

theorem lifecycle_step (hl : Lifecycle options s) (hs : step codec options s e = some s') :
    Lifecycle options s' := by
  have hs₀ := hs
  cases e with
  | call e => exact hl.call hs
  | connect e => exact hl.connect hs
  | block e => exact hl.block hs
  | reader e =>
    cases e with
    | responded resp =>
      simp only [step, stepReader, when_eq_some] at hs
      obtain ⟨⟨hc, hw, _⟩, rfl⟩ := hs
      exact hl.task hs₀ rfl rfl rfl rfl (by simp [hc]) id fun h => absurd h hw
    | _ =>
      simp only [step, stepReader, when_eq_some] at hs
      obtain ⟨hc, rfl⟩ := hs
      exact hl.task hs₀ rfl rfl rfl rfl (by simp [hc]) id hl.drained
  | writer e =>
    cases e with
    | msgTaken packet | outgoingTaken o | msgWritten packet =>
      simp only [step, stepWriter, when_eq_some] at hs
      obtain ⟨hc, rfl⟩ := hs
      exact hl.task hs₀ rfl rfl rfl rfl id (by simp [hc]) (fun h => by cases h)
    | outgoingWritten o =>
      simp only [step, stepWriter, when_eq_some] at hs
      obtain ⟨hc, rfl⟩ := hs
      obtain ⟨packet, _ | t⟩ := o <;>
        exact hl.task hs₀ rfl rfl rfl rfl id (by simp [hc]) (fun h => by cases h)
    | outgoingFailed o err =>
      simp only [step, stepWriter, when_eq_some] at hs
      obtain ⟨hc, rfl⟩ := hs
      obtain ⟨packet, _ | t⟩ := o <;>
        exact hl.task hs₀ rfl rfl rfl rfl id (fun _ => rfl) (fun _ => ⟨rfl, rfl⟩)
    | msgFailed packet | msgClosed =>
      simp only [step, stepWriter, when_eq_some] at hs
      obtain ⟨hc, rfl⟩ := hs
      exact hl.task hs₀ rfl rfl rfl rfl id (fun _ => rfl) (fun _ => ⟨rfl, rfl⟩)
  | keepAlive e =>
    cases e with
    | pinged =>
      simp only [step, stepKeepAlive, when_eq_some] at hs
      obtain ⟨⟨_, hw, _⟩, rfl⟩ := hs
      exact hl.task hs₀ rfl rfl rfl rfl id id fun h => absurd h hw
    | _ =>
      simp only [step, stepKeepAlive, when_eq_some] at hs
      obtain ⟨_, rfl⟩ := hs
      exact hl.task hs₀ rfl rfl rfl rfl id id hl.drained
  | supervisor e =>
    -- the status was `Connected` or is, and `block` has not been notified
    have hjoined (hne : s.conn.supervisor ≠ .finished) : ¬ s.notify ∧
        s.client.stage ≠ .handshaking ∧ ∀ cnt, s.client ≠ .reconnect cnt :=
      ⟨fun h => hne (hl.notified h).2.2.2, fun h => hne (hl.handshaking h).2,
        fun _ h => hne (hl.reconnecting h).2⟩
    cases e with
    | joined =>
      simp only [step, stepSupervisor, when_eq_some] at hs
      obtain ⟨⟨hj, hended⟩, rfl⟩ := hs
      obtain ⟨hn, hh, hre⟩ := hjoined (by simp [hj])
      exact {
        ended := fun _ => hended
        drained := hl.drained
        handshaking := fun h => absurd h hh
        connecting := fun h => by cases h
        joining := fun h => by cases h
        notified := fun h => absurd h hn
        reconnecting := fun h => absurd h (hre _) }
    | exitStored | cleanedUp =>
      simp only [step, stepSupervisor, when_eq_some] at hs
      obtain ⟨hj, rfl⟩ := hs
      obtain ⟨hn, hh, hre⟩ := hjoined (by simp [hj])
      exact {
        ended := fun _ => hl.ended (by simp [hj])
        drained := hl.drained
        handshaking := fun h => absurd h hh
        connecting := hl.connecting
        joining := fun h => by cases h
        notified := fun h => absurd h hn
        reconnecting := fun h => absurd h (hre _) }
  | runtime e =>
    cases e with
    | handlerRan task =>
      simp only [step, stepRuntime, when_eq_some] at hs
      obtain ⟨_, rfl⟩ := hs
      exact { hl with }
    | _ =>
      simp only [step, stepRuntime, Option.some.injEq] at hs
      obtain rfl := hs
      exact { hl with }

-- ---------------------------------------------------------------------------
-- Runs
-- ---------------------------------------------------------------------------

/-- A run of the client from its creation, under a guard on its surroundings. -/
abbrev Run (codec : Codec) (options : ClientOptions) (guard : Lts.Guard System Event) :
    Lts.History System Event → System → Prop :=
  Lts.Run (step codec options) guard init

variable {guard : Lts.Guard System Event} {h : Lts.History System Event}

theorem lifecycle (hr : Run codec options guard h s) : Lifecycle options s :=
  hr.invariant (P := fun _ s => Lifecycle options s) lifecycle_init
    fun _ hl _ hs => lifecycle_step hl hs

/-- `connect` starts and is accepted; every other event settles the client task
or leaves it at its stage. -/
theorem stage_step (hs : step codec options s e = some s') :
    s'.client.stage = s.client.stage ∨ s'.client.stage = .settled ∨
      (s'.client.stage = .handshaking ∧ ∃ caller, e = .connect (.started caller)) ∨
      ∃ caller t sp, e = .connect (.accepted caller t sp) := by
  cases client_cases hs with
  | other _ hc => exact .inl (by rw [hc])
  | refused _ _ _ _ hc' | callReturned _ _ _ _ hc' =>
    exact .inr (.inl (hc' ▸ ClientTask.stage_returned _))
  | answered _ _ _ hc' | connectReturned _ _ _ _ _ hc' =>
    exact .inr (.inl (hc' ▸ ClientTask.stage_connectReturned _ _))
  | started caller he _ hc' => exact .inr (.inr (.inl ⟨by rw [hc']; rfl, caller, he⟩))
  | opened _ _ _ hc hc' | panicked _ _ _ hc hc' => exact .inl (by rw [hc, hc']; rfl)
  | acknowledged caller t sp he _ _ => exact .inr (.inr (.inr ⟨caller, t, sp, he⟩))
  | reconnected _ _ _ _ _ hc' =>
    rcases hc' with ⟨_, hc'⟩ | hc' <;> exact .inr (.inl (by rw [hc']; rfl))
  | _ =>
    rename_i hc'
    exact .inr (.inl (by rw [hc']; rfl))

-- ---------------------------------------------------------------------------
-- The status
-- ---------------------------------------------------------------------------

/-- The supervisor does not get to the status between the CONNACK and `connect`
setting `Connected`. -/
def joinsAfterConnect : Lts.Guard System Event :=
  fun _ s e => !(e = .supervisor .joined && s.client.stage = .settingStatus)

/-- While the status is or is about to be `Connected`, both loops are joined. -/
def Joining (s : System) : Prop :=
  s.connectStatus = .connected ∨ s.client.stage = .settingStatus → s.conn.supervisor = .joining

theorem joining_step (hj : Joining s) (hg : joinsAfterConnect h s e)
    (hs : step codec options s e = some s') : Joining s' := by
  intro hup
  -- an event that leaves the supervisor and a status that is not `Connected`
  have hold (hsup : (connAfter options s e).supervisor = s.conn.supervisor)
      (hstatus : statusAfter s e = .connected → s.connectStatus = .connected)
      (hacc : ∀ caller t sp, e ≠ .connect (.accepted caller t sp)) :
      s'.conn.supervisor = .joining := by
    rw [conn_step hs, hsup]
    rw [status_step hs] at hup
    refine hj (hup.imp hstatus fun hset => ?_)
    rcases stage_step hs with h | h | ⟨h, _⟩ | ⟨caller, t, sp, he⟩
    · exact h ▸ hset
    · cases h.symm.trans hset
    · cases h.symm.trans hset
    · exact absurd he (hacc caller t sp)
  cases e with
  | connect e =>
    cases e with
    | accepted caller t sp =>
      rw [conn_step hs]
      rfl
    | statusSet caller t sp =>
      rw [conn_step hs]
      simp only [step, stepConnect, when_eq_some] at hs
      exact hj (.inr (by rw [hs.1.1]; rfl))
    | started caller | transportFailed caller t err | refused caller t item =>
      exact hold rfl (fun h => by cases h) (by simp)
    | _ => exact hold rfl id (by simp)
  | supervisor e =>
    have hclient := client_step hs rfl
    rw [status_step hs, hclient] at hup
    cases e with
    | joined =>
      rcases hup with hst | hset
      · cases hst
      · simp [joinsAfterConnect, hset] at hg
    | exitStored | cleanedUp =>
      simp only [step, stepSupervisor, when_eq_some] at hs
      cases (hj hup).symm.trans hs.1
  | writer e | call e | reader e | keepAlive e => cases e <;> exact hold rfl id (by simp)
  | block e | runtime e => exact hold rfl id (by simp)

/-- Under `joinsAfterConnect`, once the supervisor of the last accepted
connection has finished, the client is not connected. -/
theorem not_connected_of_finished (hr : Run codec options joinsAfterConnect h s)
    (hf : s.conn.supervisor = .finished) : s.isConnected = false := by
  have h0 : Joining init := by simp [Joining, init, ClientTask.stage]
  have hj : Joining s := hr.invariant (P := fun _ s => Joining s) h0
    fun _ hj hg hs => joining_step hj hg hs
  by_contra hc
  have := hj (.inl (by simpa [isConnected] using hc))
  rw [hf] at this
  cases this

-- Runs to play: a codec that accepts every string, and what the tasks do
-- for a connection and for a call when nothing comes between.

def acceptingCodec : Codec := ⟨fun _ => true, fun _ => true, fun _ _ => true⟩

/-- `connect` up to and with the CONNACK. -/
def connecting (caller : Caller) (token : TokenId) (sessionPresent : Bool) : List Event :=
  [.connect (.started caller), .connect (.transportOpened caller token),
    .connect (.accepted caller token sessionPresent)]

/-- The rest of `connect`. -/
def connected (caller : Caller) (token : TokenId) (sessionPresent : Bool) : List Event :=
  [.connect (.statusSet caller token sessionPresent),
    .connect (.returned caller token sessionPresent)]

/-- The server closes the connection, and it is torn down. -/
def closing : List Event :=
  [.reader .streamEnded, .writer .msgClosed, .supervisor .joined, .supervisor .exitStored,
    .supervisor .cleanedUp]

/-- A call that takes an identifier, up to and with its send. -/
def sending (frame : Frame) (pkid : UInt16) (packet : VariablePacket) : List Event :=
  [.call (.accepted frame.job frame.call), .call (.registered frame pkid)] ++
    frame.call.unsubscribes.tails.filterMap (fun
      | topic :: rest => some (.call (.topicAdded frame (some pkid) topic rest))
      | [] => none) ++
    [.call (.built frame (some pkid) packet), .call (.enqueued frame packet)]

/-- The write loop writes a packet of the outgoing channel. -/
def writing (packet : VariablePacket) (token : TokenId) : List Event :=
  [.writer (.outgoingTaken ⟨packet, some token⟩), .writer (.outgoingWritten ⟨packet, some token⟩)]

/-- A subscribe call of the application, and its SUBACK. -/
def subscribing (topic : String) (callback : OnMessageArrivedHandler) (token : TokenId)
    (pkid : UInt16) : List Event :=
  let frame : Frame := ⟨none, .subscribe topic .level1 callback, token⟩
  let packet : VariablePacket := .subscribe pkid [(topic, .level1)]
  sending frame pkid packet ++ [.call (.returned frame)] ++ writing packet token ++
    [.reader (.received (.suback pkid [.maximumQoSLevel1]))]

/-- An unsubscribe call of the application, and its UNSUBACK. -/
def unsubscribing (topic : String) (token : TokenId) (pkid : UInt16) : List Event :=
  let frame : Frame := ⟨none, .unsubscribe [topic], token⟩
  sending frame pkid (.unsubscribe pkid [topic]) ++ [.call (.returned frame)] ++
    writing (.unsubscribe pkid [topic]) token ++ [received (.unsuback pkid)]

/-- The default options, with `auto_reconnect`. -/
def reconnectingOptions : ClientOptions := { ClientOptions.new with autoReconnect := true }

/-- `block` notices that the connection is gone and reconnects. -/
def reconnecting (token : TokenId) (sessionPresent : Bool) : List Event :=
  [.block (.slept 0), .block (.notified 0)] ++ connecting (some 1) token sessionPresent ++
    connected (some 1) token sessionPresent ++ [.block (.reconnected 1 token)]

/-- The teardown overtakes `connect`, which has returned on a dead connection. -/
theorem stale_connected : ¬ ∀ h s, Run acceptingCodec .new Lts.anything h s →
    s.conn.supervisor = .finished → s.client = .idle → s.isConnected = false := by
  obtain ⟨h, s, hr, ht⟩ := Lts.exists_run (step acceptingCodec .new) Lts.anything init
    (connecting none 0 false ++ closing ++ connected none 0 false)
    (fun _ s => s.conn.supervisor = .finished && s.client = .idle && s.isConnected)
    (by decide +kernel)
  simp only [Bool.and_eq_true, decide_eq_true_eq] at ht
  intro hall
  have := hall h s hr ht.1.1 ht.1.2
  rw [ht.2] at this
  cases this

theorem not_connected_of_closed : ∃ h s, Run acceptingCodec .new joinsAfterConnect h s ∧
    s.conn.supervisor = .finished ∧ h.length = 10 ∧ s.isConnected = false := by
  obtain ⟨h, s, hr, ht⟩ := Lts.exists_run (step acceptingCodec .new) joinsAfterConnect init
    (connecting none 0 false ++ connected none 0 false ++ closing)
    (fun h s => s.conn.supervisor = .finished && h.length = 10) (by decide +kernel)
  simp only [Bool.and_eq_true, decide_eq_true_eq] at ht
  exact ⟨h, s, hr, ht.1, ht.2, not_connected_of_finished hr ht.1⟩

end System

end MesquitteClient
