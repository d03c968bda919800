import MesquitteClient.DeadEnds
import MesquitteClient.HalfOpen
import MesquitteClient.Lib.Rest
import MesquitteClient.Progress
import MesquitteClient.Reconnecting
import MesquitteClient.Teardown

/-!
# Whether the client can still recover

Whatever has happened to a connection, the client gets another one if the
server closes the old one and accepts the next, unless it is at a dead end
(`live_within_reach_iff`). No future is dropped here. On the way there the
teardown of the old connection ends, a call that was running returns, and what
is left of a resubscribe job fails call by call, so `block` comes round to its
next attempt.
-/

namespace MesquitteClient

def Supervisor.rank : Supervisor → Nat
  | .joining => 3
  | .statusSet => 2
  | .exitSet => 1
  | .finished => 0

/-- How much of the teardown is left. -/
def Connection.remains (conn : Connection) : Nat :=
  (if conn.reader = .ended then 0 else 1) + 2 * conn.msg.length + conn.writer.rank +
    conn.supervisor.rank

namespace System

variable {codec : Codec} {options : ClientOptions} {guard : Lts.Guard System Event}
variable {s s' : System} {e : Event} {h : Lts.History System Event}

/-- Nothing comes from the server but what accepts a connection or closes it,
the application makes no call but `connect`, and that does not panic. -/
def recovering : Event → Bool
  | .reader (.received _) | .call (.accepted ..) | .block .started => false
  | .connect (.transportPanicked ..) | .connect (.panicked ..) => false
  | _ => true

-- ---------------------------------------------------------------------------
-- Whom `block` waits for
-- ---------------------------------------------------------------------------

/-- The token is complete, or the teardown will complete it. -/
def Answerable (s : System) (t : TokenId) : Prop :=
  (s.cell t).complete ∨ s.registered t ∧ s.conn.supervisor ≠ .finished

/-- The tokens that `block` awaits, and the flag of `disconnect` while it is
busy. -/
structure Awaited (s : System) : Prop where
  connect : s.client = .awaitConnect cnt t → (s.cell t).complete
  calling : s.client = .call frame phase → frame.call.takesId → phase ≠ .registering →
    (s.cell frame.token).complete ∨ s.registered frame.token
  sent : s.client = .call frame .sent → frame.call.takesId → Answerable s frame.token
  awaiting : s.client = .job (.awaiting t rest) → Answerable s t
  manual : s.client.cnt.isSome → (∀ cnt, s.client ≠ .block cnt) → s.manualDisconnect = false

theorem awaited_init : Awaited init where
  connect h := by cases h
  calling h := by cases h
  sent h := by cases h
  awaiting h := by cases h
  manual h := by cases h

theorem finished_cases (hs : step codec options s e = some s')
    (hf : s'.conn.supervisor = .finished) :
    s.conn.supervisor = .finished ∨ e = .supervisor .cleanedUp := by
  rw [conn_step hs] at hf
  unfold connAfter at hf
  split at hf <;> first | exact .inl hf | (cases hf; done) | exact .inr rfl

theorem Answerable.step (ha : Answerable s t) (hreg : Registry codec s)
    (hlt : t < s.state.tokens.next) (hs : step codec options s e = some s') : Answerable s' t := by
  rcases ha with hc | ⟨hr, hf⟩
  · exact .inl (complete_step hs hlt hc)
  · rcases registered_kept hreg hs hr with h | h
    · exact .inl h
    · refine .inr ⟨h, fun hf' => ?_⟩
      rcases finished_cases hs hf' with h | rfl
      · exact hf h
      · -- `clean_up` leaves nothing registered
        obtain ⟨k, ho⟩ := (registered_iff s').mp ‹_›
        rw [owner_step hs] at ho
        cases ho

theorem complete_connectReturned (hs : step codec options s e = some s')
    (hlt : t < s.state.tokens.next)
    (he : (∃ err, e = .connect (.transportFailed caller t err)) ∨
      (∃ item, e = .connect (.refused caller t item)) ∨ ∃ sp, e = .connect (.returned caller t sp)) :
    (s'.cell t).complete := by
  rw [cell_step hs hlt]
  rcases he with ⟨err, rfl⟩ | ⟨item, rfl⟩ | ⟨sp, rfl⟩
  · simp [cellAfter, cleansUp, touched]
  · simp only [step, stepConnect, when_eq_some] at hs
    obtain ⟨token, htoken⟩ := Option.isSome_iff_exists.mp hs.1.2.2
    have hc := (refuse_cases (e := .connect (.refused caller t item)) htoken).2.1
    simp [cellAfter, cleansUp, touched, htoken, hc]
  · cases sp <;> simp [cellAfter, cleansUp, touched]

theorem Awaited.connect_step (ha : Awaited s) (hl : Lifecycle options s) (hreg : Registry codec s)
    (hs : step codec options s e = some s') (hc : s'.client = .awaitConnect cnt t) :
    (s'.cell t).complete := by
  cases client_cases hs with
  | other _ h =>
    have h₀ := h.symm.trans hc
    exact complete_step hs (hreg.client_lt (by rw [h₀]; rfl)) (ha.connect h₀)
  | answered caller he hcon h =>
    -- `block` calls `connect` when the status is `Disconnected`
    obtain ⟨rfl, _⟩ := ClientTask.connectReturned_eq (h.symm.trans hc)
    rcases ClientTask.connects_cases hcon with ⟨_, h₀⟩ | ⟨cnt', hc₀, _⟩
    · cases h₀
    · have hst := (hl.reconnecting hc₀).1
      rcases he with rfl | rfl
      · simp [step, stepConnect, when, hst] at hs
      · simp [step, stepConnect, when, hst] at hs
  | connectReturned caller u phase he h₀ h =>
    obtain ⟨_, rfl⟩ := ClientTask.connectReturned_eq (h.symm.trans hc)
    exact complete_connectReturned hs (hreg.client_lt (by rw [h₀]; rfl)) he
  | refused _ _ _ _ h | callReturned _ _ _ _ h =>
    rcases ClientTask.returned_cases _ with h' | ⟨_, h'⟩ <;> cases h'.symm.trans (h.symm.trans hc)
  | reconnected _ _ _ _ _ h => rcases h with ⟨_, h⟩ | h <;> cases h.symm.trans hc
  | _ =>
    rename_i h
    cases h.symm.trans hc

theorem Awaited.calling_step (ha : Awaited s) (hreg : Registry codec s)
    (hs : step codec options s e = some s') (hc : s'.client = .call frame phase)
    (hid : frame.call.takesId) (hp : phase ≠ .registering) :
    (s'.cell frame.token).complete ∨ s'.registered frame.token := by
  have hold {phase' : Phase} (h₀ : s.client = .call frame phase') (hp' : phase' ≠ .registering) :
      (s'.cell frame.token).complete ∨ s'.registered frame.token := by
    rcases ha.calling h₀ hid hp' with h | h
    · exact .inl (complete_step hs (hreg.frame_lt h₀) h)
    · exact registered_kept hreg hs h
  cases call_cases hs hc with
  | other _ h₀ => exact hold h₀ hp
  | accepted job call _ _ hf =>
    subst hf
    exact absurd (if_pos hid) hp
  | registered pkid he h₀ =>
    subst he
    exact .inr ((registered_iff s').mpr ⟨pkid, (owner_step hs).trans (if_pos rfl)⟩)
  | topicAdded _ _ _ _ h₀ | built _ _ _ h₀ _ | enqueued _ _ h₀ | sendFailed _ _ h₀ =>
    exact hold h₀ (by simp)

theorem Awaited.sent_step (ha : Awaited s) (hl : Lifecycle options s) (hreg : Registry codec s)
    (hs : step codec options s e = some s') (hc : s'.client = .call frame .sent)
    (hid : frame.call.takesId) : Answerable s' frame.token := by
  generalize hphase : Phase.sent = phase at hc
  cases call_cases hs hc with
  | other _ h₀ =>
    subst hphase
    exact (ha.sent h₀ hid).step hreg (hreg.frame_lt h₀) hs
  | enqueued packet he h₀ =>
    -- there is a write loop, so the teardown is to come
    subst he
    have hw := hs
    simp only [step, stepCall, when_eq_some] at hw
    have hf : s.conn.supervisor ≠ .finished := fun hf =>
      hw.1.2.1 (hl.ended (by simp [hf])).2
    have hanswer : Answerable s frame.token :=
      (ha.calling h₀ hid (by simp)).imp_right fun h => ⟨h, hf⟩
    exact hanswer.step hreg (hreg.frame_lt h₀) hs
  | sendFailed packet he h₀ =>
    subst he
    exact .inl (complete_touched hs (hreg.frame_lt h₀) rfl (by simp) rfl)
  | accepted job call _ _ hf =>
    unfold Call.begin at hphase
    split at hphase <;> cases hphase
  | _ => cases hphase

theorem Awaited.awaiting_step (ha : Awaited s) (hreg : Registry codec s) (hj : Jobs codec s)
    (hs : step codec options s e = some s') (hc : s'.client = .job (.awaiting t rest)) :
    Answerable s' t := by
  cases client_cases hs with
  | other _ h =>
    have h₀ := h.symm.trans hc
    exact (ha.awaiting h₀).step hreg (hreg.client_lt (by rw [h₀]; rfl)) hs
  | refused job call he _ h =>
    subst he
    have ht := h.symm.trans hc
    unfold ClientTask.returned at ht
    split at ht <;> cases ht
    left
    rw [cell_created hs rfl]
    rfl
  | callReturned frame phase he h₀ h =>
    have ht := h.symm.trans hc
    unfold ClientTask.returned at ht
    split at ht <;> cases ht
    rename_i hjob
    obtain ⟨topic, qos, callback, hcall, _⟩ := hj.call h₀ (by simp [hjob])
    have hlt := hreg.frame_lt h₀
    rcases he with rfl | ⟨pkid, topics, rfl⟩ | rfl
    · exact .inl (complete_touched hs hlt rfl (by simp) rfl)
    · exact .inl (complete_touched hs hlt rfl (by simp) rfl)
    · have hsent := hs
      simp only [step, stepCall, when_eq_some] at hsent
      exact (ha.sent hsent.1 (by rw [hcall]; rfl)).step hreg hlt hs
  | answered _ _ _ h | connectReturned _ _ _ _ _ h =>
    rcases ClientTask.connectReturned_cases _ _ with h' | ⟨_, h'⟩ <;>
      cases h'.symm.trans (h.symm.trans hc)
  | reconnected _ _ _ _ _ h => rcases h with ⟨_, h⟩ | h <;> cases h.symm.trans hc
  | _ =>
    rename_i h
    cases h.symm.trans hc

/-- A job subscribes, so it does not raise the flag. -/
theorem manual_of_job (hj : Jobs codec s) (hs : step codec options s e = some s')
    (hc : s.client.cnt.isSome) (hm : s.manualDisconnect = false) : s'.manualDisconnect = false := by
  rw [(flags_step hs).1]
  cases e with
  | call e =>
    cases e with
    | built frame pkid packet =>
      simp only [step, stepCall, when_eq_some] at hs
      have hjob : frame.job.isSome := by simpa [hs.1.1, ClientTask.cnt] using hc
      obtain ⟨topic, qos, callback, hcall, _⟩ := hj.call hs.1.1 hjob
      simp [manualAfter, hm, hcall]
    | _ => exact hm
  | connect e => cases e <;> first | rfl | exact hm
  | _ e => exact hm

theorem Awaited.manual_step (ha : Awaited s) (hw : Wanted options s) (hj : Jobs codec s)
    (hs : step codec options s e = some s') (hc : s'.client.cnt.isSome)
    (hb : ∀ cnt, s'.client ≠ .block cnt) : s'.manualDisconnect = false := by
  have hkept (h : s.client.cnt.isSome) (h' : ∀ cnt, s.client ≠ .block cnt) :
      s'.manualDisconnect = false := manual_of_job hj hs h (ha.manual h h')
  by_cases hblock : ∃ e', e = .block e'
  · obtain ⟨e, rfl⟩ := hblock
    cases e with
    | started | jobDone =>
      simp only [step, stepBlock, when_eq_some] at hs
      obtain ⟨_, rfl⟩ := hs
      exact absurd rfl (hb 0)
    | exhausted cnt =>
      simp only [step, stepBlock, when_eq_some] at hs
      obtain ⟨_, rfl⟩ := hs
      cases hc
    | slept cnt =>
      simp only [step, stepBlock, when_eq_some] at hs
      obtain ⟨⟨h₀, _⟩, rfl⟩ := hs
      rcases s.afterSleep_client options with h | h
      · exact absurd (h.trans h₀) (hb cnt)
      · rw [h] at hc
        cases hc
    | notified cnt =>
      have hn := hs
      simp only [step, stepBlock, when_eq_some] at hn
      exact manual_kept hs (hw.notify hn.1.2.2) (by simp [hn.1.1])
    | reconnectFailed cnt t | reconnected cnt t | jobAwaited t rest =>
      have h₀ := hs
      simp only [step, stepBlock, when_eq_some] at h₀
      exact hkept (by simp [h₀.1.1, ClientTask.cnt]) (by simp [h₀.1.1])
    | jobCleanUp | jobClone | jobClear subs =>
      have h₀ := hs
      simp only [step, stepBlock, when_eq_some] at h₀
      exact hkept (by simp [h₀.1, ClientTask.cnt]) (by simp [h₀.1])
  · rcases counter_step hs fun e' he => hblock ⟨e', he⟩ with h | ⟨h, _⟩
    · rw [h] at hc
      cases hc
    · refine hkept (h ▸ hc) fun cnt hcnt => ?_
      cases he : ofClient e with
      | false => exact hb cnt ((client_step hs he).trans hcnt)
      | true => exact hblock (only_block hs hcnt he)

theorem awaited_run (hr : Run codec options guard h s) : Awaited s := by
  refine hr.invariant (P := fun _ s => Awaited s) awaited_init fun {h s e s'} hr ha _ hs => ?_
  have hl := lifecycle hr
  have hreg := registry hr
  exact
    { connect := ha.connect_step hl hreg hs
      calling := ha.calling_step hreg hs
      sent := ha.sent_step hl hreg hs
      awaiting := ha.awaiting_step hreg (jobs hr) hs
      manual := ha.manual_step (wanted_run hr) (jobs hr) hs }

-- ---------------------------------------------------------------------------
-- The teardown
-- ---------------------------------------------------------------------------

/-- The end of the stream, and the steps of the write loop and the supervisor. -/
def tearing : Event → Bool
  | .reader .streamEnded | .reader (.respondFailed _) | .writer _ | .supervisor _ => true
  | _ => false

structure Closable (options : ClientOptions) (s : System) : Prop where
  lifecycle : Lifecycle options s
  closing : Closing s
  stage : s.client.stage = .settled
  notLive : ¬ Live s
  status : s.conn.supervisor = .finished → s.connectStatus = .disconnected

theorem ofClient_of_tearing (ht : tearing e) : ofClient e = false := by
  cases e with
  | call e | connect e | block e => cases ht
  | _ e => rfl

theorem Closable.kept (hc : Closable options s) (ht : tearing e)
    (hs : step codec options s e = some s') : Closable options s' where
  lifecycle := lifecycle_step hc.lifecycle hs
  closing := closing_step hc.closing hs
  stage := by rw [client_step hs (ofClient_of_tearing ht), hc.stage]
  notLive h := hc.notLive (h.origin hs (ofClient_of_tearing ht))
  status hf := by
    rcases finished_cases hs hf with h | rfl
    · rw [status_step hs]
      cases e with
      | supervisor e => cases e <;> first | exact hc.status h | rfl
      | reader e | writer e => exact hc.status h
      | _ e => cases ht
    · simp only [step, stepSupervisor, when_eq_some] at hs
      rw [← hs.2]
      exact hc.closing.status (by simp [statusLocked, hs.1])

/-- Some such step is next. -/
theorem Closable.next (codec : Codec) (hc : Closable options s) (hf : s.conn.supervisor ≠ .finished) :
    ∃ e s', tearing e ∧ step codec options s e = some s' ∧ s'.conn.remains < s.conn.remains := by
  have hnext (e : Event) (he : tearing e) (hs : (step codec options s e).isSome)
      (hr : (connAfter options s e).remains < s.conn.remains) :
      ∃ e s', tearing e ∧ step codec options s e = some s' ∧
        s'.conn.remains < s.conn.remains := by
    obtain ⟨s', hs⟩ := Option.isSome_iff_exists.mp hs
    exact ⟨e, s', he, hs, by rwa [conn_step hs]⟩
  cases hsup : s.conn.supervisor with
  | finished => exact absurd hsup hf
  | exitSet =>
    refine hnext (.supervisor .cleanedUp) rfl (by simp [step, stepSupervisor, when, hsup]) ?_
    simp only [connAfter, Connection.remains, Supervisor.rank, hsup]
    exact Nat.lt_succ_self _
  | statusSet =>
    refine hnext (.supervisor .exitStored) rfl (by simp [step, stepSupervisor, when, hsup]) ?_
    simp only [connAfter, Connection.remains, Supervisor.rank, hsup]
    exact Nat.lt_succ_self _
  | joining =>
    have hwriter (hreader : s.conn.reader ≠ .ended) : s.conn.writer = .ended := by
      by_contra hw
      refine hc.notLive ⟨?_, hreader, hw⟩
      rcases hc.lifecycle.joining hsup with h | h
      · cases hc.stage.symm.trans h
      · simpa [isConnected] using h
    cases hreader : s.conn.reader with
    | reading =>
      exact hnext (.reader .streamEnded) rfl (by simp [step, stepReader, when, hreader])
        (by simp [connAfter, Connection.remains, hreader])
    | responding resp =>
      have hw := hwriter (by simp [hreader])
      exact hnext (.reader (.respondFailed resp)) rfl
        (by simp [step, stepReader, when, hreader, hw])
        (by simp [connAfter, Connection.remains, hreader])
    | ended =>
      -- the write loop drains the message channel, finds it closed, and ends
      cases hw : s.conn.writer with
      | selecting =>
        cases hmsg : s.conn.msg with
        | nil =>
          exact hnext (.writer .msgClosed) rfl (by simp [step, stepWriter, when, hreader, hw, hmsg])
            (by simp [connAfter, Connection.remains, Connection.writerEnds, Writer.rank, hreader, hw,
              hmsg])
        | cons packet rest =>
          refine hnext (.writer (.msgTaken packet)) rfl (by simp [step, stepWriter, when, hw, hmsg])
            ?_
          simp only [connAfter, Connection.remains, Writer.rank, hw, hmsg, List.tail_cons,
            List.length_cons]
          omega
      | writingMsg packet =>
        exact hnext (.writer (.msgWritten packet)) rfl (by simp [step, stepWriter, when, hw])
          (by simp [connAfter, Connection.remains, Writer.rank, hreader, hw])
      | writingOutgoing o =>
        exact hnext (.writer (.outgoingWritten o)) rfl (by simp [step, stepWriter, when, hw])
          (by simp [connAfter, Connection.remains, Writer.rank, hreader, hw])
      | ended =>
        exact hnext (.supervisor .joined) rfl
          (by simp [step, stepSupervisor, when, hsup, hreader, hw])
          (by simp [connAfter, Connection.remains, Supervisor.rank, hsup, hreader, hw])

/-- What a teardown leaves as it was. -/
structure TearsDown (s s' : System) : Prop where
  client : s'.client = s.client
  manual : s'.manualDisconnect = s.manualDisconnect
  notify : s'.notify = s.notify

theorem TearsDown.kept (hd : TearsDown s₀ s) (ht : tearing e)
    (hs : step codec options s e = some s') : TearsDown s₀ s' := by
  obtain ⟨hmanual, hnotify⟩ := flags_step hs
  refine ⟨(client_step hs (ofClient_of_tearing ht)).trans hd.client, ?_, ?_⟩
  · rw [hmanual, ← hd.manual]
    cases e with
    | call e | connect e | block e => cases ht
    | _ e => rfl
  · rw [hnotify, ← hd.notify]
    cases e with
    | call e | connect e | block e => cases ht
    | _ e => rfl

/-- If the server closes its end, the teardown is within reach, and leaves the
client task where it is. -/
theorem Closable.torn (codec : Codec) (hc : Closable options s) :
    ∃ s', Lts.Reaches (step codec options) tearing s s' ∧ s'.conn.supervisor = .finished ∧
      s'.connectStatus = .disconnected ∧ TearsDown s s' := by
  have hreach : ∃ s', Lts.Reaches (step codec options) tearing s s' ∧ Closable options s' ∧
      s'.conn.supervisor = .finished := by
    refine Lts.reaches_of_rank (Closable options) (fun s => s.conn.supervisor = .finished)
      (fun s => s.conn.remains) hc fun {s} hc hf => ?_
    obtain ⟨e, s', he, hs, hlt⟩ := hc.next codec hf
    exact ⟨e, s', he, hs, hc.kept he hs, hlt⟩
  obtain ⟨s', hp, hc', hf⟩ := hreach
  exact ⟨s', hp, hf, hc'.status hf, hp.kept ⟨rfl, rfl, rfl⟩ fun hd he hs => hd.kept he hs⟩

-- ---------------------------------------------------------------------------
-- The way to the next attempt
-- ---------------------------------------------------------------------------

/-- The last connection is torn down, and the client task is not stuck. -/
structure Lost (options : ClientOptions) (s : System) : Prop where
  finished : s.conn.supervisor = .finished
  status : s.connectStatus = .disconnected
  stage : s.client.stage = .settled
  free : ∀ cnt, ¬ Idling options cnt s

theorem Lost.not_locked (hl : Lost options s) : ¬ s.statusLocked :=
  not_statusLocked.mpr (.inr hl.finished)

theorem not_idling_of_client (hc : ∀ cnt, s.client ≠ .block cnt) : ∀ cnt, ¬ Idling options cnt s :=
  fun cnt h => hc cnt h.client

theorem not_idling_of_manual (hm : s.manualDisconnect = false) : ∀ cnt, ¬ Idling options cnt s := by
  intro cnt h
  have hm' := h.manual
  rw [hm] at hm'
  cases hm'

/-- A call that is running returns. -/
theorem Lost.call_returns (codec : Codec) (hl : Lost options s) (hc : s.client = .call frame phase) :
    ∃ s', Lts.Reaches (step codec options) onward s s' ∧ Lost options s' ∧
      s'.client = .returned frame := by
  obtain ⟨s', hp, hrest⟩ : ∃ s', Lts.Reaches (step codec options) onward s s' ∧
      Lts.AtRest (step codec options) onward s' := Lts.exists_rest rank_onward s
  have hkept := hp.kept (P := fun s => (s.conn.supervisor = .finished ∧
      s.connectStatus = .disconnected) ∧
      ((∃ phase, s.client = .call frame phase) ∨ s.client = .returned frame))
    ⟨⟨hl.finished, hl.status⟩, .inl ⟨phase, hc⟩⟩ fun {s e s'} hk he hs => by
      refine ⟨?_, call_onward hk.2 he hs⟩
      rw [conn_step hs, status_step hs]
      cases e with
      | connect e | block e | supervisor e | runtime e => cases he
      | _ e => cases e <;> exact hk.1
  have hret : s'.client = .returned frame :=
    hkept.2.resolve_left fun ⟨_, h⟩ => (rested hrest).client h
  refine ⟨s', hp, ⟨hkept.1.1, hkept.1.2, ?_, not_idling_of_client fun cnt h => ?_⟩, hret⟩
  · rw [hret]
    exact ClientTask.stage_returned frame
  · rcases ClientTask.returned_cases frame with h' | ⟨_, h'⟩ <;>
      cases h'.symm.trans (hret.symm.trans h)

/-- How far the client task is from its next attempt. -/
def attemptRank (s : System) : Nat :=
  match s.client with
  | .idle | .reconnect _ => 1
  | .block _ => if s.notify then 2 else 3
  | .job (.next rest) => 2 * rest.length + 4
  | .job (.awaiting _ rest) => 2 * rest.length + 5
  | .job (.clear subs) => 2 * subs.length + 5
  | .job .clone => 2 * s.state.subscriptions.toList.length + 6
  | .job .cleanUp => 2 * s.state.subscriptions.toList.length + 7
  | .awaitConnect .. => 2 * s.state.subscriptions.toList.length + 8
  | .connect _ _ (.connected _) => 2 * s.state.subscriptions.toList.length + 9
  | _ => 0

/-- The client task is on its way to an attempt, or in one. -/
def Attempts (options : ClientOptions) (s : System) : Prop :=
  s.client.stage = .handshaking ∨ Lost options s ∧ ∀ frame phase, s.client ≠ .call frame phase

/-- A step that brings the client task nearer to it. -/
def Nearer (codec : Codec) (options : ClientOptions) (s : System) : Prop :=
  ∃ e s', recovering e ∧ step codec options s e = some s' ∧ Attempts options s' ∧
    attemptRank s' < attemptRank s

/-- A step that leaves the connection and the status. -/
theorem Lost.nearer (hl : Lost options s) (e : Event) (s' : System) (he : recovering e)
    (hs : step codec options s e = some s')
    (hsup : (connAfter options s e).supervisor = s.conn.supervisor)
    (hst : statusAfter s e = s.connectStatus) (hstage : s'.client.stage = .settled)
    (hfree : ∀ cnt, ¬ Idling options cnt s') (hcall : ∀ frame phase, s'.client ≠ .call frame phase)
    (hr : attemptRank s' < attemptRank s) : Nearer codec options s := by
  refine ⟨e, s', he, hs, .inr ⟨⟨?_, ?_, hstage, hfree⟩, hcall⟩, hr⟩
  · rw [conn_step hs, hsup, hl.finished]
  · rw [status_step hs, hst, hl.status]

theorem Lost.block_nearer (hl : Lost options s) (hc : s.client = .block cnt) :
    Nearer codec options s := by
  have hrank : 1 < attemptRank s := by
    simp only [attemptRank, hc]
    split <;> decide
  by_cases hx : retriesExhausted options cnt
  · exact hl.nearer (.block (.exhausted cnt)) _ rfl (if_pos ⟨hc, hx⟩) rfl rfl rfl
      (not_idling_of_client (by simp)) (by simp) hrank
  cases hn : s.notify with
  | true =>
    exact hl.nearer (.block (.notified cnt)) _ rfl (if_pos ⟨hc, hx, hn⟩) rfl rfl rfl
      (not_idling_of_client (by simp)) (by simp) hrank
  | false =>
    have hm : s.manualDisconnect = false := by
      by_contra hm
      exact hl.free cnt ⟨hc, by simpa using hm, hn, hx⟩
    have hsleep : step codec options s (.block (.slept cnt)) = some (afterSleep options s) :=
      if_pos ⟨hc, hx, hl.not_locked⟩
    cases hauto : options.autoReconnect with
    | true =>
      have heq : afterSleep options s = { s with notify := true } := by
        simp [afterSleep, hl.status, hm, hauto]
      rw [heq] at hsleep
      refine hl.nearer _ _ rfl hsleep rfl rfl hl.stage (not_idling_of_manual hm) (by simp [hc]) ?_
      simp [attemptRank, hc, hn]
    | false =>
      have heq : afterSleep options s = { s with client := .idle } := by
        simp [afterSleep, hl.status, hm, hauto]
      rw [heq] at hsleep
      exact hl.nearer _ _ rfl hsleep rfl rfl rfl (not_idling_of_client (by simp)) (by simp) hrank

theorem Lost.awaitConnect_nearer (hl : Lost options s) (ha : Awaited s)
    (hc : s.client = .awaitConnect cnt t) : Nearer codec options s := by
  have hm := ha.manual (by simp [hc, ClientTask.cnt]) (by simp [hc])
  have hcomplete := ha.connect hc
  have hrank {cnt : UInt16} : attemptRank { s with client := .block cnt } < attemptRank s := by
    simp only [attemptRank, hc]
    split <;> omega
  by_cases herr : (s.cell t).error.isSome
  · exact hl.nearer (.block (.reconnectFailed cnt t)) _ rfl (if_pos ⟨hc, hcomplete, herr⟩) rfl rfl
      rfl (not_idling_of_manual hm) (by simp) hrank
  have hstep : step codec options s (.block (.reconnected cnt t)) =
      some { s with client := if (s.cell t).sessionPresent then .block 0 else .job .cleanUp } :=
    if_pos ⟨hc, hcomplete, by simpa using herr⟩
  cases hsp : (s.cell t).sessionPresent with
  | true =>
    simp only [hsp, if_true] at hstep
    exact hl.nearer _ _ rfl hstep rfl rfl rfl (not_idling_of_manual hm) (by simp) hrank
  | false =>
    simp only [hsp, Bool.false_eq_true, if_false] at hstep
    refine hl.nearer _ _ rfl hstep rfl rfl rfl (not_idling_of_manual hm) (by simp) ?_
    simp [attemptRank, hc]

/-- The rest of a job fails call by call. -/
theorem Lost.job_nearer (hl : Lost options s) (ha : Awaited s) (hc : s.client = .job phase) :
    Nearer codec options s := by
  have hm := ha.manual (by simp [hc, ClientTask.cnt]) (by simp [hc])
  cases phase with
  | cleanUp =>
    refine hl.nearer (.block .jobCleanUp) _ rfl (if_pos hc) rfl rfl rfl (not_idling_of_manual hm)
      (by simp) ?_
    simp [attemptRank, hc, State.cleanUp]
  | clone =>
    refine hl.nearer (.block .jobClone) _ rfl (if_pos hc) rfl rfl rfl (not_idling_of_manual hm)
      (by simp) ?_
    simp [attemptRank, hc]
  | clear subs =>
    refine hl.nearer (.block (.jobClear subs)) _ rfl (if_pos hc) rfl rfl rfl
      (not_idling_of_manual hm) (by simp) ?_
    simp [attemptRank, hc]
  | awaiting t rest =>
    have hcomplete : (s.cell t).complete :=
      (ha.awaiting hc).resolve_right fun h => h.2 hl.finished
    refine hl.nearer (.block (.jobAwaited t rest)) _ rfl (if_pos ⟨hc, hcomplete⟩) rfl rfl rfl
      (not_idling_of_manual hm) (by simp) ?_
    simp [attemptRank, hc]
  | next rest =>
    cases rest with
    | nil =>
      refine hl.nearer (.block .jobDone) _ rfl (if_pos hc) rfl rfl rfl (not_idling_of_manual hm)
        (by simp) ?_
      simp only [attemptRank, hc]
      split <;> simp
    | cons p rest =>
      have hcalls : s.client.calls (some rest) (.subscribe p.1 p.2.qos p.2.handler) := by
        simp [hc, ClientTask.calls]
      have hnot : ¬ s.isConnected := by simp [isConnected, hl.status]
      refine hl.nearer (.call (.refused (some rest) (.subscribe p.1 p.2.qos p.2.handler))) _ rfl
        (if_pos ⟨hcalls, hl.not_locked, hnot⟩) rfl rfl rfl (not_idling_of_manual hm)
        (by simp [ClientTask.returned]) ?_
      simp only [attemptRank, hc, ClientTask.returned, List.length_cons]
      omega

theorem Lost.next (hl : Lost options s) (ha : Awaited s)
    (hcall : ∀ frame phase, s.client ≠ .call frame phase) : Nearer codec options s := by
  have hstage := hl.stage
  cases hc : s.client with
  | idle =>
    refine ⟨.connect (.started none), _, rfl, if_pos ⟨by rw [hc]; rfl, hl.not_locked, hl.status⟩,
      .inl rfl, ?_⟩
    simp [attemptRank, hc]
  | reconnect cnt =>
    refine ⟨.connect (.started (some cnt)), _, rfl,
      if_pos ⟨by simp [hc, ClientTask.connects], hl.not_locked, hl.status⟩, .inl rfl, ?_⟩
    simp [attemptRank, hc]
  | call frame phase => exact absurd hc (hcall frame phase)
  | panicked =>
    rw [hc] at hstage
    cases hstage
  | connect caller t phase =>
    rw [hc] at hstage
    cases phase with
    | transport | handshake | spawned sp => cases hstage
    | connected sp =>
      refine hl.nearer (.connect (.returned caller t sp)) _ rfl (if_pos hc) rfl rfl
        (ClientTask.stage_connectReturned caller t) (not_idling_of_manual rfl)
        (fun _ _ => ClientTask.connectReturned_ne_call) ?_
      cases caller with
      | none => simp [attemptRank, hc, ClientTask.connectReturned]
      | some cnt =>
        simp only [attemptRank, hc, ClientTask.connectReturned]
        exact Nat.lt_succ_self _
  | block cnt => exact hl.block_nearer hc
  | awaitConnect cnt t => exact hl.awaitConnect_nearer ha hc
  | job phase => exact hl.job_nearer ha hc

theorem recovering_of_tearing (ht : tearing e) : recovering e := by
  cases e with
  | reader e => cases e <;> first | rfl | cases ht
  | call e | connect e | block e => cases ht
  | _ e => rfl

theorem recovering_of_onward (ho : onward e) : recovering e := by
  cases e with
  | reader e => cases e <;> first | rfl | cases ho
  | call e => cases e <;> first | rfl | cases ho
  | connect e | block e => cases ho
  | _ e => rfl

/-- From there the client task gets to its next attempt. -/
theorem attempts_reach (hr : Run codec options Lts.anything h s) (ha : Attempts options s) :
    ∃ s', Lts.Reaches (step codec options) recovering s s' ∧ s'.client.stage = .handshaking := by
  have hreach : ∃ s', Lts.Reaches (step codec options) recovering s s' ∧
      ((∃ h, Run codec options Lts.anything h s') ∧ Attempts options s') ∧
      s'.client.stage = .handshaking := by
    refine Lts.reaches_of_rank
      (fun s => (∃ h, Run codec options Lts.anything h s) ∧ Attempts options s)
      (fun s => s.client.stage = .handshaking) attemptRank ⟨⟨h, hr⟩, ha⟩ ?_
    rintro s ⟨⟨h, hr⟩, ha⟩ hn
    obtain ⟨hl, hcall⟩ := ha.resolve_left hn
    obtain ⟨e, s', he, hs, ha', hlt⟩ := hl.next (awaited_run hr) hcall
    exact ⟨e, s', he, hs, ⟨⟨_, hr.snoc rfl hs⟩, ha'⟩, hlt⟩
  obtain ⟨s', hp, _, hgoal⟩ := hreach
  exact ⟨s', hp, hgoal⟩

theorem Lost.attempt (hl : Lost options s) (hr : Run codec options Lts.anything h s) :
    ∃ s', Lts.Reaches (step codec options) recovering s s' ∧ s'.client.stage = .handshaking := by
  by_cases hcall : ∃ frame phase, s.client = .call frame phase
  · obtain ⟨frame, phase, hc⟩ := hcall
    obtain ⟨s₁, hp, hl₁, hret⟩ := hl.call_returns codec hc
    obtain ⟨h₁, hr₁⟩ := hp.run hr
    have hnot (frame' : Frame) (phase' : Phase) : s₁.client ≠ .call frame' phase' := by
      rw [hret]
      exact ClientTask.returned_ne_call
    obtain ⟨s', hp', hgoal⟩ := attempts_reach hr₁ (.inr ⟨hl₁, hnot⟩)
    exact ⟨s', (hp.mono fun _ => recovering_of_onward).trans hp', hgoal⟩
  · exact attempts_reach hr (.inr ⟨hl, fun frame phase hc => hcall ⟨frame, phase, hc⟩⟩)

-- ---------------------------------------------------------------------------
-- The way to the next connection
-- ---------------------------------------------------------------------------

theorem not_panicked (hp : Lts.Reaches (step codec options) recovering s s')
    (hn : s.client ≠ .panicked) : s'.client ≠ .panicked := by
  refine hp.kept (P := fun s => s.client ≠ .panicked) hn fun {s e s'} hn he hs hp => ?_
  cases client_cases hs with
  | other _ hc => exact hn (hc.symm.trans hp)
  | panicked _ _ he' => rcases he' with rfl | rfl <;> cases he
  | refused _ _ _ _ hc' | callReturned _ _ _ _ hc' =>
    rcases ClientTask.returned_cases _ with h | ⟨_, h⟩ <;> cases h.symm.trans (hc'.symm.trans hp)
  | answered _ _ _ hc' | connectReturned _ _ _ _ _ hc' =>
    rcases ClientTask.connectReturned_cases _ _ with h | ⟨_, h⟩ <;>
      cases h.symm.trans (hc'.symm.trans hp)
  | reconnected _ _ _ _ _ hc' => rcases hc' with ⟨_, hc'⟩ | hc' <;> cases hc'.symm.trans hp
  | _ =>
    rename_i hc'
    cases hc'.symm.trans hp

/-- A live connection is within reach. -/
def Recoverable (codec : Codec) (options : ClientOptions) (s : System) : Prop :=
  ∃ s', Lts.Reaches (step codec options) recovering s s' ∧ Live s'

theorem Recoverable.head (he : recovering e) (hs : step codec options s e = some s₁)
    (hrec : Recoverable codec options s₁) : Recoverable codec options s := by
  obtain ⟨s', hp, hlive⟩ := hrec
  exact ⟨s', .head he hs hp, hlive⟩

theorem Recoverable.trans (hp : Lts.Reaches (step codec options) recovering s s₁)
    (hrec : Recoverable codec options s₁) : Recoverable codec options s := by
  obtain ⟨s', hp', hlive⟩ := hrec
  exact ⟨s', hp.trans hp', hlive⟩

/-- The server accepts the attempt that is under way. -/
theorem recoverable_of_handshake (hc : s.client = .connect caller t .handshake) :
    Recoverable codec options s := by
  obtain ⟨s₁, hs₁⟩ : ∃ s₁, step codec options s (.connect (.accepted caller t true)) = some s₁ :=
    ⟨_, if_pos hc⟩
  have hconn₁ : s₁.conn = {} := conn_step hs₁
  have hc₁ : s₁.client = .connect caller t (.spawned true) := by
    simp only [step, stepConnect, when_eq_some] at hs₁
    rw [← hs₁.2]
  obtain ⟨s₂, hs₂⟩ : ∃ s₂, step codec options s₁ (.connect (.statusSet caller t true)) = some s₂ :=
    ⟨_, if_pos ⟨hc₁, by simp [statusLocked, hconn₁]⟩⟩
  have hconn₂ : s₂.conn = {} := (conn_step hs₂).trans hconn₁
  refine .head rfl hs₁ (.head rfl hs₂ ⟨s₂, .refl _, ?_, ?_, ?_⟩)
  · exact decide_eq_true (status_step hs₂)
  · simp [hconn₂]
  · simp [hconn₂]

theorem recoverable_of_handshaking (hok : (buildConnectPacket codec options).isSome)
    (hstage : s.client.stage = .handshaking) (hnot : s.client ≠ .panicked) :
    Recoverable codec options s := by
  cases hc : s.client with
  | connect caller t phase =>
    cases phase with
    | transport =>
      exact .head (e := .connect (.transportOpened caller t)) rfl (if_pos ⟨hc, hok⟩)
        (recoverable_of_handshake rfl)
    | handshake => exact recoverable_of_handshake hc
    | _ =>
      rw [hc] at hstage
      cases hstage
  | panicked => exact absurd hc hnot
  | _ =>
    rw [hc] at hstage
    cases hstage

theorem recoverable_of_settled (hok : (buildConnectPacket codec options).isSome)
    (hr : Run codec options Lts.anything h s) (hstage : s.client.stage = .settled)
    (hd : ¬ DeadEnd options s) : Recoverable codec options s := by
  have hl := lifecycle hr
  by_cases hlive : Live s
  · exact ⟨s, .refl s, hlive⟩
  have hfree (cnt : UInt16) : ¬ Idling options cnt s := fun h => hd (.idling h hlive)
  -- first the teardown of the last connection, if it is still to come
  obtain ⟨s₁, hp, hlost⟩ : ∃ s₁, Lts.Reaches (step codec options) recovering s s₁ ∧
      Lost options s₁ := by
    by_cases hf : s.conn.supervisor = .finished
    · refine ⟨s, .refl s, hf, ?_, hstage, hfree⟩
      cases hst : s.connectStatus with
      | disconnected => rfl
      | connecting => exact absurd hstage (hl.connecting hst)
      | connected => exact absurd (.deaf ⟨by simp [hf], .inl (by simp [isConnected, hst])⟩) hd
    · have hc : Closable options s := ⟨hl, closing_run hr, hstage, hlive, fun h => absurd h hf⟩
      obtain ⟨s₁, hp, hf₁, hst₁, hsame⟩ := hc.torn codec
      refine ⟨s₁, hp.mono fun _ => recovering_of_tearing, hf₁, hst₁, by rw [hsame.client, hstage],
        fun cnt h => hfree cnt ?_⟩
      exact ⟨hsame.client ▸ h.client, hsame.manual ▸ h.manual, hsame.notify ▸ h.notify, h.retries⟩
  obtain ⟨h₁, hr₁⟩ := hp.run hr
  obtain ⟨s₂, hp₂, hstage₂⟩ := hlost.attempt hr₁
  have hnot : s.client ≠ .panicked := fun hc => by
    rw [hc] at hstage
    cases hstage
  exact (recoverable_of_handshaking hok hstage₂ (not_panicked (hp.trans hp₂) hnot)).trans
    (hp.trans hp₂)

theorem recoverable_of_not_deadEnd (hok : (buildConnectPacket codec options).isSome)
    (hr : Run codec options Lts.anything h s) (hd : ¬ DeadEnd options s) :
    Recoverable codec options s := by
  cases hstage : s.client.stage with
  | settled => exact recoverable_of_settled hok hr hstage hd
  | handshaking => exact recoverable_of_handshaking hok hstage fun hp => hd (.panicked hp)
  | settingStatus =>
    obtain ⟨caller, t, sp, hc⟩ := settingStatus_cases hstage
    have hjoining : s.conn.supervisor = .joining := by
      by_contra hne
      exact hd (.deaf ⟨hne, .inr hstage⟩)
    obtain ⟨s₁, hs⟩ : ∃ s₁, step codec options s (.connect (.statusSet caller t sp)) = some s₁ :=
      ⟨_, if_pos ⟨hc, by simp [statusLocked, hjoining]⟩⟩
    have hc₁ : s₁.client = .connect caller t (.connected sp) := by
      simp only [step, stepConnect, when_eq_some] at hs
      rw [← hs.2]
    refine .head rfl hs (recoverable_of_settled hok (hr.snoc rfl hs) (by rw [hc₁]; rfl) ?_)
    intro hd₁
    cases hd₁ with
    | deaf hdeaf =>
      refine hdeaf.joined ?_
      rw [conn_step hs]
      exact hjoining
    | idling hidle _ => cases hc₁.symm.trans hidle.client
    | panicked hp => cases hc₁.symm.trans hp

/-- For every run of a client whose CONNECT packet can be built, with no future
dropped: a live connection is within reach, by the client's own steps and a
server that closes the old connection and accepts the next, exactly if the
client is not at a dead end; and from a dead end no step leads to one. -/
theorem live_within_reach_iff (hok : (buildConnectPacket codec options).isSome)
    (hr : Run codec options guard h s) :
    ((∃ s', Lts.Reaches (step codec options) recovering s s' ∧ Live s') ↔ ¬ DeadEnd options s) ∧
      (DeadEnd options s → ∀ s', Lts.Reaches (step codec options) (fun _ => true) s s' →
        ¬ Live s') := by
  have hr' : Run codec options Lts.anything h s := hr.mono fun _ _ _ _ => rfl
  refine ⟨⟨fun hrec hd => ?_, recoverable_of_not_deadEnd hok hr'⟩, fun hd s' hp => hd.reaches hr' hp⟩
  obtain ⟨s', hp, hlive⟩ := hrec
  exact hd.reaches hr' hp hlive

theorem live_within_reach_overtaken : ∃ h s, Run acceptingCodec .new Lts.anything h s ∧
    s.client = .idle ∧
    ¬ ∃ s', Lts.Reaches (step acceptingCodec .new) recovering s s' ∧ Live s' := by
  obtain ⟨h, s, hr, ht⟩ := Lts.exists_run (step acceptingCodec .new) Lts.anything init overtaken
    (fun _ s => s.conn.supervisor = .finished && s.isConnected && s.client = .idle)
    (by decide +kernel)
  simp only [Bool.and_eq_true, decide_eq_true_eq] at ht
  have hd : Deaf s := ⟨by simp [ht.1.1], .inl ht.1.2⟩
  exact ⟨h, s, hr, ht.2, fun hrec => (live_within_reach_iff (by decide) hr).1.mp hrec (.deaf hd)⟩

end System

end MesquitteClient
