import MesquitteClient.Lifecycle

/-!
# Half-open connections

`try_join!` over two tasks that return `()` waits for both, whatever ended the
first. When the read loop has ended, or waits for the message channel, the
rest follows by itself: the write loop drains the message channel, finds it
closed and ends, and the supervisor tears the connection down. When the write
loop has ended and the read loop waits for the server, only the server can end
it (`silent_peer`, `tornDown_iff`).
-/

namespace MesquitteClient

namespace System

variable {codec : Codec} {options : ClientOptions} {s s' : System} {e : Event}
variable {guard : Lts.Guard System Event} {h : Lts.History System Event}

/-- The steps that need nothing from the server: no packet, and no end of the
stream. -/
def ownStep : Event → Bool
  | .reader (.received _) | .reader .streamEnded => false
  | .connect (.accepted ..) | .connect (.refused ..) => false
  | _ => true

structure TornDown (s : System) : Prop where
  finished : s.conn.supervisor = .finished
  status : s.connectStatus = .disconnected
  exit : s.conn.exit
  identifiers : ∀ k, s.owner k = none

/-- A state in which the connection is torn down is within reach of the
client's own steps. -/
def Tearable (codec : Codec) (options : ClientOptions) (s : System) : Prop :=
  ∃ s', Lts.Reaches (step codec options) ownStep s s' ∧ TornDown s'

theorem Tearable.head (he : ownStep e) (hs : step codec options s e = some s₁)
    (ht : Tearable codec options s₁) : Tearable codec options s := by
  obtain ⟨s', hr, htorn⟩ := ht
  exact ⟨s', hr.head he hs, htorn⟩

-- ---------------------------------------------------------------------------
-- The supervisor
-- ---------------------------------------------------------------------------

/-- What the supervisor has done so far stays done. -/
structure Closing (s : System) : Prop where
  status : s.statusLocked → s.connectStatus = .disconnected
  exit : s.conn.supervisor = .exitSet → s.conn.exit

theorem closing_init : Closing init where
  status h := by cases h
  exit h := by cases h

theorem Closing.kept (hc : Closing s) (hsup : s'.conn.supervisor = s.conn.supervisor)
    (hexit : s'.conn.exit = s.conn.exit)
    (hstatus : s.statusLocked → s'.connectStatus = s.connectStatus) : Closing s' where
  status h := by
    rw [statusLocked, hsup] at h
    exact (hstatus h).trans (hc.status h)
  exit h := by
    rw [hexit]
    exact hc.exit (hsup ▸ h)

theorem closing_step (hc : Closing s) (hs : step codec options s e = some s') : Closing s' := by
  have hconn := conn_step hs
  have hst := status_step hs
  have hsame (hsup : (connAfter options s e).supervisor = s.conn.supervisor)
      (hexit : (connAfter options s e).exit = s.conn.exit)
      (hstatus : statusAfter s e = s.connectStatus) : Closing s' :=
    hc.kept (by rw [hconn, hsup]) (by rw [hconn, hexit]) fun _ => by rw [hst, hstatus]
  cases e with
  | connect e =>
    cases e with
    | accepted caller t sp =>
      refine ⟨fun h => ?_, fun h => ?_⟩
      · rw [statusLocked, hconn] at h
        cases h
      · rw [hconn] at h
        cases h
    | started caller | transportFailed caller t err | refused caller t item
    | statusSet caller t sp =>
      -- the status is not locked
      simp only [step, stepConnect, when_eq_some] at hs
      refine hc.kept (by rw [hconn]; rfl) (by rw [hconn]; rfl) fun h => ?_
      simp [h] at hs
    | _ => exact hsame rfl rfl rfl
  | supervisor e =>
    cases e with
    | joined => exact ⟨fun _ => hst, fun h => by rw [hconn] at h; cases h⟩
    | exitStored =>
      simp only [step, stepSupervisor, when_eq_some] at hs
      refine ⟨fun _ => hst.trans (hc.status (by simp [statusLocked, hs.1])), fun _ => ?_⟩
      rw [hconn]
      rfl
    | cleanedUp =>
      refine ⟨fun h => ?_, fun h => ?_⟩
      · rw [statusLocked, hconn] at h
        cases h
      · rw [hconn] at h
        cases h
  | writer e | call e | reader e | keepAlive e => cases e <;> exact hsame rfl rfl rfl
  | block e | runtime e => exact hsame rfl rfl rfl

theorem closing_run (hr : Run codec options guard h s) : Closing s :=
  hr.invariant (P := fun _ s => Closing s) closing_init fun _ hc _ hs => closing_step hc hs

/-- Once both loops have ended the supervisor goes on alone. -/
theorem Closing.tearable (hc : Closing s) (hreader : s.conn.reader = .ended)
    (hwriter : s.conn.writer = .ended) (hsup : s.conn.supervisor ≠ .finished) :
    Tearable codec options s := by
  have hcleaned {s : System} (hc : Closing s) (hsup : s.conn.supervisor = .exitSet) :
      Tearable codec options s := by
    obtain ⟨s', hs⟩ : ∃ s', step codec options s (.supervisor .cleanedUp) = some s' :=
      ⟨_, if_pos hsup⟩
    refine ⟨s', (Lts.Reaches.refl s').head rfl hs, ?_⟩
    have hconn := conn_step hs
    refine ⟨by rw [hconn]; rfl, ?_, ?_, fun k => owner_step hs⟩
    · exact (status_step hs).trans (hc.status (by simp [statusLocked, hsup]))
    · rw [hconn]
      exact hc.exit hsup
  have hstored {s : System} (hc : Closing s) (hsup : s.conn.supervisor = .statusSet) :
      Tearable codec options s := by
    obtain ⟨s', hs⟩ : ∃ s', step codec options s (.supervisor .exitStored) = some s' :=
      ⟨_, if_pos hsup⟩
    exact .head rfl hs (hcleaned (closing_step hc hs) (by rw [conn_step hs]; rfl))
  cases hcase : s.conn.supervisor with
  | joining =>
    obtain ⟨s', hs⟩ : ∃ s', step codec options s (.supervisor .joined) = some s' :=
      ⟨_, if_pos ⟨hcase, hreader, hwriter⟩⟩
    exact .head rfl hs (hstored (closing_step hc hs) (by rw [conn_step hs]; rfl))
  | statusSet => exact hstored hc hcase
  | exitSet => exact hcleaned hc hcase
  | finished => exact absurd hcase hsup

-- ---------------------------------------------------------------------------
-- The loops
-- ---------------------------------------------------------------------------

/-- Both loops have ended by the client's own steps, and the supervisor has not
moved. -/
def Endable (codec : Codec) (options : ClientOptions) (s : System) : Prop :=
  ∃ s', Lts.Reaches (step codec options) ownStep s s' ∧ s'.conn.reader = .ended ∧
    s'.conn.writer = .ended ∧ s'.conn.supervisor = s.conn.supervisor

theorem Endable.head (he : ownStep e) (hs : step codec options s e = some s₁)
    (hsup : s₁.conn.supervisor = s.conn.supervisor) (h₁ : Endable codec options s₁) :
    Endable codec options s := by
  obtain ⟨s', hr, hreader, hwriter, hsup'⟩ := h₁
  exact ⟨s', hr.head he hs, hreader, hwriter, hsup'.trans hsup⟩

/-- The write loop drains the message channel and finds it closed. -/
theorem endable_selecting (msg : List VariablePacket) (hmsg : s.conn.msg = msg)
    (hreader : s.conn.reader = .ended) (hwriter : s.conn.writer = .selecting) :
    Endable codec options s := by
  induction msg generalizing s with
  | nil =>
    obtain ⟨s', hs⟩ : ∃ s', step codec options s (.writer .msgClosed) = some s' :=
      ⟨_, if_pos ⟨hwriter, hmsg, hreader⟩⟩
    have hconn := conn_step hs
    exact ⟨s', (Lts.Reaches.refl s').head rfl hs, by rw [hconn]; exact hreader, by rw [hconn]; rfl,
      by rw [hconn]; rfl⟩
  | cons packet rest ih =>
    obtain ⟨s₁, hs₁⟩ : ∃ s₁, step codec options s (.writer (.msgTaken packet)) = some s₁ :=
      ⟨_, if_pos ⟨hwriter, by rw [hmsg]; rfl⟩⟩
    have hconn₁ := conn_step hs₁
    obtain ⟨s₂, hs₂⟩ : ∃ s₂, step codec options s₁ (.writer (.msgWritten packet)) = some s₂ :=
      ⟨_, if_pos (by rw [hconn₁]; rfl)⟩
    have hconn₂ := conn_step hs₂
    refine .head rfl hs₁ (by rw [hconn₁]; rfl) (.head rfl hs₂ (by rw [hconn₂]; rfl) (ih ?_ ?_ ?_))
    · rw [hconn₂]
      simp [connAfter, hconn₁, hmsg]
    · rw [hconn₂]
      simp [connAfter, hconn₁, hreader]
    · rw [hconn₂]
      rfl

theorem endable_of_ended (hreader : s.conn.reader = .ended) : Endable codec options s := by
  cases hwriter : s.conn.writer with
  | selecting => exact endable_selecting _ rfl hreader hwriter
  | writingMsg packet =>
    obtain ⟨s₁, hs₁⟩ : ∃ s₁, step codec options s (.writer (.msgWritten packet)) = some s₁ :=
      ⟨_, if_pos hwriter⟩
    have hconn₁ := conn_step hs₁
    exact .head rfl hs₁ (by rw [hconn₁]; rfl)
      (endable_selecting _ rfl (by rw [hconn₁]; exact hreader) (by rw [hconn₁]; rfl))
  | writingOutgoing o =>
    obtain ⟨s₁, hs₁⟩ : ∃ s₁, step codec options s (.writer (.outgoingWritten o)) = some s₁ :=
      ⟨_, if_pos hwriter⟩
    have hconn₁ := conn_step hs₁
    exact .head rfl hs₁ (by rw [hconn₁]; rfl)
      (endable_selecting _ rfl (by rw [hconn₁]; exact hreader) (by rw [hconn₁]; rfl))
  | ended => exact ⟨s, .refl s, hreader, hwriter, rfl⟩

/-- The read loop finds the message channel closed. -/
theorem endable_of_closed (hwriter : s.conn.writer = .ended) (hne : s.conn.reader ≠ .reading) :
    Endable codec options s := by
  cases hreader : s.conn.reader with
  | reading => exact absurd hreader hne
  | responding resp =>
    obtain ⟨s₁, hs₁⟩ : ∃ s₁, step codec options s (.reader (.respondFailed resp)) = some s₁ :=
      ⟨_, if_pos ⟨hreader, hwriter⟩⟩
    have hconn₁ := conn_step hs₁
    exact .head rfl hs₁ (by rw [hconn₁]; rfl) (endable_of_ended (by rw [hconn₁]; rfl))
  | ended => exact endable_of_ended hreader

/-- The client's own steps do not take the read loop from its wait for the
server, nor the supervisor from its wait for the read loop. -/
theorem waiting_step (hw : s.conn.reader = .reading ∧ s.conn.supervisor = .joining)
    (he : ownStep e) (hs : step codec options s e = some s') :
    s'.conn.reader = .reading ∧ s'.conn.supervisor = .joining := by
  rw [conn_step hs]
  cases e with
  | reader e =>
    cases e with
    | received packet | streamEnded => cases he
    | responded resp | respondFailed resp =>
      simp only [step, stepReader, when_eq_some] at hs
      cases hw.1.symm.trans hs.1.1
  | supervisor e =>
    cases e with
    | joined =>
      simp only [step, stepSupervisor, when_eq_some] at hs
      cases hw.1.symm.trans hs.1.2.1
    | exitStored | cleanedUp =>
      simp only [step, stepSupervisor, when_eq_some] at hs
      cases hw.2.symm.trans hs.1
  | connect e =>
    cases e with
    | accepted caller t sp => cases he
    | _ => exact hw
  | writer e | call e | keepAlive e => cases e <;> exact hw
  | block e | runtime e => exact hw

/-- In every reachable state in which one of the loops has ended and the
supervisor has not finished, the teardown is within reach of the client's own
steps exactly when the read loop does not wait for the server. -/
theorem tornDown_iff (hr : Run codec options guard h s)
    (hended : s.conn.reader = .ended ∨ s.conn.writer = .ended)
    (hsup : s.conn.supervisor ≠ .finished) :
    (∃ s', Lts.Reaches (step codec options) ownStep s s' ∧ TornDown s') ↔
      s.conn.reader ≠ .reading := by
  constructor
  · rintro ⟨s', hreach, htorn⟩ hreading
    have hjoining : s.conn.supervisor = .joining := by
      by_contra hne
      cases hreading.symm.trans ((lifecycle hr).ended hne).1
    have hwait := hreach.kept (P := fun s => s.conn.reader = .reading ∧ s.conn.supervisor = .joining)
      ⟨hreading, hjoining⟩ fun hw he hs => waiting_step hw he hs
    cases hwait.2.symm.trans htorn.finished
  · intro hne
    have hend : Endable codec options s := by
      rcases hended with h | h
      · exact endable_of_ended h
      · exact endable_of_closed h hne
    obtain ⟨s₁, hreach, hreader, hwriter, hsup₁⟩ := hend
    have hclosing : Closing s₁ := hreach.kept (closing_run hr) fun hc _ hs => closing_step hc hs
    have htear : Tearable codec options s₁ := hclosing.tearable hreader hwriter (by rwa [hsup₁])
    obtain ⟨s', hreach', htorn⟩ := htear
    exact ⟨s', hreach.trans hreach', htorn⟩

/-- A QoS 0 publish call up to its write, which fails. -/
def failingWrite : List Event :=
  let packet : VariablePacket := .publish { topicName := "a", qos := .level0, payload := [] }
  let frame : Frame := ⟨none, .publish "a" .level0 false [], 1⟩
  [.call (.accepted none frame.call), .call (.built frame none packet),
    .call (.enqueued frame packet), .call (.returned frame),
    .writer (.outgoingTaken ⟨packet, some 1⟩),
    .writer (.outgoingFailed ⟨packet, some 1⟩ "Broken pipe")]

/-- A write fails, and the server keeps silent: the connection is not torn down. -/
theorem silent_peer : ¬ ∀ h s, Run acceptingCodec .new Lts.anything h s →
    s.conn.reader = .ended ∨ s.conn.writer = .ended → s.conn.supervisor ≠ .finished →
      ∃ s', Lts.Reaches (step acceptingCodec .new) ownStep s s' ∧ TornDown s' := by
  obtain ⟨h, s, hr, ht⟩ := Lts.exists_run (step acceptingCodec .new) Lts.anything init
    (connecting none 0 false ++ connected none 0 false ++ failingWrite)
    (fun _ s => s.conn.reader = .reading && s.conn.writer = .ended && s.conn.supervisor = .joining)
    (by decide +kernel)
  simp only [Bool.and_eq_true, decide_eq_true_eq] at ht
  obtain ⟨⟨hreading, hwriter⟩, hjoining⟩ := ht
  intro hall
  obtain ⟨s', hreach, htorn⟩ := hall h s hr (.inr hwriter) (by simp [hjoining])
  have hwait := hreach.kept (P := fun s => s.conn.reader = .reading ∧ s.conn.supervisor = .joining)
    ⟨hreading, hjoining⟩ fun hw he hs => waiting_step hw he hs
  cases hwait.2.symm.trans htorn.finished

/-- The server closes the connection: the teardown is within reach. -/
theorem tornDown_of_closed : ∃ h s, Run acceptingCodec .new Lts.anything h s ∧
    s.conn.reader = .ended ∧ s.conn.supervisor = .joining ∧
    ∃ s', Lts.Reaches (step acceptingCodec .new) ownStep s s' ∧ TornDown s' := by
  obtain ⟨h, s, hr, ht⟩ := Lts.exists_run (step acceptingCodec .new) Lts.anything init
    (connecting none 0 false ++ connected none 0 false ++ [.reader .streamEnded])
    (fun _ s => s.conn.reader = .ended && s.conn.supervisor = .joining) (by decide +kernel)
  simp only [Bool.and_eq_true, decide_eq_true_eq] at ht
  exact ⟨h, s, hr, ht.1, ht.2,
    (tornDown_iff hr (.inl ht.1) (by simp [ht.2])).mpr (by simp [ht.1])⟩

end System

end MesquitteClient
