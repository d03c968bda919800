import MesquitteClient.Attempts
import MesquitteClient.StayingDown

/-!
# Dead ends

Three kinds of state have no way back to a connection. Either the status is
`Connected`, or bound to be, after the supervisor has seen the connection end:
the client says that it is connected, nothing is sent or received, and no
attempt to connect begins (`deaf_for_ever`). Or `block` waits after a
`disconnect`. Or `connect` has panicked.
-/

namespace MesquitteClient

namespace System

variable {codec : Codec} {options : ClientOptions} {guard : Lts.Guard System Event}
variable {s s' : System} {e : Event} {h : Lts.History System Event}

/-- Connected, with both loops running. -/
structure Live (s : System) : Prop where
  status : s.isConnected
  reader : s.conn.reader ≠ .ended
  writer : s.conn.writer ≠ .ended

/-- The supervisor has set the status, and `connect` has set it after that or
is about to. -/
structure Deaf (s : System) : Prop where
  joined : s.conn.supervisor ≠ .joining
  status : s.isConnected ∨ s.client.stage = .settingStatus

-- ---------------------------------------------------------------------------
-- No way out
-- ---------------------------------------------------------------------------

theorem Deaf.not_live (hd : Deaf s) (hl : Lifecycle options s) : ¬ Live s :=
  fun h => h.reader (hl.ended hd.joined).1

theorem Deaf.not_handshaking (hd : Deaf s) (hl : Lifecycle options s) :
    s.client.stage ≠ .handshaking := by
  intro hstage
  rcases hd.status with h | h
  · simp [isConnected, (hl.handshaking hstage).1] at h
  · cases h.symm.trans hstage

theorem joining_origin (hs : step codec options s e = some s')
    (hj : s'.conn.supervisor = .joining) :
    s.conn.supervisor = .joining ∨ ∃ caller t sp, e = .connect (.accepted caller t sp) := by
  rw [conn_step hs] at hj
  unfold connAfter at hj
  split at hj <;> first | exact .inl hj | (cases hj; done) | exact .inr ⟨_, _, _, rfl⟩

theorem settingStatus_cases {client : ClientTask} (h : client.stage = .settingStatus) :
    ∃ caller t sp, client = .connect caller t (.spawned sp) := by
  unfold ClientTask.stage at h
  split at h
  · cases h
  · cases h
  · cases h
  · exact ⟨_, _, _, rfl⟩
  · cases h

/-- No attempt is under way, and none begins. -/
theorem Deaf.connect_only {e : ConnectEvent} (hd : Deaf s) (hl : Lifecycle options s)
    (hs : step codec options s (.connect e) = some s') :
    (∃ caller, e = .already caller) ∨ (∃ caller t sp, e = .statusSet caller t sp) ∨
      ∃ caller t sp, e = .returned caller t sp := by
  have hcalled {caller : Caller} (hc : s.client.connects caller) : s.isConnected := by
    refine hd.status.resolve_right fun h => ?_
    rcases ClientTask.connects_cases hc with ⟨h₀, _⟩ | ⟨_, h₀, _⟩ <;> rw [h₀] at h <;> cases h
  cases e with
  | already caller => exact .inl ⟨caller, rfl⟩
  | statusSet caller t sp => exact .inr (.inl ⟨caller, t, sp, rfl⟩)
  | returned caller t sp => exact .inr (.inr ⟨caller, t, sp, rfl⟩)
  | started caller | reconnecting caller =>
    simp only [step, stepConnect, when_eq_some] at hs
    have hconn := hcalled hs.1.1
    simp [isConnected, hs.1.2.2] at hconn
  | transportPanicked caller t | accepted caller t sp =>
    simp only [step, stepConnect, when_eq_some] at hs
    exact absurd (by rw [hs.1]; rfl) (hd.not_handshaking hl)
  | transportFailed caller t err | transportOpened caller t | panicked caller t
  | refused caller t item =>
    simp only [step, stepConnect, when_eq_some] at hs
    exact absurd (by rw [hs.1.1]; rfl) (hd.not_handshaking hl)

theorem Deaf.status_kept (hd : Deaf s) (hl : Lifecycle options s)
    (hs : step codec options s e = some s') :
    s'.isConnected ∨ s'.client.stage = .settingStatus := by
  have hst := status_step hs
  -- the status is left alone, and the client task is not where it sets it
  have hsettled (h : statusAfter s e = s.connectStatus) (hc : s.client.stage ≠ .settingStatus) :
      s'.isConnected ∨ s'.client.stage = .settingStatus := by
    rw [isConnected, hst, h]
    exact .inl (hd.status.resolve_right hc)
  have hother (h : statusAfter s e = s.connectStatus) (he : ofClient e = false) :
      s'.isConnected ∨ s'.client.stage = .settingStatus := by
    rw [isConnected, hst, h, client_step hs he]
    exact hd.status
  have hcalling (he : ∀ e', e ≠ .connect e') (ho : ofClient e) :
      s.client.stage ≠ .settingStatus := by
    intro hstage
    obtain ⟨caller, t, sp, hc⟩ := settingStatus_cases hstage
    rcases only_connect hs hc with h | ⟨e', h, _⟩
    · rw [h] at ho
      cases ho
    · exact he e' h
  cases e with
  | connect e =>
    rcases hd.connect_only hl hs with ⟨caller, rfl⟩ | ⟨caller, t, sp, rfl⟩ | ⟨caller, t, sp, rfl⟩
    · refine hsettled rfl fun h => ?_
      simp only [step, stepConnect, when_eq_some] at hs
      rcases ClientTask.connects_cases hs.1.1 with ⟨hc, _⟩ | ⟨_, hc, _⟩ <;> rw [hc] at h <;> cases h
    · exact .inl (decide_eq_true hst)
    · refine hsettled rfl fun h => ?_
      simp only [step, stepConnect, when_eq_some] at hs
      rw [hs.1] at h
      cases h
  | call e | block e => exact hsettled rfl (hcalling (by simp) rfl)
  | supervisor e =>
    cases e with
    | joined =>
      simp only [step, stepSupervisor, when_eq_some] at hs
      exact absurd hs.1.1 hd.joined
    | _ => exact hother rfl rfl
  | _ e => exact hother rfl rfl

theorem Deaf.kept (hd : Deaf s) (hl : Lifecycle options s)
    (hs : step codec options s e = some s') : Deaf s' where
  joined hj := by
    rcases joining_origin hs hj with h | ⟨caller, t, sp, rfl⟩
    · exact hd.joined h
    · rcases hd.connect_only hl hs with ⟨_, h⟩ | ⟨_, _, _, h⟩ | ⟨_, _, _, h⟩ <;> cases h
  status := hd.status_kept hl hs

/-- The loops that have ended stay so until a connection is accepted. -/
theorem ended_kept (hs : step codec options s e = some s')
    (he : ∀ caller t sp, e ≠ .connect (.accepted caller t sp)) :
    (s.conn.reader = .ended → s'.conn.reader = .ended) ∧
      (s.conn.writer = .ended → s'.conn.writer = .ended) := by
  rw [conn_step hs]
  cases e with
  | connect e =>
    cases e with
    | accepted caller t sp => exact absurd rfl (he caller t sp)
    | _ => exact ⟨id, id⟩
  | reader e =>
    refine ⟨fun h => ?_, fun h => ?_⟩
    · cases e <;> simp [step, stepReader, when, h] at hs
    · cases e <;> exact h
  | writer e =>
    refine ⟨fun h => ?_, fun h => ?_⟩
    · cases e <;> exact h
    · cases e <;> simp [step, stepWriter, when, h] at hs
  | _ e => cases e <;> exact ⟨id, id⟩

theorem Live.origin (hl : Live s') (hs : step codec options s e = some s')
    (he : ofClient e = false) : Live s := by
  obtain ⟨hreader, hwriter⟩ := ended_kept hs (by rintro _ _ _ rfl; cases he)
  refine ⟨?_, fun h => hl.reader (hreader h), fun h => hl.writer (hwriter h)⟩
  have hst := hl.status
  rw [isConnected, status_step hs] at hst
  cases e with
  | call e | connect e | block e => cases he
  | supervisor e =>
    cases e with
    | joined => cases of_decide_eq_true hst
    | _ => exact hst
  | _ e => exact hst

/-- The client task takes no step after a panic. -/
theorem panicked_step (hp : s.client = .panicked) (hs : step codec options s e = some s') :
    s'.client = .panicked := by
  cases client_cases hs with
  | other _ hc => exact hc.trans hp
  | accepted _ _ _ hc _ | refused _ _ _ hc _ =>
    rcases ClientTask.calls_cases hc with ⟨h₀, _⟩ | ⟨_, _, _, h₀, _⟩ <;> cases hp.symm.trans h₀
  | started _ _ hc _ | answered _ _ hc _ =>
    rcases ClientTask.connects_cases hc with ⟨h₀, _⟩ | ⟨_, h₀, _⟩ <;> cases hp.symm.trans h₀
  | notified _ _ hc _ _ | reconnectFailed _ _ _ hc _ _ | reconnected _ _ _ hc _ _
  | awaited _ _ _ hc _ _ => cases hp.symm.trans hc
  | _ =>
    rename_i hc _
    cases hp.symm.trans hc

/-- There is no way back to a connection. -/
inductive DeadEnd (options : ClientOptions) (s : System) : Prop
  | deaf (hd : Deaf s)
  | idling (hidle : Idling options cnt s) (hn : ¬ Live s)
  | panicked (hp : s.client = .panicked)

theorem DeadEnd.not_live (hd : DeadEnd options s) (hl : Lifecycle options s) : ¬ Live s := by
  cases hd with
  | deaf hd => exact hd.not_live hl
  | idling _ hn => exact hn
  | panicked hp =>
    have hconnecting := (hl.handshaking (by rw [hp]; rfl)).1
    exact fun h => by simpa [isConnected, hconnecting] using h.status

theorem DeadEnd.kept (hd : DeadEnd options s) (hl : Lifecycle options s)
    (hs : step codec options s e = some s') : DeadEnd options s' := by
  cases hd with
  | deaf hd => exact .deaf (hd.kept hl hs)
  | panicked hp => exact .panicked (panicked_step hp hs)
  | idling hidle hn =>
    refine .idling (hidle.kept hs) fun h => hn ?_
    cases he : ofClient e with
    | false => exact h.origin hs he
    | true =>
      -- `block` sleeps on, and that changes nothing
      obtain rfl := hidle.only hs he
      have hsame := hidle.slept hs
      rw [hsame] at h
      exact h

theorem DeadEnd.reaches {own : Event → Bool} (hr : Run codec options Lts.anything h s)
    (hd : DeadEnd options s) (hp : Lts.Reaches (step codec options) own s s') : ¬ Live s' := by
  have hkept : DeadEnd options s' ∧ Lifecycle options s' :=
    hp.kept (P := fun s => DeadEnd options s ∧ Lifecycle options s) ⟨hd, lifecycle hr⟩
      fun hd _ hs => ⟨hd.1.kept hd.2 hs, lifecycle_step hd.2 hs⟩
  exact hkept.1.not_live hkept.2

-- ---------------------------------------------------------------------------
-- A deaf client
-- ---------------------------------------------------------------------------

/-- Nothing is enqueued, written or received, no call is refused, and no
attempt to connect begins. -/
def quiet : Event → Bool
  | .call (.enqueued ..) | .call (.refused ..) => false
  | .connect (.already _) | .connect (.statusSet ..) | .connect (.returned ..) => true
  | .connect _ | .reader _ | .writer _ => false
  | .keepAlive .pinged | .supervisor .joined => false
  | _ => true

theorem Deaf.quiet (hd : Deaf s) (hl : Lifecycle options s)
    (hs : step codec options s e = some s') : quiet e := by
  obtain ⟨hreader, hwriter⟩ := hl.ended hd.joined
  cases e with
  | call e =>
    cases e with
    | enqueued frame packet => simp [step, stepCall, when, hwriter] at hs
    | refused job call =>
      simp only [step, stepCall, when_eq_some] at hs
      refine absurd (hd.status.resolve_right fun h => ?_) hs.1.2.2
      rcases ClientTask.calls_cases hs.1.1 with ⟨hc, _⟩ | ⟨_, _, _, hc, _⟩ <;> rw [hc] at h <;>
        cases h
    | _ => rfl
  | connect e =>
    rcases hd.connect_only hl hs with ⟨_, rfl⟩ | ⟨_, _, _, rfl⟩ | ⟨_, _, _, rfl⟩ <;> rfl
  | reader e => cases e <;> simp [step, stepReader, when, hreader] at hs
  | writer e => cases e <;> simp [step, stepWriter, when, hwriter] at hs
  | keepAlive e =>
    cases e with
    | pinged => simp [step, stepKeepAlive, when, hwriter] at hs
    | _ => rfl
  | supervisor e =>
    cases e with
    | joined => simp [step, stepSupervisor, when, hd.joined] at hs
    | _ => rfl
  | _ e => rfl

/-- A call that has sent did not get through. -/
def Unheard (s : System) : Prop :=
  Deaf s → ∀ frame, s.client = .call frame .sent → (s.cell frame.token).error.isSome

/-- It does not become deaf during a call. -/
theorem Deaf.origin (hd : Deaf s') (hs : step codec options s e = some s')
    (he : ofClient e = false) (hc : s.client = .call frame phase) : Deaf s := by
  have hst : s'.isConnected := by
    refine hd.status.resolve_right fun h => ?_
    rw [client_step hs he, hc] at h
    cases h
  rw [isConnected, status_step hs] at hst
  have hkept (hsup : (connAfter options s e).supervisor = s.conn.supervisor)
      (h : statusAfter s e = s.connectStatus) : Deaf s := by
    refine ⟨fun hj => hd.joined ?_, .inl (by rwa [h] at hst)⟩
    rw [conn_step hs, hsup, hj]
  cases e with
  | call e | connect e | block e => cases he
  | supervisor e =>
    cases e with
    | joined => cases of_decide_eq_true hst
    | exitStored | cleanedUp =>
      simp only [step, stepSupervisor, when_eq_some] at hs
      exact ⟨by simp [hs.1], .inl hst⟩
  | reader e | writer e | keepAlive e => cases e <;> exact hkept rfl rfl
  | runtime e => exact hkept rfl rfl

theorem unheard_step (hu : Unheard s) (hl : Lifecycle options s) (hreg : Registry codec s)
    (hs : step codec options s e = some s') : Unheard s' := by
  intro hd frame hc
  generalize hphase : Phase.sent = phase at hc
  cases call_cases hs hc with
  | other he h₀ =>
    subst hphase
    have herr := hu (hd.origin hs he h₀) frame h₀
    by_contra hn
    rw [Option.not_isSome_iff_eq_none] at hn
    simp [error_step hs (hreg.frame_lt h₀) hn] at herr
  | enqueued packet he h₀ =>
    subst he
    have hw := hs
    simp only [step, stepCall, when_eq_some] at hw
    refine absurd (hl.ended ?_).2 hw.1.2.1
    have hj := hd.joined
    rwa [conn_step hs] at hj
  | sendFailed packet he h₀ =>
    subst he
    rw [cell_step hs (hreg.frame_lt h₀)]
    simp [cellAfter, cleansUp, touched]
  | accepted job call _ _ hf =>
    unfold Call.begin at hphase
    split at hphase <;> cases hphase
  | _ => cases hphase

theorem unheard_run (hr : Run codec options guard h s) : Unheard s :=
  hr.invariant (P := fun _ s => Unheard s) (fun _ _ hc => by cases hc)
    fun hr hu _ hs => unheard_step hu (lifecycle hr) (registry hr) hs

/-- For every run that leads to a deaf client, and whatever the client, the
application and the server do then: it says that it is connected, or is about
to, and nothing is sent or received any more; every call that returns after
its send has failed, and no attempt to connect begins. -/
theorem deaf_for_ever (hr₀ : Run codec options guard₀ h₀ s₀) (hd : Deaf s₀)
    (hr : Lts.Run (step codec options) guard s₀ h s) :
    Deaf s ∧ ∀ x ∈ h, quiet x.2 ∧
      ∀ frame, x.2 = .call (.returned frame) → (x.1.cell frame.token).error.isSome := by
  have hkept : (Deaf s ∧ Lifecycle options s ∧ Registry codec s ∧ Unheard s) ∧ ∀ x ∈ h,
      quiet x.2 ∧ ∀ frame, x.2 = .call (.returned frame) → (x.1.cell frame.token).error.isSome := by
    refine hr.invariant (P := fun h s => (Deaf s ∧ Lifecycle options s ∧ Registry codec s ∧
        Unheard s) ∧ ∀ x ∈ h, quiet x.2 ∧ ∀ frame, x.2 = .call (.returned frame) →
          (x.1.cell frame.token).error.isSome)
      ⟨⟨hd, lifecycle hr₀, registry hr₀, unheard_run hr₀⟩, by simp⟩ ?_
    rintro h s e s' - ⟨⟨hd, hl, hreg, hu⟩, hall⟩ - hs
    refine ⟨⟨hd.kept hl hs, lifecycle_step hl hs, registry_step hreg hs, unheard_step hu hl hreg hs⟩,
      fun x hx => ?_⟩
    rcases List.mem_cons.mp hx with rfl | hx
    · refine ⟨hd.quiet hl hs, fun frame he => ?_⟩
      subst he
      simp only [step, stepCall, when_eq_some] at hs
      exact hu hd frame hs.1
    · exact hall x hx
  exact ⟨hkept.1.1, hkept.2⟩

/-- The connection is closed while `connect` has yet to set the status. -/
def overtaken : List Event := connecting none 0 false ++ closing ++ connected none 0 false

/-- A publish call on such a client. -/
def unheardCall : List Event :=
  let packet : VariablePacket := .publish { topicName := "a", qos := .level0, payload := [] }
  let frame : Frame := ⟨none, .publish "a" .level0 false [], 1⟩
  [.call (.accepted none frame.call), .call (.built frame none packet),
    .call (.sendFailed frame packet), .call (.returned frame)]

theorem deaf_for_ever_publish : ∃ h₀ s₀ h s, Run acceptingCodec .new Lts.anything h₀ s₀ ∧
    Deaf s₀ ∧ Lts.Run (step acceptingCodec .new) Lts.anything s₀ h s ∧
    (s.cell 1).error = some .internalServerError ∧ Deaf s := by
  obtain ⟨h₀, s₀, h, s, hr₀, hr, ht⟩ := Lts.exists_run_run (step acceptingCodec .new) Lts.anything
    init overtaken unheardCall
    (fun s₀ _ s => s₀.conn.supervisor = .finished && s₀.isConnected &&
      (s.cell 1).error = some .internalServerError) (by decide +kernel)
  simp only [Bool.and_eq_true, decide_eq_true_eq] at ht
  have hd : Deaf s₀ := ⟨by simp [ht.1.1], .inl ht.1.2⟩
  exact ⟨h₀, s₀, h, s, hr₀, hd, hr, ht.2, (deaf_for_ever hr₀ hd hr).1⟩

end System

end MesquitteClient
