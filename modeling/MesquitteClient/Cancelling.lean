import MesquitteClient.Registry

/-!
# Dropped futures

A future is dropped where it waits, and what the call has done so far stays
done. `connect` sets `Connecting` before it waits for the transport, and only
its own later steps take that back. So unless a transport has panicked, a
dropped `connect` is the one thing that leaves the status at `Connecting` with
no attempt under way (`connecting_iff_dropped`), and then the client never
connects again (`wedged_of_dropped`).
-/

namespace MesquitteClient

namespace System

variable {codec : Codec} {options : ClientOptions} {s s' : System} {e : Event}

/-- The client task waits. The `select!` of `block` does not while its
`notified` branch is ready. -/
def suspended (s : System) : Bool :=
  match s.client with
  | .call _ (.sending _) => true
  | .connect _ _ .transport | .connect _ _ .handshake => true
  | .block _ => !s.notify
  | .job (.awaiting ..) => true
  | _ => false

inductive Input
  | event (event : Event)
  /-- the future of the running call is dropped -/
  | dropped
  deriving DecidableEq

def stepDropping (codec : Codec) (options : ClientOptions) (s : System) : Input → Option System
  | .event event => step codec options s event
  | .dropped => when s.suspended { s with client := .idle }

/-- The future of a `connect` is dropped, or of a `block` that is in one. -/
def dropsConnect (x : System × Input) : Bool :=
  match x.2, x.1.client with
  | .dropped, .connect .. => true
  | _, _ => false

variable {guard : Lts.Guard System Input} {h : Lts.History System Input} {i : Input}

/-- `Connecting` for good: nobody is left to change it. -/
structure Stuck (s : System) : Prop where
  connecting : s.connectStatus = .connecting
  finished : s.conn.supervisor = .finished
  client : s.client ≠ .connect caller t phase

theorem Stuck.event (hst : Stuck s) (hs : step codec options s e = some s') : Stuck s' := by
  have hkept (h₁ : statusAfter s e = s.connectStatus)
      (h₂ : (connAfter options s e).supervisor = s.conn.supervisor)
      (h₃ : ∀ caller, e ≠ .connect (.started caller)) : Stuck s' := by
    refine ⟨(status_step hs).trans (h₁.trans hst.connecting), ?_, fun hc => ?_⟩
    · rw [conn_step hs, h₂, hst.finished]
    · rcases connect_origin hs hc with ⟨phase, hc⟩ | ⟨he, _⟩
      · exact hst.client hc
      · exact h₃ _ he
  cases e with
  | connect e =>
    cases e with
    | already caller | reconnecting caller => exact hkept rfl rfl (by simp)
    | _ =>
      -- each needs another status, or a connect that is running
      simp [step, stepConnect, when, hst.connecting, hst.client] at hs
  | supervisor e =>
    cases e <;> simp [step, stepSupervisor, when, hst.finished] at hs
  | call e | writer e | keepAlive e | reader e =>
    cases e <;> exact hkept rfl rfl (by simp)
  | _ e => exact hkept rfl rfl (by simp)

theorem Stuck.kept (hst : Stuck s) (hs : stepDropping codec options s i = some s') : Stuck s' := by
  cases i with
  | event e => exact hst.event hs
  | dropped =>
    simp only [stepDropping, when_eq_some] at hs
    obtain ⟨_, rfl⟩ := hs
    exact ⟨hst.connecting, hst.finished, by simp⟩

theorem suspended_connect (hw : s.suspended) (hc : s.client = .connect caller t phase) :
    s.client.stage = .handshaking := by
  rw [suspended, hc] at hw
  rw [hc]
  cases phase <;> first | rfl | cases hw

/-- A `connect` that is dropped leaves its status behind. -/
theorem Lifecycle.stuck (hl : Lifecycle options s) (hd : dropsConnect (s, i))
    (hs : stepDropping codec options s i = some s') : Stuck s' := by
  obtain ⟨rfl, caller, t, phase, hc⟩ : i = .dropped ∧ ∃ caller t phase,
      s.client = .connect caller t phase := by
    unfold dropsConnect at hd
    split at hd
    · exact ⟨by assumption, _, _, _, by assumption⟩
    · cases hd
  simp only [stepDropping, when_eq_some] at hs
  obtain ⟨hw, rfl⟩ := hs
  obtain ⟨hconnecting, hfinished⟩ := hl.handshaking (suspended_connect hw hc)
  exact ⟨hconnecting, hfinished, by simp⟩

/-- Any other call that is dropped leaves nothing behind that matters here. -/
theorem Lifecycle.dropped (hl : Lifecycle options s) (hd : ¬ dropsConnect (s, i))
    (hs : stepDropping codec options s i = some s') : Lifecycle options s' := by
  cases i with
  | event e => exact lifecycle_step hl hs
  | dropped =>
    simp only [stepDropping, when_eq_some] at hs
    obtain ⟨hw, rfl⟩ := hs
    have hstage : s.client.stage = .settled := by
      cases hc : s.client with
      | connect caller t phase => simp [dropsConnect, hc] at hd
      | panicked => simp [suspended, hc] at hw
      | _ => rfl
    have hnotify : s.notify = false := by
      cases hn : s.notify with
      | false => rfl
      | true =>
        obtain ⟨⟨cnt, hc, _⟩, _⟩ := hl.notified hn
        simp [suspended, hc, hn] at hw
    exact hl.progressed rfl id id hl.drained rfl rfl hstage.symm (by simp [hnotify])
      fun _ h => by cases h

/-- Either no `connect` was dropped, or the status is stuck. -/
theorem stuck_or_lifecycle (hr : Lts.Run (stepDropping codec options) guard init h s) :
    (Lifecycle options s ∧ h.any dropsConnect = false) ∨ (Stuck s ∧ h.any dropsConnect) := by
  refine hr.invariant (P := fun h s => (Lifecycle options s ∧ h.any dropsConnect = false) ∨
    (Stuck s ∧ h.any dropsConnect)) (.inl ⟨lifecycle_init, rfl⟩) ?_
  rintro h s i s' - (⟨hl, hn⟩ | ⟨hst, hd⟩) - hs
  · by_cases hd : dropsConnect (s, i)
    · exact .inr ⟨hl.stuck hd hs, by simp [hd]⟩
    · exact .inl ⟨hl.dropped hd hs, by simp [hd, hn]⟩
  · exact .inr ⟨hst.kept hs, by simp [hd]⟩

/-- For every run in which futures are dropped anywhere: where no `connect` is
under way and none has panicked, the status is `Connecting` exactly if a
`connect` has been dropped. -/
theorem connecting_iff_dropped (hr : Lts.Run (stepDropping codec options) guard init h s)
    (hc : s.client.stage = .settled) :
    s.connectStatus = .connecting ↔ h.any dropsConnect := by
  rcases stuck_or_lifecycle hr with ⟨hl, hn⟩ | ⟨hst, hd⟩
  · rw [hn]
    exact ⟨fun h => absurd hc (hl.connecting h), fun h => by cases h⟩
  · exact ⟨fun _ => hd, fun _ => hst.connecting⟩

theorem connecting_iff_dropped_connect : ∃ h s,
    Lts.Run (stepDropping acceptingCodec .new) Lts.anything init h s ∧
      s.client.stage = .settled ∧ (s.connectStatus = .connecting ↔ h.any dropsConnect) := by
  obtain ⟨h, s, hr, ht⟩ := Lts.exists_run (stepDropping acceptingCodec .new) Lts.anything init
    [.event (.connect (.started none)), .dropped] (fun _ s => s.client.stage = .settled)
    (by decide +kernel)
  exact ⟨h, s, hr, of_decide_eq_true ht, connecting_iff_dropped hr (of_decide_eq_true ht)⟩

/-- Nothing can be done with the client but to ask it in vain. -/
structure Wedged (codec : Codec) (options : ClientOptions) (s : System) : Prop where
  connecting : s.connectStatus = .connecting
  finished : s.conn.supervisor = .finished
  answers : s.client.connects caller →
    (step codec options s (.connect (.reconnecting caller))).isSome
  connect {e : ConnectEvent} {s' : System} : step codec options s (.connect e) = some s' →
    ∃ caller, e = .reconnecting caller ∧ (s'.cell s.state.tokens.next).complete ∧
      (s'.cell s.state.tokens.next).error = some .reconnecting
  call (job : Option Job) (call : Call) : step codec options s (.call (.accepted job call)) = none

theorem Stuck.wedged (hst : Stuck s) : Wedged codec options s where
  connecting := hst.connecting
  finished := hst.finished
  answers {caller} hc := by
    simp [step, stepConnect, when, hc, statusLocked, hst.finished, hst.connecting]
  connect {e s'} hs := by
    cases e with
    | reconnecting caller =>
      refine ⟨caller, rfl, ?_⟩
      rw [cell_created hs rfl]
      exact ⟨rfl, rfl⟩
    | _ => simp [step, stepConnect, when, hst.connecting, hst.client] at hs
  call job call := by
    refine Option.eq_none_iff_forall_ne_some.mpr fun s' hs => ?_
    simp only [step, stepCall, when_eq_some] at hs
    simp [isConnected, hst.connecting] at hs

/-- For every run in which futures are dropped anywhere: once a `connect` has
been dropped, the client never connects again. -/
theorem wedged_of_dropped (later : Lts.History System Input)
    (hr : Lts.Run (stepDropping codec options) guard init (later ++ (s₁, .dropped) :: before) s)
    (hc : s₁.client = .connect caller t phase) : Wedged codec options s := by
  have hd : dropsConnect (s₁, .dropped) := by simp [dropsConnect, hc]
  rcases stuck_or_lifecycle hr with ⟨_, hn⟩ | ⟨hst, _⟩
  · simp [hd] at hn
  · exact hst.wedged

/-- `connect` under a timeout that is too short. -/
theorem wedged_of_dropped_connect : ∃ s₁ before s,
    Lts.Run (stepDropping acceptingCodec .new) Lts.anything init ((s₁, .dropped) :: before) s ∧
      s₁.client = .connect none 0 .handshake ∧ Wedged acceptingCodec .new s := by
  obtain ⟨h, s, hr, ht⟩ := Lts.exists_run (stepDropping acceptingCodec .new) Lts.anything init
    [.event (.connect (.started none)), .event (.connect (.transportOpened none 0)), .dropped]
    (fun h _ => h.head?.any fun x => x.2 = .dropped && x.1.client = .connect none 0 .handshake)
    (by decide +kernel)
  obtain ⟨⟨s₁, i⟩, hx, hi⟩ := (Option.any_eq_true _ _).mp ht
  obtain ⟨hi, hc⟩ := Bool.and_eq_true_iff.mp hi
  obtain rfl : i = .dropped := of_decide_eq_true hi
  obtain ⟨before, rfl⟩ := List.head?_eq_some_iff.mp hx
  exact ⟨s₁, before, s, hr, of_decide_eq_true hc, wedged_of_dropped [] hr (of_decide_eq_true hc)⟩

end System

end MesquitteClient
