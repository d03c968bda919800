import MesquitteClient.WsStream

/-!
# Writing to the WebSocket byte stream

The write side of `ws_stream.rs`: `poll_write` sends each buffer as one
`Binary` message, and a sink that has closed closes the write state. What the
sink answers comes with the call, so a run is any order of calls over any
behaviour of the sink. It keeps the messages it has been handed, with its
answer to each; those it has refused it has not accepted.
-/

namespace MesquitteClient.Ws

inductive WriteState
  | ready
  | closed
  deriving DecidableEq, Repr

/-- The sink, as the messages given to `start_send`. -/
structure Sink where
  handed : List (WsMessage × Except Error Unit) := []

def Sink.startSend (sink : Sink) (msg : WsMessage) (answer : Except Error Unit) : Sink where
  handed := sink.handed ++ [(msg, answer)]

/-- The bytes of a message that the sink has accepted. -/
def acceptedBytes : WsMessage × Except Error Unit → List UInt8
  | (.binary data, .ok ()) => data
  | _ => []

/-- The payloads the sink has accepted. -/
def Sink.accepted (sink : Sink) : List UInt8 := sink.handed.flatMap acceptedBytes

/-- What a `WsByteStream` is to its writer. -/
structure WriteSide where
  sink : Sink := {}
  write : WriteState := .ready

def notConnected : IoError := ⟨.notConnected, "Already closed"⟩

namespace WriteSide

/-- An error of the sink; `gone` is answered when the connection has closed
normally. The three operations differ in nothing else. -/
def fail (side : WriteSide) (gone : α) : Error → WriteSide × Poll (Except IoError α)
  | .io err => (side, .ready (.error err))
  | .connectionClosed => ({ side with write := .closed }, .ready (.ok gone))
  | .alreadyClosed => ({ side with write := .closed }, .ready (.error notConnected))
  | .other message => (side, .ready (.error ⟨.other, message⟩))

/-- `poll_write`, with what `poll_ready` and `start_send` of the sink answer. -/
def pollWrite (side : WriteSide) (buf : List UInt8) (ready : Poll (Except Error Unit))
    (sent : Except Error Unit) : WriteSide × Poll (Except IoError Nat) :=
  match side.write with
  | .ready =>
    match ready with
    | .pending => (side, .pending)
    | .ready (.error err) => side.fail 0 err
    | .ready (.ok ()) =>
      let side := { side with sink := side.sink.startSend (.binary buf) sent }
      match sent with
      | .error err => side.fail 0 err
      | .ok () => ({ side with write := .ready }, .ready (.ok buf.length))
  | .closed => (side, .ready (.error notConnected))

/-- `poll_flush`, with what `poll_flush` of the sink answers. -/
def pollFlush (side : WriteSide) : Poll (Except Error Unit) → WriteSide × Poll (Except IoError Unit)
  | .pending => (side, .pending)
  | .ready (.error err) => side.fail () err
  | .ready (.ok ()) => (side, .ready (.ok ()))

/-- `poll_shutdown`, with what `poll_close` of the sink answers. -/
def pollShutdown (side : WriteSide) (close : Poll (Except Error Unit)) :
    WriteSide × Poll (Except IoError Unit) :=
  let side := { side with write := .closed }
  match close with
  | .pending => (side, .pending)
  | .ready (.error err) => side.fail () err
  | .ready (.ok ()) => (side, .ready (.ok ()))

end WriteSide

-- ---------------------------------------------------------------------------
-- Runs
-- ---------------------------------------------------------------------------

inductive WriteCall
  | pollWrite (buf : List UInt8) (ready : Poll (Except Error Unit)) (sent : Except Error Unit)
  | pollFlush (flush : Poll (Except Error Unit))
  | pollShutdown (close : Poll (Except Error Unit))

namespace WriteSide

def step (side : WriteSide) : WriteCall → Option WriteSide
  | .pollWrite buf ready sent => some (side.pollWrite buf ready sent).1
  | .pollFlush flush => some (side.pollFlush flush).1
  | .pollShutdown close => some (side.pollShutdown close).1

/-- The prefix of a buffer that is reported as written. -/
def taken (buf : List UInt8) : Poll (Except IoError Nat) → List UInt8
  | .ready (.ok n) => buf.take n
  | _ => []

def reported : WriteSide × WriteCall → List UInt8
  | (side, .pollWrite buf ready sent) => taken buf (side.pollWrite buf ready sent).2
  | _ => []

/-- What a history has reported, oldest call first. -/
def written (h : Lts.History WriteSide WriteCall) : List UInt8 := h.reverse.flatMap reported

def closedError : Error → Bool
  | .connectionClosed | .alreadyClosed => true
  | _ => false

/-- The shutdown begins, or the sink says that it has closed. -/
def closes : WriteCall → Bool
  | .pollWrite _ (.ready (.error err)) _ => closedError err
  | .pollWrite _ (.ready (.ok ())) (.error err) => closedError err
  | .pollFlush (.ready (.error err)) => closedError err
  | .pollShutdown _ => true
  | _ => false

variable {side side' : WriteSide}

@[simp] theorem fail_sink (gone : α) (err : Error) : (side.fail gone err).1.sink = side.sink := by
  cases err <;> rfl

theorem fail_write (gone : α) (err : Error) : (side.fail gone err).1.write =
    if closedError err then .closed else side.write := by
  cases err <;> rfl

@[simp] theorem taken_fail (err : Error) : taken buf (side.fail 0 err).2 = [] := by
  cases err <;> rfl

theorem accepted_startSend (sink : Sink) (buf : List UInt8) (sent : Except Error Unit) :
    (sink.startSend (.binary buf) sent).accepted =
      sink.accepted ++ match sent with
        | .ok () => buf
        | .error _ => [] := by
  cases sent <;> simp [Sink.startSend, Sink.accepted, acceptedBytes]

theorem pollWrite_of_ready (hw : side.write = .ready) (buf : List UInt8)
    (ready : Poll (Except Error Unit)) (sent : Except Error Unit) :
    side.pollWrite buf ready sent =
      match ready with
      | .pending => (side, .pending)
      | .ready (.error err) => side.fail 0 err
      | .ready (.ok ()) =>
        match sent with
        | .error err => { side with sink := side.sink.startSend (.binary buf) sent }.fail 0 err
        | .ok () =>
          ({ side with sink := side.sink.startSend (.binary buf) sent, write := .ready },
            .ready (.ok buf.length)) := by
  unfold pollWrite
  rw [hw]

theorem pollWrite_of_closed (hw : side.write = .closed) (buf : List UInt8)
    (ready : Poll (Except Error Unit)) (sent : Except Error Unit) :
    side.pollWrite buf ready sent = (side, .ready (.error notConnected)) := by
  unfold pollWrite
  rw [hw]

theorem write_cases (side : WriteSide) : side.write = .ready ∨ side.write = .closed := by
  cases side.write
  · exact .inl rfl
  · exact .inr rfl

/-- One `poll_write` adds to what the sink has accepted what it reports. -/
theorem pollWrite_accepted (side : WriteSide) (buf : List UInt8) (ready : Poll (Except Error Unit))
    (sent : Except Error Unit) : (side.pollWrite buf ready sent).1.sink.accepted =
      side.sink.accepted ++ taken buf (side.pollWrite buf ready sent).2 := by
  rcases side.write_cases with hw | hw
  · rw [pollWrite_of_ready hw]
    match ready with
    | .pending => simp [taken]
    | .ready (.error err) => simp
    | .ready (.ok ()) =>
      cases sent with
      | error err => simp [accepted_startSend]
      | ok _ => simp [accepted_startSend, taken]
  · rw [pollWrite_of_closed hw]
    simp [taken]

theorem step_accepted (hs : side.step call = some side') :
    side'.sink.accepted = side.sink.accepted ++ reported (side, call) := by
  cases call with
  | pollWrite buf ready sent =>
    cases hs
    exact side.pollWrite_accepted buf ready sent
  | pollFlush flush | pollShutdown flush =>
    cases hs
    match flush with
    | .pending | .ready (.ok ()) => exact (List.append_nil _).symm
    | .ready (.error err) =>
      exact (congrArg Sink.accepted (fail_sink () err)).trans (List.append_nil _).symm

theorem step_write (hs : side.step call = some side') :
    side'.write = if closes call then .closed else side.write := by
  cases call with
  | pollWrite buf ready sent =>
    cases hs
    rcases side.write_cases with hw | hw
    · rw [pollWrite_of_ready hw]
      match ready with
      | .pending => rfl
      | .ready (.error err) => exact fail_write 0 err
      | .ready (.ok ()) =>
        cases sent with
        | error err => exact fail_write 0 err
        | ok _ => exact hw.symm
    · rw [pollWrite_of_closed hw, hw]
      split <;> rfl
  | pollFlush flush =>
    cases hs
    match flush with
    | .pending | .ready (.ok ()) => rfl
    | .ready (.error err) => exact fail_write () err
  | pollShutdown close =>
    cases hs
    match close with
    | .pending | .ready (.ok ()) => rfl
    | .ready (.error err) =>
      refine (fail_write () err).trans ?_
      split <;> rfl

/-- A closed side hands nothing to the sink. -/
theorem step_closed (hw : side.write = .closed) (hs : side.step call = some side') :
    side'.sink = side.sink := by
  cases call with
  | pollWrite buf ready sent =>
    cases hs
    rw [pollWrite_of_closed hw]
  | pollFlush flush | pollShutdown flush =>
    cases hs
    match flush with
    | .pending | .ready (.ok ()) => rfl
    | .ready (.error err) => exact fail_sink () err

-- ---------------------------------------------------------------------------
-- The writer
-- ---------------------------------------------------------------------------

variable {h : Lts.History WriteSide WriteCall}

theorem accepted_run (hr : Lts.Run step Lts.anything {} h side) :
    side.sink.accepted = written h := by
  induction hr with
  | nil => rfl
  | @snoc h side call side' _ _ hs ih =>
    have hcons : written ((side, call) :: h) = written h ++ reported (side, call) := by
      simp [written]
    rw [step_accepted hs, ih, hcons]

theorem write_run (hr : Lts.Run step Lts.anything {} h side) :
    side.write = .closed ↔ ∃ side₁ call, (side₁, call) ∈ h ∧ closes call := by
  induction hr with
  | nil => simp
  | @snoc h side call side' _ _ hs ih =>
    rw [step_write hs]
    by_cases hc : closes call
    · simp only [if_pos hc, true_iff]
      exact ⟨side, call, List.mem_cons_self, hc⟩
    · simp only [if_neg hc, ih]
      constructor
      · rintro ⟨side₁, call₁, hm, hc₁⟩
        exact ⟨side₁, call₁, List.mem_cons_of_mem _ hm, hc₁⟩
      · rintro ⟨side₁, call₁, hm, hc₁⟩
        rcases List.mem_cons.mp hm with heq | hm
        · cases heq
          exact absurd hc₁ hc
        · exact ⟨side₁, call₁, hm, hc₁⟩

theorem closed_run (hr : Lts.Run step Lts.anything {} (later ++ (side₁, call) :: h) side)
    (hw : side₁.write = .closed) : side.write = .closed ∧ side.sink = side₁.sink := by
  induction later generalizing side with
  | nil =>
    cases hr with
    | snoc _ _ hs =>
      refine ⟨?_, step_closed hw hs⟩
      rw [step_write hs, hw]
      split <;> rfl
  | cons last later ih =>
    cases hr with
    | snoc hr _ hs =>
      obtain ⟨hw', hsink⟩ := ih hr
      refine ⟨?_, (step_closed hw' hs).trans hsink⟩
      rw [step_write hs, hw']
      split <;> rfl

/-- In every run, whatever the sink answers: it has accepted the prefixes that
were reported, in order; a `poll_write` that is pending or fails adds nothing;
the side is closed exactly when a shutdown has begun or the sink has said that
it is closed, and from then on nothing is handed to the sink and every
`poll_write` fails with `NotConnected`. -/
theorem write_faithful (hr : Lts.Run step Lts.anything {} h side) :
    side.sink.accepted = written h ∧
      (∀ buf ready sent side' res, side.pollWrite buf ready sent = (side', res) →
        (res = .pending ∨ ∃ err, res = .ready (.error err)) →
          side'.sink.accepted = side.sink.accepted) ∧
      (side.write = .closed ↔ ∃ side₁ call, (side₁, call) ∈ h ∧ closes call) ∧
      (∀ later side₁ call h₁, h = later ++ (side₁, call) :: h₁ → side₁.write = .closed →
        side.sink.handed = side₁.sink.handed) ∧
      (side.write = .closed → ∀ buf ready sent,
        side.pollWrite buf ready sent = (side, .ready (.error notConnected))) := by
  refine ⟨accepted_run hr, ?_, write_run hr, ?_, fun hw => pollWrite_of_closed hw⟩
  · rintro buf ready sent side' res heq hres
    have hacc := side.pollWrite_accepted buf ready sent
    rw [heq] at hacc
    rcases hres with rfl | ⟨err, rfl⟩ <;> exact hacc.trans (List.append_nil _)
  · rintro later side₁ call h₁ rfl hw
    exact congrArg Sink.handed (closed_run hr hw).2

/-- A sink that is not ready at first, refuses one message and closes. -/
theorem write_faithful_closed : ∃ h side, Lts.Run step Lts.anything {} h side ∧
    side.write = .closed ∧ written h = [1, 2, 3] ∧ side.sink.accepted = written h := by
  let ok : Poll (Except Error Unit) := .ready (.ok ())
  obtain ⟨h, side, hr, ht⟩ := Lts.exists_run step Lts.anything {}
    [.pollWrite [1, 2] .pending (.ok ()), .pollWrite [1, 2] ok (.ok ()),
      .pollWrite [9] ok (.error (.other "full")), .pollWrite [3] ok (.ok ()),
      .pollFlush (.ready (.error .connectionClosed)), .pollWrite [4] ok (.ok ())]
    (fun h side => side.write = .closed && written h = [1, 2, 3]) (by decide)
  simp only [Bool.and_eq_true, decide_eq_true_eq] at ht
  exact ⟨h, side, hr, ht.1, ht.2, (write_faithful hr).1⟩

end WriteSide

end MesquitteClient.Ws
