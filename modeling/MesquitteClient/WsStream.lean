import MesquitteClient.Lib.Run

/-!
# The WebSocket byte stream

The read side of `ws_stream.rs`: `WsByteStream` hands out the payloads of the
`Binary` messages of a WebSocket as one stream of bytes, through `poll_read`
and through `poll_fill_buf` with `consume`. The WebSocket is a list of the
answers it will give when polled, and keeps those it has given. A slice past
the end of a vector panics, which is `none` here; it never happens
(`Session.faithful`).
-/

namespace MesquitteClient.Ws

inductive IoErrorKind
  | notConnected
  | other
  /-- a kind the stream passes on -/
  | inner (code : Nat)
  deriving DecidableEq, Repr

/-- `io::Error`. -/
structure IoError where
  kind : IoErrorKind
  message : String
  deriving DecidableEq, Repr

/-- `tungstenite::Error`; the stream puts the other variants in an `io::Error`. -/
inductive Error
  | io (err : IoError)
  | connectionClosed
  | alreadyClosed
  | other (message : String)
  deriving DecidableEq, Repr

/-- `tungstenite::Message`. -/
inductive WsMessage
  | text (text : String)
  | binary (data : List UInt8)
  | ping (data : List UInt8)
  | pong (data : List UInt8)
  | close
  | frame
  deriving DecidableEq, Repr

inductive Poll (α : Type)
  | pending
  | ready (value : α)
  deriving DecidableEq, Repr

/-- What `poll_next` of the WebSocket answers: the end of the stream is `none`. -/
abbrev Answer := Poll (Option (Except Error WsMessage))

/-- The WebSocket: what it will answer, `Pending` from then on, and what it has
answered. -/
structure Inner where
  coming : List Answer
  answered : List Answer := []

inductive ReadState
  | pending
  | ready (data : List UInt8) (amtRead : Nat)
  | terminated
  deriving DecidableEq, Repr

structure WsByteStream where
  inner : Inner
  read : ReadState := .pending

/-- `&data[n..]`. -/
def slice (data : List UInt8) (n : Nat) : Option (List UInt8) :=
  if n ≤ data.length then some (data.drop n) else none

namespace WsByteStream

/-- `fill_buf_with_next_msg`. -/
def fillLoop (answered : List Answer) (read : ReadState) :
    List Answer → WsByteStream × Poll (Option (Except IoError Unit))
  | [] => (⟨⟨[], answered ++ [.pending]⟩, read⟩, .pending)
  | answer :: coming =>
    let inner : Inner := ⟨coming, answered ++ [answer]⟩
    match answer with
    | .pending => (⟨inner, read⟩, .pending)
    | .ready none => (⟨inner, .terminated⟩, .ready none)
    | .ready (some (.ok msg)) =>
      match msg with
      | .binary data => (⟨inner, .ready data 0⟩, .ready (some (.ok ())))
      | .close => (⟨inner, .terminated⟩, .ready none)
      | _ => fillLoop (answered ++ [answer]) read coming
    | .ready (some (.error err)) =>
      match err with
      | .io err => (⟨inner, read⟩, .ready (some (.error err)))
      | .connectionClosed => (⟨inner, .terminated⟩, .ready none)
      | .alreadyClosed =>
        (⟨inner, .terminated⟩, .ready (some (.error ⟨.notConnected, "Already closed"⟩)))
      | .other message => (⟨inner, read⟩, .ready (some (.error ⟨.other, message⟩)))

def fillBufWithNextMsg (stream : WsByteStream) :
    WsByteStream × Poll (Option (Except IoError Unit)) :=
  fillLoop stream.inner.answered stream.read stream.inner.coming

/-- The loop of `poll_read` into a buffer with room for `remaining` bytes: the
bytes put in it. -/
def pollReadLoop (remaining : Nat) :
    Nat → WsByteStream → Option (WsByteStream × Poll (Except IoError (List UInt8)))
  | 0, _ => none
  | fuel + 1, stream =>
    match stream.read with
    | .pending =>
      match stream.fillBufWithNextMsg with
      | (stream, .pending) => some (stream, .pending)
      | (stream, .ready (some (.ok ()))) => pollReadLoop remaining fuel stream
      | (stream, .ready (some (.error err))) => some (stream, .ready (.error err))
      | (stream, .ready none) => pollReadLoop remaining fuel stream
    | .ready data amtRead =>
      (slice data amtRead).map fun dataIn =>
        let len := min remaining dataIn.length
        ({ stream with
            read := if len = dataIn.length then .pending else .ready data (amtRead + len) },
          .ready (.ok (dataIn.take len)))
    | .terminated => some (stream, .ready (.ok []))

def pollRead (remaining : Nat) (stream : WsByteStream) :
    Option (WsByteStream × Poll (Except IoError (List UInt8))) :=
  pollReadLoop remaining 2 stream

/-- The loop of `poll_fill_buf`: the slice it shows. -/
def pollFillBufLoop :
    Nat → WsByteStream → Option (WsByteStream × Poll (Except IoError (List UInt8)))
  | 0, _ => none
  | fuel + 1, stream =>
    match stream.read with
    | .pending =>
      match stream.fillBufWithNextMsg with
      | (stream, .pending) => some (stream, .pending)
      | (stream, .ready (some (.ok ()))) => pollFillBufLoop fuel stream
      | (stream, .ready (some (.error err))) => some (stream, .ready (.error err))
      | (stream, .ready none) => pollFillBufLoop fuel stream
    | .ready data amtRead => (slice data amtRead).map fun shown => (stream, .ready (.ok shown))
    | .terminated => some (stream, .ready (.ok []))

def pollFillBuf (stream : WsByteStream) :
    Option (WsByteStream × Poll (Except IoError (List UInt8))) :=
  pollFillBufLoop 2 stream

def consume (amt : Nat) (stream : WsByteStream) : WsByteStream :=
  match stream.read with
  | .ready data amtRead =>
    let amtRead := min data.length (amtRead + amt)
    { stream with read := if amtRead = data.length then .pending else .ready data amtRead }
  | _ => stream

end WsByteStream

/-- The bytes received that are not handed out yet. -/
def ReadState.unread : ReadState → List UInt8
  | .ready data amtRead => data.drop amtRead
  | _ => []

def WsByteStream.unread (stream : WsByteStream) : List UInt8 := stream.read.unread

-- ---------------------------------------------------------------------------
-- What a call does
-- ---------------------------------------------------------------------------

def payload : Answer → List UInt8
  | .ready (some (.ok (.binary data))) => data
  | _ => []

/-- The bytes received. -/
def payloads (answers : List Answer) : List UInt8 := answers.flatMap payload

@[simp] theorem payloads_append : payloads (as ++ bs) = payloads as ++ payloads bs :=
  List.flatMap_append

/-- How the loop of `fill_buf_with_next_msg` ends, after the last answer. -/
inductive Outcome (read : ReadState) (last : Answer) :
    ReadState → Poll (Option (Except IoError Unit)) → Prop
  | filled : Outcome read last (.ready (payload last) 0) (.ready (some (.ok ())))
  | ended : payload last = [] → Outcome read last .terminated (.ready none)
  | closed : payload last = [] → Outcome read last .terminated (.ready (some (.error err)))
  | failed : payload last = [] → Outcome read last read (.ready (some (.error err)))
  | blocked : payload last = [] → Outcome read last read .pending

theorem Outcome.unread_eq {read : ReadState} (h : Outcome .pending last read res) :
    read.unread = payload last := by
  cases h with
  | filled => rfl
  | ended h | closed h | failed h | blocked h => exact h.symm

theorem Outcome.amtRead_eq (h : Outcome .pending last (.ready data amtRead) res) : amtRead = 0 := by
  cases h
  rfl

/-- The loop polls the WebSocket until an answer ends it; the answers before
that one have no payload. -/
theorem WsByteStream.fillLoop_cases (answered : List Answer) (read : ReadState)
    (coming : List Answer) : ∃ skipped last, payloads skipped = [] ∧
      (fillLoop answered read coming).1.inner.answered = answered ++ (skipped ++ [last]) ∧
      Outcome read last (fillLoop answered read coming).1.read (fillLoop answered read coming).2 := by
  induction coming generalizing answered with
  | nil => exact ⟨[], .pending, rfl, rfl, .blocked rfl⟩
  | cons answer coming ih =>
    -- the loop goes on after a message without a payload
    have hgo (hpay : payload answer = []) (heq : fillLoop answered read (answer :: coming) =
        fillLoop (answered ++ [answer]) read coming) : ∃ skipped last, payloads skipped = [] ∧
          (fillLoop answered read (answer :: coming)).1.inner.answered =
            answered ++ (skipped ++ [last]) ∧
          Outcome read last (fillLoop answered read (answer :: coming)).1.read
            (fillLoop answered read (answer :: coming)).2 := by
      obtain ⟨skipped, last, hskip, hans, hout⟩ := ih (answered ++ [answer])
      refine ⟨answer :: skipped, last, ?_, ?_, ?_⟩
      · simpa [payloads, hpay] using hskip
      · rw [heq, hans]
        simp
      · rw [heq]
        exact hout
    match answer with
    | .pending => exact ⟨[], _, rfl, rfl, .blocked rfl⟩
    | .ready none => exact ⟨[], _, rfl, rfl, .ended rfl⟩
    | .ready (some (.ok msg)) =>
      cases msg with
      | binary data => exact ⟨[], _, rfl, rfl, .filled⟩
      | close => exact ⟨[], _, rfl, rfl, .ended rfl⟩
      | text text | ping data | pong data | frame => exact hgo rfl rfl
    | .ready (some (.error err)) =>
      cases err with
      | io err => exact ⟨[], _, rfl, rfl, .failed rfl⟩
      | connectionClosed => exact ⟨[], _, rfl, rfl, .ended rfl⟩
      | alreadyClosed => exact ⟨[], _, rfl, rfl, .closed rfl⟩
      | other message => exact ⟨[], _, rfl, rfl, .failed rfl⟩

/-- The bytes a poll of the stream answers with. -/
def bytes : Poll (Except IoError (List UInt8)) → List UInt8
  | .ready (.ok bytes) => bytes
  | _ => []

namespace WsByteStream

/-- The slice of a read state does not go past its end. -/
def Bounded (stream : WsByteStream) : Prop :=
  ∀ data amtRead, stream.read = .ready data amtRead → amtRead ≤ data.length

/-- From one state to the next the stream has handed out these bytes, and the
WebSocket has given these answers, all but the last without a payload. -/
structure Moved (stream stream' : WsByteStream) (taken : List UInt8) (new : List Answer) :
    Prop where
  bounded : stream'.Bounded
  answered : stream'.inner.answered = stream.inner.answered ++ new
  skipped : payloads new.dropLast = []
  polled : new ≠ [] → stream.read = .pending
  whole : taken ++ stream'.unread = stream.unread ++ payloads new
  terminated : stream.read = .terminated → stream' = stream

/-- Nothing is polled while there is something to hand out, or after the end. -/
theorem Moved.of_unread (hb : stream'.Bounded) (hi : stream'.inner = stream.inner)
    (hw : taken ++ stream'.unread = stream.unread)
    (ht : stream.read = .terminated → stream' = stream) : Moved stream stream' taken [] where
  bounded := hb
  answered := by rw [hi, List.append_nil]
  skipped := rfl
  polled h := absurd rfl h
  whole := by rw [hw]; exact (List.append_nil _).symm
  terminated := ht

theorem fill_moved (stream : WsByteStream) (hp : stream.read = .pending) :
    ∃ new, Moved stream stream.fillBufWithNextMsg.1 [] new ∧
      ∃ last, Outcome .pending last stream.fillBufWithNextMsg.1.read stream.fillBufWithNextMsg.2 := by
  obtain ⟨skipped, last, hskip, hans, hout⟩ :=
    fillLoop_cases stream.inner.answered stream.read stream.inner.coming
  rw [hp] at hout hans
  refine ⟨skipped ++ [last], ⟨?_, ?_, ?_, fun _ => hp, ?_, fun ht => ?_⟩, last, ?_⟩
  · intro data amtRead hr
    rw [fillBufWithNextMsg, hp] at hr
    rw [hr] at hout
    rw [hout.amtRead_eq]
    exact Nat.zero_le _
  · rw [fillBufWithNextMsg, hp]
    exact hans
  · rw [List.dropLast_concat]
    exact hskip
  · have hlast : stream.fillBufWithNextMsg.1.unread = payload last := by
      rw [fillBufWithNextMsg, hp, unread, hout.unread_eq]
    have hpay : payloads [last] = payload last := by simp [payloads]
    rw [hlast, payloads_append, hskip, hpay, unread, hp]
    rfl
  · cases hp.symm.trans ht
  · rw [fillBufWithNextMsg, hp]
    exact hout

theorem Moved.trans (hf : Moved stream stream₁ [] new) (hp : stream.read = .pending)
    (hr : Moved stream₁ stream' taken []) : Moved stream stream' taken new where
  bounded := hr.bounded
  answered := by rw [hr.answered, hf.answered, List.append_nil]
  skipped := hf.skipped
  polled := hf.polled
  whole := by
    have h1 := hf.whole
    have h2 := hr.whole
    rw [List.nil_append] at h1
    rw [h2, h1]
    exact List.append_nil _
  terminated ht := by cases hp.symm.trans ht

theorem slice_of_le (h : n ≤ data.length) : slice data n = some (data.drop n) := if_pos h

/-- A pass of the loop of `poll_read` that does not poll the WebSocket. -/
theorem pollReadLoop_serve (remaining fuel : Nat) (hb : stream.Bounded)
    (hp : stream.read ≠ .pending) :
    ∃ stream' res, pollReadLoop remaining (fuel + 1) stream = some (stream', res) ∧
      Moved stream stream' (bytes res) [] := by
  cases hr : stream.read with
  | pending => exact absurd hr hp
  | ready data amtRead =>
    have hle := hb data amtRead hr
    simp only [pollReadLoop, hr, slice_of_le hle, Option.map_some]
    refine ⟨_, _, rfl, .of_unread ?_ rfl ?_ fun h => by cases hr.symm.trans h⟩
    · intro data' amt' h
      by_cases hlen : min remaining (data.drop amtRead).length = (data.drop amtRead).length
      · simp only [if_pos hlen, reduceCtorEq] at h
      · simp only [if_neg hlen, ReadState.ready.injEq] at h
        obtain ⟨rfl, rfl⟩ := h
        simp only [List.length_drop] at hlen ⊢
        omega
    · simp only [bytes, unread, hr]
      by_cases hlen : min remaining (data.drop amtRead).length = (data.drop amtRead).length
      · rw [if_pos hlen, hlen, List.take_length]
        exact List.append_nil _
      · simp only [if_neg hlen, ReadState.unread]
        rw [← List.drop_drop, List.take_append_drop]
  | terminated =>
    simp only [pollReadLoop, hr]
    exact ⟨_, _, rfl, .of_unread hb rfl rfl fun _ => rfl⟩

theorem pollFillBufLoop_serve (fuel : Nat) (hb : stream.Bounded) (hp : stream.read ≠ .pending) :
    pollFillBufLoop (fuel + 1) stream = some (stream, .ready (.ok stream.unread)) := by
  cases hr : stream.read with
  | pending => exact absurd hr hp
  | ready data amtRead =>
    simp only [pollFillBufLoop, hr, slice_of_le (hb data amtRead hr), Option.map_some, unread,
      ReadState.unread]
  | terminated => simp only [pollFillBufLoop, hr, unread, ReadState.unread]

/-- `poll_read` returns, and hands out the bytes that come next. -/
theorem pollRead_moved (hb : stream.Bounded) (remaining : Nat) :
    ∃ stream' res new, pollRead remaining stream = some (stream', res) ∧
      Moved stream stream' (bytes res) new := by
  by_cases hp : stream.read = .pending
  · obtain ⟨new, hf, last, hout⟩ := stream.fill_moved hp
    simp only [pollRead, pollReadLoop, hp]
    revert hf hout
    cases stream.fillBufWithNextMsg with
    | mk stream₁ res =>
      intro hf hout
      generalize hread : stream₁.read = read at hout
      -- the loop polls the WebSocket once: it goes on only with a message or the end
      have hserve (hne : read ≠ .pending) :=
        pollReadLoop_serve remaining 0 hf.bounded (hread ▸ hne)
      cases hout with
      | filled =>
        obtain ⟨stream', res, heq, hm⟩ := hserve (by simp)
        exact ⟨stream', res, new, heq, hf.trans hp hm⟩
      | ended h =>
        obtain ⟨stream', res, heq, hm⟩ := hserve (by simp)
        exact ⟨stream', res, new, heq, hf.trans hp hm⟩
      | closed h | failed h | blocked h => exact ⟨_, _, new, rfl, hf⟩
  · obtain ⟨stream', res, heq, hm⟩ := pollReadLoop_serve remaining 1 hb hp
    exact ⟨stream', res, [], heq, hm⟩

/-- `poll_fill_buf` returns, and shows the bytes that come next. -/
theorem pollFillBuf_moved (hb : stream.Bounded) :
    ∃ stream' res new, pollFillBuf stream = some (stream', res) ∧ Moved stream stream' [] new ∧
      bytes res = stream'.unread := by
  by_cases hp : stream.read = .pending
  · obtain ⟨new, hf, last, hout⟩ := stream.fill_moved hp
    simp only [pollFillBuf, pollFillBufLoop, hp]
    revert hf hout
    cases stream.fillBufWithNextMsg with
    | mk stream₁ res =>
      intro hf hout
      generalize hread : stream₁.read = read at hout
      have hserve (hne : read ≠ .pending) := pollFillBufLoop_serve 0 hf.bounded (hread ▸ hne)
      cases hout with
      | filled => exact ⟨_, _, new, hserve (by simp), hf, rfl⟩
      | ended h => exact ⟨_, _, new, hserve (by simp), hf, rfl⟩
      | closed h | failed h | blocked h =>
        refine ⟨_, _, new, rfl, hf, ?_⟩
        rw [unread, hread]
        rfl
  · exact ⟨_, _, [], pollFillBufLoop_serve 1 hb hp, .of_unread hb rfl rfl fun _ => rfl, rfl⟩

/-- `consume` hands out bytes that are there. -/
theorem consume_moved (hb : stream.Bounded) (h : amt ≤ stream.unread.length) :
    Moved stream (stream.consume amt) (stream.unread.take amt) [] := by
  unfold consume
  split
  · rename_i data amtRead hr
    have hle := hb data amtRead hr
    simp only [unread, hr, ReadState.unread, List.length_drop] at h
    have hmin : min data.length (amtRead + amt) = amtRead + amt := by omega
    simp only [hmin]
    refine .of_unread ?_ rfl ?_ fun h => by cases hr.symm.trans h
    · intro data' amt' hr'
      split at hr'
      · cases hr'
      · cases hr'
        omega
    · simp only [unread, hr]
      split
      · rename_i hend
        have hall : (data.drop amtRead).length ≤ amt := by
          rw [List.length_drop]
          omega
        simp only [ReadState.unread, List.take_of_length_le hall, List.append_nil]
      · simp only [ReadState.unread]
        rw [← List.drop_drop, List.take_append_drop]
  · rename_i hr
    have hnil : stream.unread = [] := by
      cases hread : stream.read with
      | ready data amtRead => exact absurd hread (hr data amtRead)
      | pending | terminated => rw [unread, hread]; rfl
    refine .of_unread hb rfl ?_ fun _ => rfl
    rw [hnil, List.take_nil]
    rfl

end WsByteStream

-- ---------------------------------------------------------------------------
-- Reading the stream
-- ---------------------------------------------------------------------------

/-- A reader of the stream: what `poll_fill_buf` showed it and it has not got
yet, and all it has got. -/
structure Session where
  stream : WsByteStream
  shown : List UInt8 := []
  output : List UInt8 := []

inductive Call
  | pollRead (remaining : Nat)
  | pollFillBuf
  | consume (amt : Nat)
  deriving DecidableEq, Repr

namespace Session

open WsByteStream

def new (coming : List Answer) : Session := { stream := { inner := { coming } } }

/-- A call of the reader. It consumes at most what it has been shown. -/
def step (s : Session) : Call → Option Session
  | .pollRead remaining =>
    (s.stream.pollRead remaining).map fun (stream, res) =>
      { stream, shown := s.shown.drop (bytes res).length, output := s.output ++ bytes res }
  | .pollFillBuf =>
    s.stream.pollFillBuf.map fun (stream, res) => { s with stream, shown := bytes res }
  | .consume amt =>
    if amt ≤ s.shown.length then
      some { stream := s.stream.consume amt
             shown := s.shown.drop amt
             output := s.output ++ s.shown.take amt }
    else none

def answered (s : Session) : List Answer := s.stream.inner.answered

structure Whole (s : Session) : Prop where
  bounded : s.stream.Bounded
  shown : s.shown <+: s.stream.unread
  whole : s.output ++ s.stream.unread = payloads s.answered

theorem whole_new (coming : List Answer) : Whole (new coming) where
  bounded _ _ h := by cases h
  shown := List.nil_prefix
  whole := rfl

/-- What is left of a prefix once the first bytes have been taken. -/
theorem drop_prefix {shown taken rest : List UInt8} (hp : shown <+: taken ++ rest) :
    shown.drop taken.length <+: rest := by
  obtain ⟨tail, ht⟩ := hp
  refine ⟨tail.drop (taken.length - shown.length), ?_⟩
  rw [← List.drop_append, ht, List.drop_left]

theorem Whole.moved (hw : Whole s) (hs : s.step call = some s') :
    ∃ taken new, Moved s.stream s'.stream taken new ∧ s'.output = s.output ++ taken ∧
      s'.shown <+: s'.stream.unread := by
  cases call with
  | pollRead remaining =>
    obtain ⟨stream', res, new, heq, hm⟩ := pollRead_moved hw.bounded remaining
    simp only [step, heq, Option.map_some, Option.some.injEq] at hs
    subst hs
    refine ⟨bytes res, new, hm, rfl, ?_⟩
    by_cases hnew : new = []
    · subst hnew
      have hwhole : bytes res ++ stream'.unread = s.stream.unread :=
        hm.whole.trans (List.append_nil _)
      exact drop_prefix (hwhole ▸ hw.shown)
    · -- the WebSocket was polled, so there was nothing to show
      have hnil : s.stream.unread = [] := by rw [unread, hm.polled hnew]; rfl
      have hshown : s.shown = [] := List.prefix_nil.mp (hnil ▸ hw.shown)
      rw [hshown, List.drop_nil]
      exact List.nil_prefix
  | pollFillBuf =>
    obtain ⟨stream', res, new, heq, hm, hres⟩ := pollFillBuf_moved hw.bounded
    simp only [step, heq, Option.map_some, Option.some.injEq] at hs
    subst hs
    exact ⟨[], new, hm, (List.append_nil _).symm, [], (List.append_nil _).trans hres⟩
  | consume amt =>
    simp only [step, Option.ite_none_right_eq_some, Option.some.injEq] at hs
    obtain ⟨hle, rfl⟩ := hs
    have hlen : amt ≤ s.stream.unread.length := Nat.le_trans hle hw.shown.length_le
    have htake : s.stream.unread.take amt = s.shown.take amt := by
      obtain ⟨rest, hrest⟩ := hw.shown
      rw [← hrest, List.take_append_of_le_length hle]
    have hm := consume_moved hw.bounded hlen
    rw [htake] at hm
    refine ⟨_, [], hm, rfl, ?_⟩
    have hwhole : s.shown.take amt ++ (s.stream.consume amt).unread = s.stream.unread :=
      hm.whole.trans (List.append_nil _)
    have hdrop := drop_prefix (hwhole ▸ hw.shown)
    rwa [List.length_take_of_le hle] at hdrop

theorem Whole.step (hw : Whole s) (hs : s.step call = some s') : Whole s' := by
  obtain ⟨taken, new, hm, hout, hshown⟩ := hw.moved hs
  refine ⟨hm.bounded, hshown, ?_⟩
  calc s'.output ++ s'.stream.unread
      = s.output ++ (taken ++ s'.stream.unread) := by rw [hout, List.append_assoc]
    _ = s.output ++ s.stream.unread ++ payloads new := by rw [hm.whole, List.append_assoc]
    _ = payloads s'.answered := by rw [hw.whole, answered, answered, hm.answered, payloads_append]

/-- Each time the call polls the WebSocket, all that was received before is
handed out. -/
def PollsDrained (s s' : Session) : Prop :=
  ∀ before answer after, s'.answered = before ++ answer :: after →
    s.answered.length ≤ before.length → s.output = payloads before

theorem Whole.pollsDrained (hw : Whole s) (hs : s.step call = some s') : PollsDrained s s' := by
  obtain ⟨taken, new, hm, _, _⟩ := hw.moved hs
  intro before answer after hsplit hlen
  have hans : s.answered ++ new = before ++ answer :: after := hm.answered.symm.trans hsplit
  obtain ⟨skipped, rfl⟩ : s.answered <+: before :=
    List.prefix_of_prefix_length_le ⟨new, hans⟩ ⟨answer :: after, rfl⟩ hlen
  rw [List.append_assoc] at hans
  have hnew := List.append_cancel_left hans
  have hnone : payloads skipped = [] := by
    have hskip := hm.skipped
    rw [hnew, List.dropLast_append_cons, payloads_append] at hskip
    exact (List.append_eq_nil_iff.mp hskip).1
  have hpend := hm.polled (by rw [hnew]; simp)
  have hwhole := hw.whole
  rw [WsByteStream.unread, hpend] at hwhole
  rw [payloads_append, hnone, ← hwhole]
  exact (List.append_nil _).symm.trans (List.append_nil _).symm

theorem Whole.terminated (hw : Whole s) (hs : s.step call = some s')
    (ht : s.stream.read = .terminated) : s'.stream = s.stream ∧ s'.output = s.output := by
  obtain ⟨taken, new, hm, hout, _⟩ := hw.moved hs
  have hsame := hm.terminated ht
  refine ⟨hsame, ?_⟩
  have hnew : new = [] := by
    by_contra hnew
    cases (hm.polled hnew).symm.trans ht
  have hwhole := hm.whole
  rw [hsame, hnew] at hwhole
  have htaken : taken = [] := by
    rw [WsByteStream.unread, ht] at hwhole
    exact (List.append_eq_nil_iff.mp hwhole).1
  rw [hout, htaken, List.append_nil]

theorem whole (hr : Lts.Run step Lts.anything (new coming) h s) : Whole s :=
  hr.invariant (P := fun _ s => Whole s) (whole_new coming) fun _ hw _ hs => hw.step hs

theorem terminated_run (hr : Lts.Run step Lts.anything (new coming) (later ++ (s₁, call) :: h) s)
    (ht : s₁.stream.read = .terminated) : s.stream = s₁.stream ∧ s.output = s₁.output := by
  induction later generalizing s with
  | nil =>
    cases hr with
    | snoc hr _ hs => exact (whole hr).terminated hs ht
  | cons last later ih =>
    cases hr with
    | snoc hr _ hs =>
      obtain ⟨hstream, hout⟩ := ih hr
      obtain ⟨hstream', hout'⟩ := (whole hr).terminated hs (hstream ▸ ht)
      exact ⟨hstream'.trans hstream, hout'.trans hout⟩

/-- Whatever the WebSocket answers and whichever calls are made, in any order:
what the reader has got and what the stream still holds are the payloads
received; no slice goes past its end; the WebSocket is polled only when
everything received has been handed out; and after the end it is not polled
and nothing more is handed out. -/
theorem faithful (hr : Lts.Run step Lts.anything (new coming) h s) :
    s.output ++ s.stream.unread = payloads s.answered ∧
      (∀ remaining, (s.stream.pollRead remaining).isSome) ∧ s.stream.pollFillBuf.isSome ∧
      (∀ call s', s.step call = some s' → PollsDrained s s') ∧
      ∀ later s₁ call h₁, h = later ++ (s₁, call) :: h₁ → s₁.stream.read = .terminated →
        s.answered = s₁.answered ∧ s.output = s₁.output := by
  have hw := whole hr
  refine ⟨hw.whole, fun remaining => ?_, ?_, fun call s' hs => hw.pollsDrained hs, ?_⟩
  · obtain ⟨_, _, _, heq, _⟩ := pollRead_moved hw.bounded remaining
    rw [heq]
    rfl
  · obtain ⟨_, _, _, heq, _⟩ := pollFillBuf_moved hw.bounded
    rw [heq]
    rfl
  · rintro later s₁ call h₁ rfl ht
    obtain ⟨hstream, hout⟩ := terminated_run hr ht
    exact ⟨congrArg (·.inner.answered) hstream, hout⟩

/-- Two messages with a `Ping` between, read through both interfaces. -/
theorem faithful_mixed : ∃ h s, Lts.Run step Lts.anything
      (new [.ready (some (.ok (.binary [1, 2, 3]))), .pending, .ready (some (.ok (.ping []))),
        .ready (some (.ok (.binary [4, 5]))), .ready none]) h s ∧
    s.output = [1, 2, 3, 4, 5] ∧ s.output ++ s.stream.unread = payloads s.answered := by
  obtain ⟨h, s, hr, ht⟩ := Lts.exists_run step Lts.anything
    (new [.ready (some (.ok (.binary [1, 2, 3]))), .pending, .ready (some (.ok (.ping []))),
      .ready (some (.ok (.binary [4, 5]))), .ready none])
    [.pollRead 2, .pollFillBuf, .consume 1, .pollRead 8, .pollFillBuf, .consume 1, .pollRead 8,
      .pollRead 8]
    (fun _ s => s.output = [1, 2, 3, 4, 5]) (by decide)
  exact ⟨h, s, hr, of_decide_eq_true ht, (faithful hr).1⟩

end Session

end MesquitteClient.Ws
