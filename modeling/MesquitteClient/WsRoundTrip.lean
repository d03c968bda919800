import MesquitteClient.EndOfStream
import MesquitteClient.Lib.Simulation
import MesquitteClient.WsSink

/-!
# From one end of a WebSocket to the other

What the reader of a `WsByteStream` can still get is determined by what the
WebSocket will answer before it ends, and every read with room brings it
nearer to having got it (`reads_left`). Which of the two interfaces it reads
through makes no difference (`buffered_enough`). So what the writer at one end
was told is written is what the reader at the other end gets, however it is
cut into buffers on either side (`round_trip`).
-/

namespace MesquitteClient.Ws

/-- What a WebSocket answers before it ends. -/
def untilEnd : List Answer → List Answer
  | [] => []
  | answer :: coming => if ends answer then [] else answer :: untilEnd coming

namespace WsByteStream

-- ---------------------------------------------------------------------------
-- The two interfaces
-- ---------------------------------------------------------------------------

/-- `consume` of what was shown, as far as there is room for it. -/
def copyOut (remaining : Nat) : WsByteStream × Poll (Except IoError (List UInt8)) →
    WsByteStream × Poll (Except IoError (List UInt8))
  | (stream, .ready (.ok shown)) =>
    (stream.consume (min remaining shown.length), .ready (.ok (shown.take remaining)))
  | (stream, res) => (stream, res)

theorem pollReadLoop_eq (remaining fuel : Nat) (stream : WsByteStream) :
    pollReadLoop remaining fuel stream = (pollFillBufLoop fuel stream).map (copyOut remaining) := by
  induction fuel generalizing stream with
  | zero => rfl
  | succ fuel ih =>
    cases hr : stream.read with
    | pending =>
      simp only [pollReadLoop, pollFillBufLoop, hr]
      obtain ⟨stream₁, res⟩ := stream.fillBufWithNextMsg
      cases res with
      | pending => rfl
      | ready item =>
        cases item with
        | none => exact ih stream₁
        | some item =>
          cases item with
          | ok _ => exact ih stream₁
          | error err => rfl
    | terminated => simp [pollReadLoop, pollFillBufLoop, hr, copyOut, consume]
    | ready data amtRead =>
      simp only [pollReadLoop, pollFillBufLoop, hr, slice]
      split
      · rename_i hle
        have hend : min data.length (amtRead + min remaining (data.drop amtRead).length) =
            amtRead + min remaining (data.drop amtRead).length := by
          simp only [List.length_drop]
          omega
        have hiff : amtRead + min remaining (data.drop amtRead).length = data.length ↔
            min remaining (data.drop amtRead).length = (data.drop amtRead).length := by
          simp only [List.length_drop]
          omega
        have htake : (data.drop amtRead).take (min remaining (data.drop amtRead).length) =
            (data.drop amtRead).take remaining := List.take_eq_take_min.symm
        simp only [Option.map_some, copyOut, consume, hr, hend, hiff, htake]
      · rfl

/-- `poll_read` is `poll_fill_buf`, a copy of what there is room for, and a
`consume` of it; it does the same to the stream and fails in the same cases. -/
theorem pollRead_eq (remaining : Nat) (stream : WsByteStream) :
    stream.pollRead remaining = stream.pollFillBuf.map (copyOut remaining) :=
  pollReadLoop_eq remaining 2 stream

-- ---------------------------------------------------------------------------
-- What is left to read
-- ---------------------------------------------------------------------------

/-- The stream once `poll_fill_buf` has polled the WebSocket, if it does. -/
def filled (stream : WsByteStream) : WsByteStream :=
  if stream.read = .pending then stream.fillBufWithNextMsg.1 else stream

/-- What the reader can still get. -/
def left (stream : WsByteStream) : List UInt8 :=
  stream.unread ++
    if stream.read = .terminated then [] else payloads (untilEnd stream.inner.coming)

/-- How many reads with room it takes at most to get it. -/
def work (stream : WsByteStream) : Nat :=
  stream.left.length + stream.inner.coming.length + if stream.read = .pending then 0 else 1

theorem filled_of_ne {stream : WsByteStream} (hp : stream.read ≠ .pending) :
    stream.filled = stream := if_neg hp

theorem unread_of_pending {stream : WsByteStream} (hp : stream.read = .pending) :
    stream.unread = [] := by rw [unread, hp]; rfl

theorem left_of_pending {stream : WsByteStream} (hp : stream.read = .pending) :
    stream.left = payloads (untilEnd stream.inner.coming) := by
  simp [left, unread_of_pending hp, hp]

theorem left_of_terminated {stream : WsByteStream} (ht : stream.read = .terminated) :
    stream.left = [] := by
  simp [left, unread, ht, ReadState.unread]

/-- Filling the buffer takes an answer, if there is one, and nothing from what
is left. -/
theorem fillLoop_left (answered coming : List Answer) :
    (fillLoop answered .pending coming).1.left = payloads (untilEnd coming) ∧
      (fillLoop answered .pending coming).1.inner.coming.length ≤ coming.length - 1 := by
  induction coming generalizing answered with
  | nil => exact ⟨rfl, Nat.le_refl _⟩
  | cons answer coming ih =>
    have hrest (ha : ends answer = false) (hpay : payload answer = []) :
        payloads (untilEnd (answer :: coming)) = payloads (untilEnd coming) := by
      simp [untilEnd, ha, payloads, hpay]
    cases answer with
    | pending => exact ⟨(left_of_pending rfl).trans (hrest rfl rfl).symm, Nat.le_refl _⟩
    | ready item =>
      cases item with
      | none => exact ⟨rfl, Nat.le_refl _⟩
      | some item =>
        cases item with
        | ok msg =>
          cases msg with
          | binary data => exact ⟨rfl, Nat.le_refl _⟩
          | close => exact ⟨rfl, Nat.le_refl _⟩
          | text text | ping data | pong data | frame =>
            obtain ⟨hleft, hlen⟩ := ih (answered ++ [_])
            exact ⟨hleft.trans (hrest rfl rfl).symm, Nat.le_trans hlen (Nat.sub_le _ _)⟩
        | error err =>
          cases err with
          | io err | other message =>
            exact ⟨(left_of_pending rfl).trans (hrest rfl rfl).symm, Nat.le_refl _⟩
          | connectionClosed | alreadyClosed => exact ⟨rfl, Nat.le_refl _⟩

theorem filled_left (stream : WsByteStream) : stream.filled.left = stream.left := by
  by_cases hp : stream.read = .pending
  · rw [filled, if_pos hp, fillBufWithNextMsg, hp, left_of_pending hp]
    exact (fillLoop_left _ _).1
  · rw [filled_of_ne hp]

/-- A stream that is still pending has used up an answer. -/
theorem filled_work (stream : WsByteStream) : stream.left = [] ∨
    stream.filled.work + (if stream.filled.read = .pending then 1 else 0) ≤ stream.work := by
  by_cases hp : stream.read = .pending
  · have hleft := stream.filled_left
    have hlen : stream.filled.inner.coming.length ≤ stream.inner.coming.length - 1 := by
      rw [filled, if_pos hp, fillBufWithNextMsg, hp]
      exact (fillLoop_left _ _).2
    by_cases hnil : stream.inner.coming = []
    · exact .inl (by rw [left_of_pending hp, hnil]; rfl)
    · have hpos := List.length_pos_iff.mpr hnil
      right
      simp only [work, hleft, if_pos hp]
      split <;> omega
  · right
    rw [filled_of_ne hp, if_neg hp]
    exact Nat.le_refl _

theorem pollFillBuf_filled {stream : WsByteStream} (hb : stream.Bounded) :
    ∃ res, stream.pollFillBuf = some (stream.filled, res) ∧
      (res = .ready (.ok stream.filled.unread) ∨
        stream.filled.unread = [] ∧ (∀ shown, res ≠ .ready (.ok shown)) ∧
          ∀ data amtRead, stream.filled.read ≠ .ready data amtRead) := by
  by_cases hp : stream.read = .pending
  · obtain ⟨new, hm, last, hout⟩ := stream.fill_moved hp
    rw [pollFillBuf_of_pending hp, filled, if_pos hp]
    revert hm hout
    cases stream.fillBufWithNextMsg with
    | mk stream₁ res =>
      intro hm hout
      generalize hread : stream₁.read = read at hout
      have hserve (hne : read ≠ .pending) := pollFillBufLoop_serve 0 hm.bounded (hread ▸ hne)
      cases hout with
      | filled => exact ⟨_, hserve (by simp), .inl rfl⟩
      | ended _ => exact ⟨_, hserve (by simp), .inl rfl⟩
      | closed _ | failed _ | blocked _ =>
        refine ⟨_, rfl, .inr ⟨?_, by simp, by simp⟩⟩
        rw [unread, hread]
        rfl
  · rw [filled_of_ne hp]
    exact ⟨_, pollFillBufLoop_serve 1 hb hp, .inl rfl⟩

theorem consume_of_ne {stream : WsByteStream} (h : ∀ data amtRead, stream.read ≠ .ready data amtRead)
    (amt : Nat) : stream.consume amt = stream := by
  unfold consume
  split
  · rename_i data amtRead hr
    exact absurd hr (h data amtRead)
  · rfl

/-- `poll_read` fills the buffer and hands out as much of it as there is room
for. -/
theorem pollRead_filled {stream : WsByteStream} (hb : stream.Bounded) (remaining : Nat) :
    ∃ res, stream.pollRead remaining =
        some (stream.filled.consume (min remaining stream.filled.unread.length), res) ∧
      bytes res = stream.filled.unread.take remaining := by
  obtain ⟨res, heq, hres⟩ := pollFillBuf_filled hb
  rw [pollRead_eq, heq]
  rcases hres with rfl | ⟨hnil, hno, hread⟩
  · exact ⟨_, rfl, rfl⟩
  · rw [consume_of_ne hread, hnil, List.take_nil]
    match res with
    | .pending => exact ⟨_, rfl, rfl⟩
    | .ready (.error err) => exact ⟨_, rfl, rfl⟩
    | .ready (.ok shown) => exact absurd rfl (hno shown)

theorem pollFillBuf_bytes {stream : WsByteStream} (hb : stream.Bounded) :
    ∃ res, stream.pollFillBuf = some (stream.filled, res) ∧ bytes res = stream.filled.unread := by
  obtain ⟨res, heq, hres⟩ := pollFillBuf_filled hb
  refine ⟨res, heq, ?_⟩
  rcases hres with rfl | ⟨hnil, hno, _⟩
  · rfl
  · rw [hnil]
    match res with
    | .pending | .ready (.error err) => rfl
    | .ready (.ok shown) => exact absurd rfl (hno shown)

theorem consume_unread {stream : WsByteStream} (hb : stream.Bounded)
    (hle : amt ≤ stream.unread.length) : (stream.consume amt).unread = stream.unread.drop amt := by
  have hwhole := (consume_moved hb hle).whole
  rw [payloads, List.flatMap_nil, List.append_nil] at hwhole
  exact List.append_cancel_left (hwhole.trans (List.take_append_drop amt _).symm)

theorem consume_inner (stream : WsByteStream) (amt : Nat) :
    (stream.consume amt).inner = stream.inner := by
  unfold consume
  split <;> rfl

theorem consume_read {stream : WsByteStream} (hr : stream.read = .ready data amtRead) (amt : Nat) :
    (stream.consume amt).read = if min data.length (amtRead + amt) = data.length then .pending
      else .ready data (min data.length (amtRead + amt)) := by
  simp only [consume, hr]

/-- What is consumed was left. -/
theorem consume_left {stream : WsByteStream} (hb : stream.Bounded)
    (hle : amt ≤ stream.unread.length) :
    stream.unread.take amt ++ (stream.consume amt).left = stream.left := by
  have hwhole := (consume_moved hb hle).whole
  have hterm : (stream.consume amt).read = .terminated ↔ stream.read = .terminated := by
    cases hr : stream.read with
    | ready data amtRead =>
      rw [consume_read hr]
      split <;> simp
    | pending | terminated => rw [consume_of_ne (by simp [hr]), hr]
  simp only [left, hterm, consume_inner, ← List.append_assoc, hwhole]
  rw [payloads, List.flatMap_nil, List.append_nil]

theorem consume_work {stream : WsByteStream} (hb : stream.Bounded)
    (hle : amt ≤ stream.unread.length) :
    (stream.consume amt).work + amt ≤ stream.work ∧
      (amt = stream.unread.length → stream.read ≠ .pending → stream.read ≠ .terminated →
        (stream.consume amt).work + amt < stream.work) := by
  have hlen := congrArg List.length (consume_left hb hle)
  rw [List.length_append, List.length_take_of_le hle] at hlen
  cases hr : stream.read with
  | ready data amtRead =>
    have hbound := hb data amtRead hr
    rw [unread, hr, ReadState.unread, List.length_drop] at hle
    simp only [work, consume_inner, consume_read hr, hr, unread, ReadState.unread,
      List.length_drop]
    by_cases hend : min data.length (amtRead + amt) = data.length
    · simp only [if_pos hend, reduceCtorEq, if_true, if_false]
      omega
    · simp only [if_neg hend, reduceCtorEq, if_false]
      omega
  | pending | terminated =>
    have hread : ∀ data amtRead, stream.read ≠ .ready data amtRead := by simp [hr]
    have hz : amt = 0 := by simpa [unread, hr, ReadState.unread] using hle
    rw [consume_of_ne hread, hz]
    simp

theorem filled_bounded {stream : WsByteStream} (hb : stream.Bounded) : stream.filled.Bounded := by
  by_cases hp : stream.read = .pending
  · obtain ⟨_, hm, _⟩ := stream.fill_moved hp
    rw [filled, if_pos hp]
    exact hm.bounded
  · rwa [filled_of_ne hp]

/-- A read hands out what is left, and one with room has less to do after it. -/
theorem pollRead_left {stream : WsByteStream} (hb : stream.Bounded) (remaining : Nat) :
    ∃ stream' res, stream.pollRead remaining = some (stream', res) ∧
      bytes res ++ stream'.left = stream.left ∧ (stream.left = [] ∨
        stream'.work + (if 0 < remaining then 1 else 0) ≤ stream.work) := by
  obtain ⟨res, heq, hres⟩ := pollRead_filled hb remaining
  have hle := Nat.min_le_right remaining stream.filled.unread.length
  have hbf := filled_bounded hb
  refine ⟨_, res, heq, ?_, ?_⟩
  · rw [hres, List.take_eq_take_min, consume_left hbf hle, filled_left]
  · rcases stream.filled_work with hnil | hwork
    · exact .inl hnil
    · obtain ⟨hless, hlast⟩ := consume_work hbf hle
      by_cases ht : stream.filled.read = .terminated
      · exact .inl (stream.filled_left ▸ left_of_terminated ht)
      · right
        by_cases hp : stream.filled.read = .pending
        · rw [if_pos hp] at hwork
          split <;> omega
        · rw [if_neg hp] at hwork
          -- room for all that is there, or for some of it
          by_cases hall : stream.filled.unread.length ≤ remaining
          · have hlt := hlast (Nat.min_eq_right hall) hp ht
            split <;> omega
          · split <;> omega

end WsByteStream

-- ---------------------------------------------------------------------------
-- Reading all of it
-- ---------------------------------------------------------------------------

namespace Session

open WsByteStream

/-- A read into a buffer with room. -/
def withRoom : Call → Bool
  | .pollRead remaining => 0 < remaining
  | _ => false

/-- What every reader can get of these answers. -/
def readable (coming : List Answer) : List UInt8 := payloads (untilEnd coming)

/-- Every call hands out what is left, and adds no work. -/
theorem step_left (hw : Whole s) (hs : s.step call = some s') :
    s'.output ++ s'.stream.left = s.output ++ s.stream.left ∧ (s.stream.left = [] ∨
      s'.stream.work + (if withRoom call then 1 else 0) ≤ s.stream.work) := by
  cases call with
  | pollRead remaining =>
    obtain ⟨stream', res, heq, hleft, hwork⟩ := pollRead_left hw.bounded remaining
    simp only [step, heq, Option.map_some, Option.some.injEq] at hs
    subst hs
    simp only [List.append_assoc, hleft, withRoom, decide_eq_true_eq, true_and]
    exact hwork
  | pollFillBuf =>
    obtain ⟨res, heq, _⟩ := pollFillBuf_bytes hw.bounded
    simp only [step, heq, Option.map_some, Option.some.injEq] at hs
    subst hs
    refine ⟨by rw [s.stream.filled_left], s.stream.filled_work.imp_right fun hwork => ?_⟩
    exact Nat.le_trans (Nat.le_add_right _ _) hwork
  | consume amt =>
    simp only [step, Option.ite_none_right_eq_some, Option.some.injEq] at hs
    obtain ⟨hle, rfl⟩ := hs
    have hlen : amt ≤ s.stream.unread.length := Nat.le_trans hle hw.shown.length_le
    have htake : s.stream.unread.take amt = s.shown.take amt := by
      obtain ⟨rest, hrest⟩ := hw.shown
      rw [← hrest, List.take_append_of_le_length hle]
    refine ⟨?_, .inr (Nat.le_trans (Nat.le_add_right _ _) (consume_work hw.bounded hlen).1)⟩
    rw [← consume_left hw.bounded hlen, htake, List.append_assoc]

/-- What a run of any calls has got is a first part of what can be got, and
what is still to be done for the rest. -/
theorem left_run (hr : Lts.Run step Lts.anything (new coming) h s) :
    s.output ++ s.stream.left = readable coming ∧ (s.stream.left = [] ∨
      s.stream.work + h.countP (withRoom ·.2) ≤ (readable coming).length + coming.length) := by
  induction hr with
  | nil =>
    have hleft : (new coming).stream.left = readable coming := left_of_pending rfl
    refine ⟨hleft, .inr ?_⟩
    rw [work, hleft]
    exact Nat.le_refl _
  | @snoc h s call s' hr _ hs ih =>
    obtain ⟨hall, hwork⟩ := ih
    obtain ⟨hsame, hstep⟩ := step_left (whole hr) hs
    refine ⟨hsame.trans hall, ?_⟩
    have hnil (hnil : s.stream.left = []) : s'.stream.left = [] := by
      obtain ⟨taken, _, _, hout, _⟩ := (whole hr).moved hs
      rw [hnil, hout, List.append_assoc, List.append_right_inj] at hsame
      exact (List.append_eq_nil_iff.mp hsame).2
    rcases hstep with h | hstep
    · exact .inl (hnil h)
    · refine hwork.imp hnil fun hwork => ?_
      simp only [List.countP_cons]
      omega

/-- Whatever order the calls of a reader come in and whatever the WebSocket
answers, what it has got is a first part of the payloads before the end, and
all of them once it has made as many reads with room as there are bytes and
answers. -/
theorem reads_left (hr : Lts.Run step Lts.anything (new coming) h s) :
    s.output <+: readable coming ∧
      ((readable coming).length + coming.length ≤ h.countP (withRoom ·.2) →
        s.output = readable coming) := by
  obtain ⟨hall, hwork⟩ := left_run hr
  refine ⟨⟨_, hall⟩, fun hmany => ?_⟩
  have hnil : s.stream.left = [] := by
    refine hwork.elim id fun hwork => List.eq_nil_of_length_eq_zero ?_
    rw [work] at hwork
    omega
  rw [← hall, hnil, List.append_nil]

-- ---------------------------------------------------------------------------
-- Through one interface
-- ---------------------------------------------------------------------------

/-- A call as calls of `AsyncBufRead`. -/
def buffered : Session × Call → List Call
  | (s, .pollRead remaining) =>
    [.pollFillBuf, .consume (min remaining s.stream.filled.unread.length)]
  | (_, call) => [call]

/-- The one reader has got what the other has, and has been shown as much. -/
structure Ahead (s a : Session) : Prop where
  stream : a.stream = s.stream
  output : a.output = s.output
  shown : s.shown <+: a.shown

theorem Ahead.follow (ha : Ahead s a) (hw : Whole s) (hs : s.step call = some s') :
    ∃ a', Lts.Path (fun a call a' => a.step call = some a') a (buffered (s, call)) a' ∧
      Ahead s' a' := by
  have hshown := (hw.step hs).shown
  cases call with
  | pollRead remaining =>
    obtain ⟨res, hread, hbytes⟩ := pollRead_filled hw.bounded remaining
    obtain ⟨shown, hfill, hbytes'⟩ := pollFillBuf_bytes hw.bounded
    simp only [step, hread, Option.map_some, Option.some.injEq] at hs
    subst hs
    have hle := Nat.min_le_right remaining s.stream.filled.unread.length
    rw [buffered]
    rw [List.take_eq_take_min] at hbytes
    generalize min remaining s.stream.filled.unread.length = amt at hshown hle hbytes ⊢
    have hfilled : a.step .pollFillBuf =
        some { a with stream := s.stream.filled, shown := s.stream.filled.unread } := by
      rw [step, ha.stream, hfill, ← hbytes']
      rfl
    have hconsumed : ({ a with stream := s.stream.filled, shown := s.stream.filled.unread } :
        Session).step (.consume amt) = some ⟨s.stream.filled.consume amt,
          s.stream.filled.unread.drop amt, a.output ++ s.stream.filled.unread.take amt⟩ :=
      if_pos hle
    refine ⟨_, .cons hfilled (.single hconsumed), rfl, ?_, ?_⟩
    · rw [ha.output, hbytes]
    · rw [← consume_unread (filled_bounded hw.bounded) hle]
      exact hshown
  | pollFillBuf =>
    refine ⟨{ s' with output := a.output }, .single ?_, rfl, ?_, List.prefix_refl _⟩
    · rw [step, Option.map_eq_some_iff] at hs ⊢
      obtain ⟨r, hr, rfl⟩ := hs
      exact ⟨r, ha.stream ▸ hr, rfl⟩
    · rw [step, Option.map_eq_some_iff] at hs
      obtain ⟨r, _, rfl⟩ := hs
      exact ha.output
  | consume amt =>
    simp only [step, Option.ite_none_right_eq_some, Option.some.injEq] at hs
    obtain ⟨hle, rfl⟩ := hs
    obtain ⟨rest, hrest⟩ := ha.shown
    refine ⟨_, .single (if_pos (Nat.le_trans hle ha.shown.length_le)), ?_, ?_, rest, ?_⟩
    · rw [ha.stream]
    · rw [ha.output, ← hrest, List.take_append_of_le_length hle]
    · rw [← hrest, List.drop_append_of_le_length hle]

/-- `AsyncRead` gives a reader nothing that `AsyncBufRead` does not. At every
point of a run of calls of both, a `poll_read` would answer what a
`poll_fill_buf` would, cut to the room there is; and the calls with each
`poll_read` replaced by a `poll_fill_buf` and a `consume` are a run too, which
leads to the same stream and has got the same bytes. -/
theorem buffered_enough (hr : Lts.Run step Lts.anything (new coming) h s) :
    (∀ remaining, s.stream.pollRead remaining = s.stream.pollFillBuf.map (copyOut remaining)) ∧
      ∃ a, Lts.Path (fun a call a' => a.step call = some a') (new coming)
        (Lts.shown buffered h) a ∧ a.stream = s.stream ∧ a.output = s.output := by
  refine ⟨fun remaining => pollReadLoop_eq remaining 2 s.stream, ?_⟩
  have h0 : Ahead (new coming) (new coming) := ⟨rfl, rfl, List.prefix_refl _⟩
  obtain ⟨a, hp, ha⟩ := hr.simulates h0 fun hr ha _ hs => ha.follow (whole hr) hs
  exact ⟨a, hp, ha.stream, ha.output⟩

/-- A message read in two parts, a `Ping`, and an error. -/
theorem buffered_enough_mixed : ∃ h s, Lts.Run step Lts.anything
      (new [.ready (some (.ok (.binary [1, 2, 3]))), .ready (some (.ok (.ping []))),
        .ready (some (.error (.other "frame")))]) h s ∧
    s.output = [1, 2, 3] ∧ (∃ a, Lts.Path (fun a call a' => a.step call = some a')
      (new [.ready (some (.ok (.binary [1, 2, 3]))), .ready (some (.ok (.ping []))),
        .ready (some (.error (.other "frame")))]) (Lts.shown buffered h) a ∧
      a.stream = s.stream ∧ a.output = s.output) := by
  obtain ⟨h, s, hr, ht⟩ := Lts.exists_run step Lts.anything
    (new [.ready (some (.ok (.binary [1, 2, 3]))), .ready (some (.ok (.ping []))),
      .ready (some (.error (.other "frame")))])
    [.pollRead 2, .pollFillBuf, .pollRead 8, .pollRead 8]
    (fun _ s => s.output = [1, 2, 3]) (by decide)
  exact ⟨h, s, hr, of_decide_eq_true ht, (buffered_enough hr).2⟩

end Session

-- ---------------------------------------------------------------------------
-- Both ends
-- ---------------------------------------------------------------------------

def received : Answer → Option (List UInt8)
  | .ready (some (.ok (.binary data))) => some data
  | _ => none

def sent : WsMessage × Except Error Unit → Option (List UInt8)
  | (.binary data, .ok ()) => some data
  | _ => none

theorem payloads_eq (answers : List Answer) :
    payloads answers = (answers.filterMap received).flatten := by
  induction answers with
  | nil => rfl
  | cons answer answers ih =>
    have hcons : payloads (answer :: answers) = payload answer ++ payloads answers := rfl
    rw [hcons, ih, List.filterMap_cons]
    match answer with
    | .pending | .ready none | .ready (some (.error err)) => rfl
    | .ready (some (.ok msg)) => cases msg <;> rfl

theorem accepted_eq (sink : Sink) : sink.accepted = (sink.handed.filterMap sent).flatten := by
  rw [Sink.accepted]
  induction sink.handed with
  | nil => rfl
  | cons handed rest ih =>
    rw [List.flatMap_cons, ih, List.filterMap_cons]
    obtain ⟨msg, answer⟩ := handed
    cases msg <;> cases answer <;> rfl

/-- The WebSocket delivers messages whole and in order, among others and until
it ends. Then a reader has got a first part of what the writer was told is
written, whatever either did, and all of it once all has arrived and the reader
has made enough reads with room. -/
theorem round_trip (hw : Lts.Run WriteSide.step Lts.anything {} hist side)
    (hc : (untilEnd coming).filterMap received <+: side.sink.handed.filterMap sent)
    (hr : Lts.Run Session.step Lts.anything (Session.new coming) h s) :
    s.output <+: WriteSide.written hist ∧
      ((untilEnd coming).filterMap received = side.sink.handed.filterMap sent →
        (WriteSide.written hist).length + coming.length ≤ h.countP (Session.withRoom ·.2) →
          s.output = WriteSide.written hist) := by
  obtain ⟨hpre, hall⟩ := Session.reads_left hr
  have hwritten : WriteSide.written hist = (side.sink.handed.filterMap sent).flatten := by
    rw [← WriteSide.accepted_run hw, accepted_eq]
  rw [Session.readable, payloads_eq] at hpre hall
  constructor
  · obtain ⟨later, hlater⟩ := hc
    refine hpre.trans ⟨later.flatten, ?_⟩
    rw [hwritten, ← hlater, List.flatten_append]
  · intro heq hmany
    rw [heq, ← hwritten] at hall
    exact hall hmany

/-- Two buffers, read two bytes at a time. -/
theorem round_trip_two : ∃ hist side h s, Lts.Run WriteSide.step Lts.anything {} hist side ∧
    Lts.Run Session.step Lts.anything (Session.new [.ready (some (.ok (.binary [1, 2, 3]))),
      .pending, .ready (some (.ok (.ping []))), .ready (some (.ok (.binary [4, 5]))),
      .ready none]) h s ∧
    WriteSide.written hist = [1, 2, 3, 4, 5] ∧ s.output = WriteSide.written hist := by
  let ok : Poll (Except Error Unit) := .ready (.ok ())
  obtain ⟨hist, side, hw, ht⟩ := Lts.exists_run WriteSide.step Lts.anything {}
    [.pollWrite [1, 2, 3] .pending (.ok ()), .pollWrite [1, 2, 3] ok (.ok ()),
      .pollWrite [9] ok (.error (.other "full")), .pollWrite [4, 5] ok (.ok ()), .pollShutdown ok]
    (fun hist side => WriteSide.written hist = [1, 2, 3, 4, 5] &&
      side.sink.handed.filterMap sent = [[1, 2, 3], [4, 5]]) (by decide)
  simp only [Bool.and_eq_true, decide_eq_true_eq] at ht
  obtain ⟨h, s, hr, hreads⟩ := Lts.exists_run Session.step Lts.anything
    (Session.new [.ready (some (.ok (.binary [1, 2, 3]))), .pending, .ready (some (.ok (.ping []))),
      .ready (some (.ok (.binary [4, 5]))), .ready none])
    (List.replicate 10 (.pollRead 2)) (fun h _ => h.countP (Session.withRoom ·.2) = 10) (by decide)
  have hcount := of_decide_eq_true hreads
  obtain ⟨_, hall⟩ := round_trip hw (by rw [ht.2]; exact List.prefix_refl _) hr
  refine ⟨hist, side, h, s, hw, hr, ht.1, hall (by rw [ht.2]; rfl) ?_⟩
  rw [ht.1, hcount]
  exact Nat.le_refl _

end MesquitteClient.Ws
