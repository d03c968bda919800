import MesquitteClient.WsStream

/-!
# The end of the WebSocket byte stream

To a reader of `AsyncRead` or `AsyncBufRead` an empty result is the end of the
file. `WsByteStream` gives one at the end of the WebSocket, and also for a
`Binary` message without payload, after which the stream goes on. The calls
come in any order here, and `consume` with any amount.
-/

namespace MesquitteClient.Ws

def ends : Answer → Bool
  | .ready none | .ready (some (.ok .close)) | .ready (some (.error .connectionClosed))
  | .ready (some (.error .alreadyClosed)) => true
  | _ => false

/-- No `Binary` message before the end is empty. -/
def noneEmpty : List Answer → Bool
  | [] => true
  | answer :: coming =>
    ends answer || (answer ≠ .ready (some (.ok (.binary []))) && noneEmpty coming)

namespace WsByteStream

def new (coming : List Answer) : WsByteStream := { inner := { coming } }

def step (stream : WsByteStream) : Call → Option WsByteStream
  | .pollRead remaining => (stream.pollRead remaining).map Prod.fst
  | .pollFillBuf => stream.pollFillBuf.map Prod.fst
  | .consume amt => some (stream.consume amt)

/-- The call tells the reader that the file has ended. -/
def endOfFile (stream : WsByteStream) : Call → Bool
  | .pollRead remaining =>
    0 < remaining && (stream.pollRead remaining).map Prod.snd = some (.ready (.ok []))
  | .pollFillBuf => stream.pollFillBuf.map Prod.snd = some (.ready (.ok []))
  | .consume _ => false

def ended (stream : WsByteStream) : Bool := stream.inner.answered.any ends

/-- Whatever is read of these answers, the file ends only at their end. -/
def EndsAtEnd (coming : List Answer) : Prop :=
  ∀ stream call stream', Lts.Reaches step (fun _ => true) (new coming) stream →
    stream.step call = some stream' → stream.endOfFile call → stream'.ended

-- ---------------------------------------------------------------------------
-- Without empty messages
-- ---------------------------------------------------------------------------

/-- What there is to read is not empty, and no empty message comes. -/
structure Filled (stream : WsByteStream) : Prop where
  unread : stream.read = .ready data amtRead → amtRead < data.length
  coming : stream.read ≠ .terminated → noneEmpty stream.inner.coming
  ended : stream.read = .terminated → stream.ended

theorem filled_new (h : noneEmpty coming) : (new coming).Filled where
  unread h := by cases h
  coming _ := h
  ended h := by cases h

theorem Filled.of_pending {stream : WsByteStream} (hr : stream.read = .pending)
    (hc : noneEmpty stream.inner.coming) : stream.Filled where
  unread h := by cases hr.symm.trans h
  coming _ := hc
  ended h := by cases hr.symm.trans h

theorem Filled.of_terminated {stream : WsByteStream} (hr : stream.read = .terminated)
    (he : stream.ended) : stream.Filled where
  unread h := by cases hr.symm.trans h
  coming h := absurd hr h
  ended _ := he

/-- `fill_buf_with_next_msg` puts a message that is not empty, if it puts one. -/
theorem fillLoop_filled (answered : List Answer) (hc : noneEmpty coming) :
    (fillLoop answered .pending coming).1.Filled := by
  induction coming generalizing answered with
  | nil => exact .of_pending rfl rfl
  | cons answer coming ih =>
    have hrest (ha : ends answer = false) : answer ≠ .ready (some (.ok (.binary []))) ∧
        noneEmpty coming := by
      simpa [noneEmpty, ha] using hc
    have hend (ha : ends answer) : (answered ++ [answer]).any ends := by
      rw [List.any_append, List.any_cons, ha]
      simp
    match answer with
    | .pending => exact .of_pending rfl (hrest rfl).2
    | .ready none => exact .of_terminated rfl (hend rfl)
    | .ready (some (.ok msg)) =>
      cases msg with
      | binary data =>
        obtain ⟨hne, hrest⟩ := hrest rfl
        refine ⟨fun h => ?_, fun _ => hrest, fun h => by cases h⟩
        cases h
        exact List.length_pos_iff.mpr fun hnil => hne (by rw [hnil])
      | close => exact .of_terminated rfl (hend rfl)
      | text text | ping data | pong data | frame => exact ih _ (hrest rfl).2
    | .ready (some (.error err)) =>
      cases err with
      | io err | other message => exact .of_pending rfl (hrest rfl).2
      | connectionClosed | alreadyClosed => exact .of_terminated rfl (hend rfl)

theorem Filled.fill {stream : WsByteStream} (hf : stream.Filled) (hp : stream.read = .pending) :
    stream.fillBufWithNextMsg.1.Filled := by
  rw [fillBufWithNextMsg, hp]
  exact fillLoop_filled _ (hf.coming (by rw [hp]; simp))

/-- A poll of a pending stream goes on after a message and after the end. -/
theorem pollRead_of_pending {stream : WsByteStream} (hp : stream.read = .pending) :
    stream.pollRead remaining =
      match stream.fillBufWithNextMsg with
      | (stream, .pending) => some (stream, .pending)
      | (stream, .ready (some (.ok ()))) => pollReadLoop remaining 1 stream
      | (stream, .ready (some (.error err))) => some (stream, .ready (.error err))
      | (stream, .ready none) => pollReadLoop remaining 1 stream := by
  obtain ⟨inner, read⟩ := stream
  obtain rfl : read = .pending := hp
  rfl

theorem pollFillBuf_of_pending {stream : WsByteStream} (hp : stream.read = .pending) :
    stream.pollFillBuf =
      match stream.fillBufWithNextMsg with
      | (stream, .pending) => some (stream, .pending)
      | (stream, .ready (some (.ok ()))) => pollFillBufLoop 1 stream
      | (stream, .ready (some (.error err))) => some (stream, .ready (.error err))
      | (stream, .ready none) => pollFillBufLoop 1 stream := by
  obtain ⟨inner, read⟩ := stream
  obtain rfl : read = .pending := hp
  rfl

/-- A pass of the loop of `poll_read` that does not poll the WebSocket. -/
theorem Filled.serve {stream stream' : WsByteStream} (hf : stream.Filled)
    (hp : stream.read ≠ .pending)
    (h : pollReadLoop remaining (fuel + 1) stream = some (stream', res)) :
    stream'.Filled ∧ (0 < remaining → res = .ready (.ok []) → stream'.ended) := by
  cases hr : stream.read with
  | pending => exact absurd hr hp
  | ready data amtRead =>
    have hlt := hf.unread hr
    simp only [pollReadLoop, hr, slice_of_le (Nat.le_of_lt hlt), Option.map_some,
      Option.some.injEq, Prod.mk.injEq] at h
    obtain ⟨rfl, rfl⟩ := h
    have hc := hf.coming (by rw [hr]; simp)
    refine ⟨?_, fun hpos hnil => ?_⟩
    · by_cases hall : min remaining (data.drop amtRead).length = (data.drop amtRead).length
      · exact .of_pending (by simp only [if_pos hall]) hc
      · refine ⟨fun h => ?_, fun _ => hc, fun h => ?_⟩ <;> simp only [if_neg hall] at h
        · cases h
          rw [List.length_drop] at hall ⊢
          omega
        · cases h
    · -- there is room, and there are bytes
      simp only [Poll.ready.injEq, Except.ok.injEq] at hnil
      have hlen := congrArg List.length hnil
      simp only [List.length_take, List.length_drop, List.length_nil] at hlen
      omega
  | terminated =>
    simp only [pollReadLoop, hr, Option.some.injEq, Prod.mk.injEq] at h
    obtain ⟨rfl, rfl⟩ := h
    exact ⟨hf, fun _ _ => hf.ended hr⟩

theorem Filled.pollRead {stream stream' : WsByteStream} (hf : stream.Filled)
    (h : stream.pollRead remaining = some (stream', res)) :
    stream'.Filled ∧ (0 < remaining → res = .ready (.ok []) → stream'.ended) := by
  by_cases hp : stream.read = .pending
  · have hfill := hf.fill hp
    obtain ⟨_, _, last, hout⟩ := stream.fill_moved hp
    rw [pollRead_of_pending hp] at h
    revert h hfill hout
    cases stream.fillBufWithNextMsg with
    | mk stream₁ res₁ =>
      intro h hfill hout
      generalize hread : stream₁.read = read at hout
      cases hout with
      | filled => exact hfill.serve (by simp [hread]) h
      | ended _ => exact hfill.serve (by simp [hread]) h
      | closed _ | failed _ | blocked _ =>
        cases h
        exact ⟨hfill, fun _ h => by cases h⟩
  · exact hf.serve hp h

theorem Filled.pollFillBuf {stream stream' : WsByteStream} (hf : stream.Filled)
    (h : stream.pollFillBuf = some (stream', res)) :
    stream'.Filled ∧ (res = .ready (.ok []) → stream'.ended) := by
  -- what a stream that is not pending shows
  have hserve {stream : WsByteStream} (hf : stream.Filled) (hp : stream.read ≠ .pending)
      (fuel : Nat) (h : pollFillBufLoop (fuel + 1) stream = some (stream', res)) :
      stream'.Filled ∧ (res = .ready (.ok []) → stream'.ended) := by
    have hb : stream.Bounded := fun data amtRead hr => Nat.le_of_lt (hf.unread hr)
    rw [pollFillBufLoop_serve fuel hb hp] at h
    cases h
    refine ⟨hf, fun hnil => ?_⟩
    cases hr : stream'.read with
    | pending => exact absurd hr hp
    | ready data amtRead =>
      have hlt := hf.unread hr
      simp only [Poll.ready.injEq, Except.ok.injEq] at hnil
      have hlen := congrArg List.length hnil
      rw [WsByteStream.unread, hr, ReadState.unread] at hlen
      rw [List.length_drop, List.length_nil] at hlen
      omega
    | terminated => exact hf.ended hr
  by_cases hp : stream.read = .pending
  · have hfill := hf.fill hp
    obtain ⟨_, _, last, hout⟩ := stream.fill_moved hp
    rw [pollFillBuf_of_pending hp] at h
    revert h hfill hout
    cases stream.fillBufWithNextMsg with
    | mk stream₁ res₁ =>
      intro h hfill hout
      generalize hread : stream₁.read = read at hout
      cases hout with
      | filled => exact hserve hfill (by simp [hread]) 0 h
      | ended _ => exact hserve hfill (by simp [hread]) 0 h
      | closed _ | failed _ | blocked _ =>
        cases h
        exact ⟨hfill, fun h => by cases h⟩
  · exact hserve hf hp 1 h

theorem Filled.consume {stream : WsByteStream} (hf : stream.Filled) (amt : Nat) :
    (stream.consume amt).Filled := by
  unfold WsByteStream.consume
  split
  · rename_i data amtRead hr
    have hc := hf.coming (by rw [hr]; simp)
    by_cases hall : min data.length (amtRead + amt) = data.length
    · exact .of_pending (if_pos hall) hc
    · refine ⟨fun h => ?_, fun _ => hc, fun h => ?_⟩ <;> simp only [if_neg hall] at h
      · cases h
        omega
      · cases h
  · exact hf

/-- What one call keeps, and what it says of the end. -/
theorem Filled.step {stream stream' : WsByteStream} (hf : stream.Filled)
    (hs : stream.step call = some stream') :
    stream'.Filled ∧ (stream.endOfFile call → stream'.ended) := by
  cases call with
  | pollRead remaining =>
    obtain ⟨⟨_, res⟩, hp, rfl⟩ := Option.map_eq_some_iff.mp hs
    obtain ⟨hf', hend⟩ := hf.pollRead hp
    refine ⟨hf', fun heof => ?_⟩
    simp only [endOfFile, hp, Option.map_some, Option.some.injEq, Bool.and_eq_true,
      decide_eq_true_eq] at heof
    exact hend heof.1 heof.2
  | pollFillBuf =>
    obtain ⟨⟨_, res⟩, hp, rfl⟩ := Option.map_eq_some_iff.mp hs
    obtain ⟨hf', hend⟩ := hf.pollFillBuf hp
    refine ⟨hf', fun heof => ?_⟩
    simp only [endOfFile, hp, Option.map_some, Option.some.injEq, decide_eq_true_eq] at heof
    exact hend heof
  | consume amt =>
    cases hs
    exact ⟨hf.consume amt, fun h => by cases h⟩

-- ---------------------------------------------------------------------------
-- With an empty message
-- ---------------------------------------------------------------------------

/-- Some calls of `poll_read` come to an end of the file that is not one. -/
inductive EndsEarly : WsByteStream → Prop
  | now (hs : stream.step (.pollRead remaining) = some stream')
    (heof : stream.endOfFile (.pollRead remaining)) (hn : stream'.ended = false) : EndsEarly stream
  | later (hs : stream.step (.pollRead remaining) = some stream') (h : EndsEarly stream') :
    EndsEarly stream

theorem EndsEarly.congr {stream stream₁ : WsByteStream} (h : EndsEarly stream₁)
    (heq : ∀ remaining, stream.pollRead remaining = stream₁.pollRead remaining) :
    EndsEarly stream := by
  have hstep (remaining : Nat) : stream.step (.pollRead remaining) =
      stream₁.step (.pollRead remaining) := by rw [step, step, heq]
  cases h with
  | now hs heof hn =>
    refine .now ((hstep _).trans hs) ?_ hn
    rw [endOfFile, heq]
    exact heof
  | later hs h => exact .later ((hstep _).trans hs) h

theorem endsEarly_of_empty (answered : List Answer) (hn : answered.any ends = false)
    (hc : noneEmpty coming = false) : EndsEarly ⟨⟨coming, answered⟩, .pending⟩ := by
  induction coming generalizing answered with
  | nil => cases hc
  | cons answer coming ih =>
    have ha : ends answer = false := by
      cases h : ends answer with
      | false => rfl
      | true => simp [noneEmpty, h] at hc
    have hn' : (answered ++ [answer]).any ends = false := by simp [hn, ha]
    have hrest (hne : answer ≠ .ready (some (.ok (.binary [])))) :
        EndsEarly ⟨⟨coming, answered ++ [answer]⟩, .pending⟩ := by
      refine ih _ hn' ?_
      simpa [noneEmpty, ha, hne] using hc
    match answer with
    | .pending =>
      have hs : step ⟨⟨.pending :: coming, answered⟩, .pending⟩ (.pollRead 0) =
          some ⟨⟨coming, answered ++ [.pending]⟩, .pending⟩ := rfl
      exact .later hs (hrest (by simp))
    | .ready none => cases ha
    | .ready (some (.ok msg)) =>
      cases msg with
      | binary data =>
        cases data with
        | nil =>
          have hs : step ⟨⟨.ready (some (.ok (.binary []))) :: coming, answered⟩, .pending⟩
              (.pollRead 1) = some ⟨⟨coming, answered ++ [.ready (some (.ok (.binary [])))]⟩,
                .pending⟩ := rfl
          exact .now hs rfl hn'
        | cons b data =>
          have hs : step ⟨⟨.ready (some (.ok (.binary (b :: data)))) :: coming, answered⟩, .pending⟩
              (.pollRead (b :: data).length) =
                some ⟨⟨coming, answered ++ [.ready (some (.ok (.binary (b :: data))))]⟩,
                  .pending⟩ := by
            rw [step, pollRead_of_pending rfl]
            simp [fillBufWithNextMsg, fillLoop, pollReadLoop, slice]
          exact .later hs (hrest (by simp))
      | close => cases ha
      | text text | ping data | pong data | frame => exact (hrest (by simp)).congr fun _ => rfl
    | .ready (some (.error err)) =>
      cases err with
      | io err | other message =>
        refine .later (?hs : step _ (.pollRead 0) = some ⟨⟨coming, _⟩, .pending⟩) (hrest (by simp))
        case hs => rfl
      | connectionClosed | alreadyClosed => cases ha

/-- The calls that end early are a run. -/
theorem EndsEarly.reaches (h : EndsEarly stream) : ∃ stream₁ call stream',
    Lts.Reaches step (fun _ => true) stream stream₁ ∧ stream₁.step call = some stream' ∧
      stream₁.endOfFile call ∧ stream'.ended = false := by
  induction h with
  | now hs heof hn => exact ⟨_, _, _, .refl _, hs, heof, hn⟩
  | later hs _ ih =>
    obtain ⟨stream₁, call, stream₂, hr, hs', heof, hn⟩ := ih
    exact ⟨stream₁, call, stream₂, .head rfl hs hr, hs', heof, hn⟩

/-- Whichever calls are made, the file ends only where the WebSocket does,
exactly when no `Binary` message before that end is empty. -/
theorem endsAtEnd_iff (coming : List Answer) : EndsAtEnd coming ↔ noneEmpty coming := by
  constructor
  · intro hall
    by_contra hc
    rw [Bool.not_eq_true] at hc
    obtain ⟨stream, call, stream', hr, hs, heof, hn⟩ := (endsEarly_of_empty [] rfl hc).reaches
    have hend := hall stream call stream' hr hs heof
    rw [hn] at hend
    cases hend
  · intro hc stream call stream' hr hs heof
    have hf : stream.Filled := hr.kept (P := Filled) (filled_new hc) fun hf _ hs => (hf.step hs).1
    exact (hf.step hs).2 heof

/-- An empty message, and then one with a byte. -/
theorem empty_message_ends : ¬ ∀ coming, EndsAtEnd coming := by
  intro hall
  have hend := hall [.ready (some (.ok (.binary []))), .ready (some (.ok (.binary [1])))] _
    (.pollRead 8) _ (.refl _) rfl rfl
  cases hend

end WsByteStream

end MesquitteClient.Ws
