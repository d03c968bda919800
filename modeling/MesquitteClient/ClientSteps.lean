import MesquitteClient.SystemLaws

/-!
# The steps of the client task

The application's task is in at most one method, and each of its events is a
step of that method. `ClientStep` says once where each of them takes it
(`client_cases`); what the later modules know of where the client task comes
from are case splits on it.
-/

namespace MesquitteClient

theorem ClientTask.calls_cases {client : ClientTask} {job : Option Job} {call : Call}
    (h : client.calls job call) :
    (client = .idle ∧ job = none) ∨
      ∃ topic sub rest, client = .job (.next ((topic, sub) :: rest)) ∧ job = some rest ∧
        call = .subscribe topic sub.qos sub.handler := by
  unfold calls at h
  split at h
  · exact .inl ⟨rfl, rfl⟩
  · rename_i topic sub rest rest'
    simp only [Bool.and_eq_true, decide_eq_true_eq] at h
    exact .inr ⟨topic, sub, rest, rfl, by rw [h.1], h.2⟩
  · exact absurd h (by simp)

theorem ClientTask.connects_cases {client : ClientTask} (h : client.connects caller) :
    (client = .idle ∧ caller = none) ∨ ∃ cnt, client = .reconnect cnt ∧ caller = some cnt := by
  cases caller with
  | none => exact .inl ⟨by simpa [connects] using h, rfl⟩
  | some cnt => exact .inr ⟨cnt, by simpa [connects] using h, rfl⟩

theorem ClientTask.returned_cases (frame : Frame) :
    returned frame = .idle ∨ ∃ rest, returned frame = .job (.awaiting frame.token rest) := by
  unfold returned
  cases frame.job with
  | none => exact .inl rfl
  | some rest => exact .inr ⟨rest, rfl⟩

theorem ClientTask.connectReturned_cases (caller : Caller) (token : TokenId) :
    connectReturned caller token = .idle ∨
      ∃ cnt, connectReturned caller token = .awaitConnect cnt token := by
  cases caller with
  | none => exact .inl rfl
  | some cnt => exact .inr ⟨cnt, rfl⟩

theorem ClientTask.returned_ne_call : returned frame ≠ .call frame' phase := by
  rcases returned_cases frame with h | ⟨_, h⟩ <;> simp [h]

theorem ClientTask.returned_ne_connect : returned frame ≠ .connect caller t phase := by
  rcases returned_cases frame with h | ⟨_, h⟩ <;> simp [h]

theorem ClientTask.connectReturned_ne_call : connectReturned caller t ≠ .call frame phase := by
  rcases connectReturned_cases caller t with h | ⟨_, h⟩ <;> simp [h]

theorem ClientTask.connectReturned_ne_connect :
    connectReturned caller t ≠ .connect caller' t' phase := by
  rcases connectReturned_cases caller t with h | ⟨_, h⟩ <;> simp [h]

theorem ClientTask.connectReturned_eq (h : connectReturned caller u = .awaitConnect cnt t) :
    caller = some cnt ∧ u = t := by
  cases caller with
  | none => cases h
  | some _ =>
    cases h
    exact ⟨rfl, rfl⟩

namespace System

variable {codec : Codec} {options : ClientOptions} {s s' : System} {e : Event}

theorem afterSleep_client (options : ClientOptions) (s : System) :
    (afterSleep options s).client = s.client ∨ (afterSleep options s).client = .idle := by
  unfold afterSleep
  split <;> (try split) <;> (try split) <;> simp

/-- Where a step takes the client task. -/
inductive ClientStep (options : ClientOptions) (s : System) (e : Event) (s' : System) : Prop
  | other (he : ofClient e = false) (hc : s'.client = s.client)
  | accepted (job : Option Job) (call : Call) (he : e = .call (.accepted job call))
    (hc : s.client.calls job call)
    (hc' : s'.client = .call ⟨job, call, s.state.tokens.next⟩ call.begin)
  | refused (job : Option Job) (call : Call) (he : e = .call (.refused job call))
    (hc : s.client.calls job call)
    (hc' : s'.client = .returned ⟨job, call, s.state.tokens.next⟩)
  | calling (frame : Frame) (phase phase' : Phase) (he : ∃ event, e = .call event)
    (hc : s.client = .call frame phase) (hc' : s'.client = .call frame phase')
  | callReturned (frame : Frame) (phase : Phase)
    (he : e = .call (.exhausted frame) ∨
      (∃ pkid topics, e = .call (.invalid frame pkid topics)) ∨ e = .call (.returned frame))
    (hc : s.client = .call frame phase) (hc' : s'.client = .returned frame)
  | started (caller : Caller) (he : e = .connect (.started caller))
    (hc : s.client.connects caller)
    (hc' : s'.client = .connect caller s.state.tokens.next .transport)
  | answered (caller : Caller)
    (he : e = .connect (.already caller) ∨ e = .connect (.reconnecting caller))
    (hc : s.client.connects caller)
    (hc' : s'.client = .connectReturned caller s.state.tokens.next)
  | opened (caller : Caller) (t : TokenId) (he : e = .connect (.transportOpened caller t))
    (hc : s.client = .connect caller t .transport) (hc' : s'.client = .connect caller t .handshake)
  | panicked (caller : Caller) (t : TokenId)
    (he : e = .connect (.transportPanicked caller t) ∨ e = .connect (.panicked caller t))
    (hc : s.client = .connect caller t .transport) (hc' : s'.client = .panicked)
  | acknowledged (caller : Caller) (t : TokenId) (sp : Bool)
    (he : e = .connect (.accepted caller t sp)) (hc : s.client = .connect caller t .handshake)
    (hc' : s'.client = .connect caller t (.spawned sp))
  | statusSet (caller : Caller) (t : TokenId) (sp : Bool)
    (he : e = .connect (.statusSet caller t sp)) (hc : s.client = .connect caller t (.spawned sp))
    (hc' : s'.client = .connect caller t (.connected sp))
  | connectReturned (caller : Caller) (t : TokenId) (phase : ConnectPhase)
    (he : (∃ err, e = .connect (.transportFailed caller t err)) ∨
      (∃ item, e = .connect (.refused caller t item)) ∨ ∃ sp, e = .connect (.returned caller t sp))
    (hc : s.client = .connect caller t phase) (hc' : s'.client = .connectReturned caller t)
  | blockStarted (he : e = .block .started) (hc : s.client = .idle) (hc' : s'.client = .block 0)
  | blockReturned (cnt : UInt16) (he : e = .block (.exhausted cnt) ∨ e = .block (.slept cnt))
    (hc : s.client = .block cnt) (hc' : s'.client = .idle)
  | slept (cnt : UInt16) (he : e = .block (.slept cnt)) (hc : s.client = .block cnt)
    (hc' : s'.client = .block cnt)
  | notified (cnt : UInt16) (he : e = .block (.notified cnt)) (hc : s.client = .block cnt)
    (hn : ¬ retriesExhausted options cnt) (hc' : s'.client = .reconnect (cnt + 1))
  | reconnectFailed (cnt : UInt16) (t : TokenId) (he : e = .block (.reconnectFailed cnt t))
    (hc : s.client = .awaitConnect cnt t) (hf : (s.cell t).error.isSome)
    (hc' : s'.client = .block cnt)
  | reconnected (cnt : UInt16) (t : TokenId) (he : e = .block (.reconnected cnt t))
    (hc : s.client = .awaitConnect cnt t) (hn : (s.cell t).error = none)
    (hc' : ((s.cell t).sessionPresent ∧ s'.client = .block 0) ∨ s'.client = .job .cleanUp)
  | cleanedUp (he : e = .block .jobCleanUp) (hc : s.client = .job .cleanUp)
    (hc' : s'.client = .job .clone)
  | cloned (he : e = .block .jobClone) (hc : s.client = .job .clone)
    (hc' : s'.client = .job (.clear s.state.subscriptions.toList))
  | cleared (subs : Job) (he : e = .block (.jobClear subs)) (hc : s.client = .job (.clear subs))
    (hc' : s'.client = .job (.next subs))
  | awaited (t : TokenId) (rest : Job) (he : e = .block (.jobAwaited t rest))
    (hc : s.client = .job (.awaiting t rest)) (hd : (s.cell t).complete)
    (hc' : s'.client = .job (.next rest))
  | done (he : e = .block .jobDone) (hc : s.client = .job (.next []))
    (hc' : s'.client = .block 0)

theorem ClientStep.call {e : CallEvent} (hs : s.stepCall codec e = some s') :
    ClientStep options s (.call e) s' := by
  cases e with
  | accepted job call =>
    simp only [stepCall, when_eq_some] at hs
    obtain ⟨⟨hc, _⟩, rfl⟩ := hs
    exact .accepted job call rfl hc rfl
  | refused job call =>
    simp only [stepCall, when_eq_some] at hs
    obtain ⟨⟨hc, _⟩, rfl⟩ := hs
    exact .refused job call rfl hc rfl
  | exhausted frame =>
    simp only [stepCall, when_eq_some] at hs
    obtain ⟨⟨hc, _⟩, rfl⟩ := hs
    exact .callReturned frame _ (.inl rfl) hc rfl
  | invalid frame pkid topics =>
    simp only [stepCall, when_eq_some] at hs
    obtain ⟨⟨hc, _⟩, rfl⟩ := hs
    exact .callReturned frame _ (.inr (.inl ⟨pkid, topics, rfl⟩)) hc rfl
  | returned frame =>
    simp only [stepCall, when_eq_some] at hs
    obtain ⟨hc, rfl⟩ := hs
    exact .callReturned frame _ (.inr (.inr rfl)) hc rfl
  | _ =>
    simp only [stepCall, when_eq_some] at hs
    obtain ⟨⟨hc, _⟩, rfl⟩ := hs
    exact .calling _ _ _ ⟨_, rfl⟩ hc rfl

theorem ClientStep.connect {e : ConnectEvent} (hs : s.stepConnect codec options e = some s') :
    ClientStep options s (.connect e) s' := by
  cases e with
  | started caller =>
    simp only [stepConnect, when_eq_some] at hs
    obtain ⟨⟨hc, _⟩, rfl⟩ := hs
    exact .started caller rfl hc rfl
  | already caller =>
    simp only [stepConnect, when_eq_some] at hs
    obtain ⟨⟨hc, _⟩, rfl⟩ := hs
    exact .answered caller (.inl rfl) hc rfl
  | reconnecting caller =>
    simp only [stepConnect, when_eq_some] at hs
    obtain ⟨⟨hc, _⟩, rfl⟩ := hs
    exact .answered caller (.inr rfl) hc rfl
  | transportFailed caller t err =>
    simp only [stepConnect, when_eq_some] at hs
    obtain ⟨⟨hc, _⟩, rfl⟩ := hs
    exact .connectReturned caller t _ (.inl ⟨err, rfl⟩) hc rfl
  | transportPanicked caller t =>
    simp only [stepConnect, when_eq_some] at hs
    obtain ⟨hc, rfl⟩ := hs
    exact .panicked caller t (.inl rfl) hc rfl
  | transportOpened caller t =>
    simp only [stepConnect, when_eq_some] at hs
    obtain ⟨⟨hc, _⟩, rfl⟩ := hs
    exact .opened caller t rfl hc rfl
  | panicked caller t =>
    simp only [stepConnect, when_eq_some] at hs
    obtain ⟨⟨hc, _⟩, rfl⟩ := hs
    exact .panicked caller t (.inr rfl) hc rfl
  | refused caller t item =>
    simp only [stepConnect, when_eq_some] at hs
    obtain ⟨⟨hc, _⟩, rfl⟩ := hs
    exact .connectReturned caller t _ (.inr (.inl ⟨item, rfl⟩)) hc rfl
  | accepted caller t sp =>
    simp only [stepConnect, when_eq_some] at hs
    obtain ⟨hc, rfl⟩ := hs
    exact .acknowledged caller t sp rfl hc rfl
  | statusSet caller t sp =>
    simp only [stepConnect, when_eq_some] at hs
    obtain ⟨⟨hc, _⟩, rfl⟩ := hs
    exact .statusSet caller t sp rfl hc rfl
  | returned caller t sp =>
    simp only [stepConnect, when_eq_some] at hs
    obtain ⟨hc, rfl⟩ := hs
    exact .connectReturned caller t _ (.inr (.inr ⟨sp, rfl⟩)) hc rfl

theorem ClientStep.block {e : BlockEvent} (hs : s.stepBlock options e = some s') :
    ClientStep options s (.block e) s' := by
  cases e with
  | started =>
    simp only [stepBlock, when_eq_some] at hs
    obtain ⟨hc, rfl⟩ := hs
    exact .blockStarted rfl hc rfl
  | exhausted cnt =>
    simp only [stepBlock, when_eq_some] at hs
    obtain ⟨⟨hc, _⟩, rfl⟩ := hs
    exact .blockReturned cnt (.inl rfl) hc rfl
  | slept cnt =>
    simp only [stepBlock, when_eq_some] at hs
    obtain ⟨⟨hc, _⟩, rfl⟩ := hs
    rcases s.afterSleep_client options with h | h
    · exact .slept cnt rfl hc (h.trans hc)
    · exact .blockReturned cnt (.inr rfl) hc h
  | notified cnt =>
    simp only [stepBlock, when_eq_some] at hs
    obtain ⟨⟨hc, hn, _⟩, rfl⟩ := hs
    exact .notified cnt rfl hc hn rfl
  | reconnectFailed cnt t =>
    simp only [stepBlock, when_eq_some] at hs
    obtain ⟨⟨hc, _, hf⟩, rfl⟩ := hs
    exact .reconnectFailed cnt t rfl hc hf rfl
  | reconnected cnt t =>
    simp only [stepBlock, when_eq_some] at hs
    obtain ⟨⟨hc, _, hn⟩, rfl⟩ := hs
    refine .reconnected cnt t rfl hc (Option.isNone_iff_eq_none.mp hn) ?_
    cases hpres : (s.cell t).sessionPresent with
    | true => exact .inl ⟨rfl, by simp⟩
    | false => exact .inr (by simp)
  | jobCleanUp =>
    simp only [stepBlock, when_eq_some] at hs
    obtain ⟨hc, rfl⟩ := hs
    exact .cleanedUp rfl hc rfl
  | jobClone =>
    simp only [stepBlock, when_eq_some] at hs
    obtain ⟨hc, rfl⟩ := hs
    exact .cloned rfl hc rfl
  | jobClear subs =>
    simp only [stepBlock, when_eq_some] at hs
    obtain ⟨hc, rfl⟩ := hs
    exact .cleared subs rfl hc rfl
  | jobAwaited t rest =>
    simp only [stepBlock, when_eq_some] at hs
    obtain ⟨⟨hc, hd⟩, rfl⟩ := hs
    exact .awaited t rest rfl hc hd rfl
  | jobDone =>
    simp only [stepBlock, when_eq_some] at hs
    obtain ⟨hc, rfl⟩ := hs
    exact .done rfl hc rfl

theorem client_cases (hs : step codec options s e = some s') : ClientStep options s e s' := by
  cases e with
  | call e => exact .call hs
  | connect e => exact .connect hs
  | block e => exact .block hs
  | _ e => exact .other rfl (client_step hs rfl)

/-- How a call gets to a phase: it was there, or is accepted, or goes on. -/
inductive CallStep (codec : Codec) (s : System) (e : Event) (frame : Frame) : Phase → Prop
  | other (he : ofClient e = false) (hc : s.client = .call frame phase) :
    CallStep codec s e frame phase
  | accepted (job : Option Job) (call : Call) (he : e = .call (.accepted job call))
    (hc : s.client.calls job call) (hf : frame = ⟨job, call, s.state.tokens.next⟩) :
    CallStep codec s e frame call.begin
  | registered (pkid : UInt16) (he : e = .call (.registered frame pkid))
    (hc : s.client = .call frame .registering) :
    CallStep codec s e frame (.building (some pkid) frame.call.unsubscribes)
  | topicAdded (pkid : Option UInt16) (topic : String) (rest : List String)
    (he : e = .call (.topicAdded frame pkid topic rest))
    (hc : s.client = .call frame (.building pkid (topic :: rest))) :
    CallStep codec s e frame (.building pkid rest)
  | built (pkid : Option UInt16) (packet : VariablePacket)
    (he : e = .call (.built frame pkid packet)) (hc : s.client = .call frame (.building pkid []))
    (hp : frame.call.packet codec pkid = some packet) : CallStep codec s e frame (.sending packet)
  | enqueued (packet : VariablePacket) (he : e = .call (.enqueued frame packet))
    (hc : s.client = .call frame (.sending packet)) : CallStep codec s e frame .sent
  | sendFailed (packet : VariablePacket) (he : e = .call (.sendFailed frame packet))
    (hc : s.client = .call frame (.sending packet)) : CallStep codec s e frame .sent

theorem call_cases (hs : step codec options s e = some s') (hc : s'.client = .call frame phase) :
    CallStep codec s e frame phase := by
  cases e with
  | call e =>
    cases e with
    | accepted job call =>
      simp only [step, stepCall, when_eq_some] at hs
      obtain ⟨⟨hcalls, _⟩, rfl⟩ := hs
      cases hc
      exact .accepted job call rfl hcalls rfl
    | refused job call | exhausted frame' | invalid frame' pkid topics | returned frame' =>
      simp only [step, stepCall, when_eq_some] at hs
      obtain ⟨_, rfl⟩ := hs
      exact absurd hc ClientTask.returned_ne_call
    | registered frame' pkid =>
      simp only [step, stepCall, when_eq_some] at hs
      obtain ⟨⟨h0, _⟩, rfl⟩ := hs
      cases hc
      exact .registered pkid rfl h0
    | topicAdded frame' pkid topic rest =>
      simp only [step, stepCall, when_eq_some] at hs
      obtain ⟨⟨h0, _⟩, rfl⟩ := hs
      cases hc
      exact .topicAdded pkid topic rest rfl h0
    | built frame' pkid packet =>
      simp only [step, stepCall, when_eq_some] at hs
      obtain ⟨⟨h0, hp⟩, rfl⟩ := hs
      cases hc
      exact .built pkid packet rfl h0 hp
    | enqueued frame' packet =>
      simp only [step, stepCall, when_eq_some] at hs
      obtain ⟨⟨h0, _⟩, rfl⟩ := hs
      cases hc
      exact .enqueued packet rfl h0
    | sendFailed frame' packet =>
      simp only [step, stepCall, when_eq_some] at hs
      obtain ⟨⟨h0, _⟩, rfl⟩ := hs
      cases hc
      exact .sendFailed packet rfl h0
  | connect e =>
    cases e with
    | already caller | reconnecting caller | transportFailed caller t err | refused caller t item
    | returned caller t sp =>
      simp only [step, stepConnect, when_eq_some] at hs
      obtain ⟨_, rfl⟩ := hs
      exact absurd hc ClientTask.connectReturned_ne_call
    | _ =>
      simp only [step, stepConnect, when_eq_some] at hs
      obtain ⟨_, rfl⟩ := hs
      cases hc
  | block e =>
    cases e with
    | slept cnt =>
      simp only [step, stepBlock, when_eq_some] at hs
      obtain ⟨⟨h0, _⟩, rfl⟩ := hs
      rcases s.afterSleep_client options with h | h
      · cases h0.symm.trans (h.symm.trans hc)
      · cases h.symm.trans hc
    | reconnected cnt t =>
      simp only [step, stepBlock, when_eq_some] at hs
      obtain ⟨_, rfl⟩ := hs
      split at hc <;> cases hc
    | _ =>
      simp only [step, stepBlock, when_eq_some] at hs
      obtain ⟨_, rfl⟩ := hs
      cases hc
  | _ e => exact .other rfl ((client_step hs rfl).symm.trans hc)

end System

end MesquitteClient
