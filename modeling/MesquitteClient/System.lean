import MesquitteClient.Client
import MesquitteClient.Net
import MesquitteClient.Lib.Run

/-!
# The running client

The client task, the tasks of a connection and what they share, as one
transition system. A connection has its read loop, its write loop, its
`keep_alive` task and the supervisor that `connect` spawns, and the two
channels between them. An event is one step of one task, from one of its
awaits or locks to the next; it names what the step was about, and `step` says
whether the task can take it and what it does. A run is an interleaving of
such steps, with the server's packets, the clock and the cache as the
surroundings have it.
-/

namespace MesquitteClient

inductive ConnectStatus
  | connected
  | disconnected
  | connecting
  deriving DecidableEq, Repr

inductive Reader
  | reading
  /-- waiting for room in the message channel -/
  | responding (resp : VariablePacket)
  | ended
  deriving DecidableEq, Repr

inductive Writer
  | selecting
  | writingMsg (packet : VariablePacket)
  | writingOutgoing (outgoing : PacketAndToken)
  | ended
  deriving DecidableEq, Repr

inductive KeepAlive
  | checking
  | sending
  /-- a PINGREQ has been sent, or could not be -/
  | pinged
  /-- so much of the interval was left at the check -/
  | remaining (remaining : Duration)
  | sleeping (wake : Duration)
  | ended
  deriving DecidableEq, Repr

inductive Supervisor
  | joining
  /-- the status is set, and its guard is held to the end -/
  | statusSet
  | exitSet
  | finished
  deriving DecidableEq, Repr

/-- The tasks of a connection, the channels between them and the exit flag. -/
structure Connection where
  outgoing : List PacketAndToken := []
  msg : List VariablePacket := []
  reader : Reader := .reading
  writer : Writer := .selecting
  keepAlive : KeepAlive := .checking
  supervisor : Supervisor := .joining
  exit : Bool := false
  deriving DecidableEq

/-- Before the first connection none of the tasks is there. -/
def Connection.none : Connection where
  reader := .ended
  writer := .ended
  keepAlive := .ended
  supervisor := .finished
  exit := true

/-- The write loop returns and drops its ends of both channels. -/
def Connection.writerEnds (conn : Connection) : Connection :=
  { conn with writer := .ended, outgoing := [], msg := [] }

def channelCapacity : Nat := 8

structure System where
  state : State := .new
  connectStatus : ConnectStatus := .disconnected
  manualDisconnect : Bool := false
  notify : Bool := false
  client : ClientTask := .idle
  conn : Connection := .none

namespace System

def init : System := {}

/-- The supervisor holds the guard of `connect_status`. -/
def statusLocked (s : System) : Bool :=
  s.conn.supervisor = .statusSet || s.conn.supervisor = .exitSet

def isConnected (s : System) : Bool := s.connectStatus = .connected

def modifyToken (s : System) (t : TokenId) (f : InnerToken → InnerToken) : System :=
  { s with state := s.state.modifyToken t f }

/-- The token that comes with a packet, if one does. -/
def modifyTokenOf (s : System) (outgoing : PacketAndToken) (f : InnerToken → InnerToken) : System :=
  match outgoing.token with
  | some t => s.modifyToken t f
  | none => s

/-- A fresh token; its id is `s.state.tokens.next`. -/
def alloc (s : System) (token : InnerToken) : System :=
  { s with state := { s.state with tokens := s.state.tokens.alloc token } }

def cell (s : System) (t : TokenId) : InnerToken := s.state.cell t

end System

-- ---------------------------------------------------------------------------
-- Events
-- ---------------------------------------------------------------------------

/-- `publish`, `subscribe`, `subscribe_multiple`, `unsubscribe`, `disconnect`. -/
inductive CallEvent
  | accepted (job : Option Job) (call : Call)
  | refused (job : Option Job) (call : Call)
  | registered (frame : Frame) (pkid : UInt16)
  | exhausted (frame : Frame)
  | topicAdded (frame : Frame) (pkid : Option UInt16) (topic : String) (rest : List String)
  | built (frame : Frame) (pkid : Option UInt16) (packet : VariablePacket)
  | invalid (frame : Frame) (pkid : Option UInt16) (topics : List String)
  | enqueued (frame : Frame) (packet : VariablePacket)
  | sendFailed (frame : Frame) (packet : VariablePacket)
  | returned (frame : Frame)
  deriving DecidableEq

/-- What `frame_reader.next()` gives after the CONNECT packet. -/
inductive Handshake
  | packet (packet : VariablePacket)
  | error (err : String)
  | closed
  deriving DecidableEq

/-- `connect`. -/
inductive ConnectEvent
  | started (caller : Caller)
  | already (caller : Caller)
  | reconnecting (caller : Caller)
  | transportFailed (caller : Caller) (token : TokenId) (err : TokenError)
  /-- `Transport::connect` has panicked, in one of its own `unwrap`s -/
  | transportPanicked (caller : Caller) (token : TokenId)
  | transportOpened (caller : Caller) (token : TokenId)
  /-- `build_connect_packet` has panicked -/
  | panicked (caller : Caller) (token : TokenId)
  | refused (caller : Caller) (token : TokenId) (item : Handshake)
  | accepted (caller : Caller) (token : TokenId) (sessionPresent : Bool)
  | statusSet (caller : Caller) (token : TokenId) (sessionPresent : Bool)
  | returned (caller : Caller) (token : TokenId) (sessionPresent : Bool)
  deriving DecidableEq

/-- `block`, with its resubscribe job. -/
inductive BlockEvent
  | started
  | exhausted (cnt : UInt16)
  | slept (cnt : UInt16)
  | notified (cnt : UInt16)
  | reconnectFailed (cnt : UInt16) (token : TokenId)
  | reconnected (cnt : UInt16) (token : TokenId)
  | jobCleanUp
  | jobClone
  | jobClear (subs : Job)
  | jobAwaited (token : TokenId) (rest : Job)
  | jobDone
  deriving DecidableEq

/-- `read_from_server`. -/
inductive ReaderEvent
  | received (packet : VariablePacket)
  | responded (resp : VariablePacket)
  | respondFailed (resp : VariablePacket)
  /-- the stream has ended or a packet could not be decoded -/
  | streamEnded
  deriving DecidableEq

/-- `write_to_server`. -/
inductive WriterEvent
  | msgTaken (packet : VariablePacket)
  | outgoingTaken (outgoing : PacketAndToken)
  | msgWritten (packet : VariablePacket)
  | outgoingWritten (outgoing : PacketAndToken)
  | msgFailed (packet : VariablePacket)
  | outgoingFailed (outgoing : PacketAndToken) (err : String)
  | msgClosed
  deriving DecidableEq

/-- `keep_alive`. -/
inductive KeepAliveEvent
  | checked
  | pinged
  | pingFailed
  /-- `sleep`, for the whole interval from then -/
  | sleep
  /-- `sleep_until`, with a clock reading of its own -/
  | sleepUntil (remaining : Duration)
  | woke (wake : Duration)
  deriving DecidableEq

/-- The task `connect` spawns, after it has spawned the others. -/
inductive SupervisorEvent
  | joined
  | exitStored
  | cleanedUp
  deriving DecidableEq

/-- The clock, the cache's own evictions, and the handler tasks. -/
inductive RuntimeEvent
  | elapsed (duration : Duration)
  | evicted (pkid : UInt16)
  | handlerRan (task : HandlerTask)
  deriving DecidableEq

inductive Event
  | call (event : CallEvent)
  | connect (event : ConnectEvent)
  | block (event : BlockEvent)
  | reader (event : ReaderEvent)
  | writer (event : WriterEvent)
  | keepAlive (event : KeepAliveEvent)
  | supervisor (event : SupervisorEvent)
  | runtime (event : RuntimeEvent)
  deriving DecidableEq

abbrev received (packet : VariablePacket) : Event := .reader (.received packet)

-- ---------------------------------------------------------------------------
-- Steps
-- ---------------------------------------------------------------------------

/-- A step that is there when its condition holds. -/
def when (enabled : Prop) [Decidable enabled] (s : System) : Option System :=
  if enabled then some s else none

@[simp] theorem when_eq_some [Decidable p] : when p s = some s' ↔ p ∧ s = s' := by
  simp [when]

namespace System

def stepCall (codec : Codec) (s : System) : CallEvent → Option System
  | .accepted job call =>
    when (s.client.calls job call ∧ ¬ s.statusLocked ∧ s.isConnected)
      { s.alloc call.newToken with client := .call ⟨job, call, s.state.tokens.next⟩ call.begin }
  | .refused job call =>
    when (s.client.calls job call ∧ ¬ s.statusLocked ∧ ¬ s.isConnected)
      { s.alloc (call.newToken.setError .connectionLost) with
        client := .returned ⟨job, call, s.state.tokens.next⟩ }
  | .registered frame pkid =>
    let (packetIds, id) := s.state.packetIds.getId frame.token
    when (s.client = .call frame .registering ∧ id = pkid ∧ pkid ≠ 0)
      { s with
        state := { s.state with packetIds }
        client := .call frame (.building (some pkid) frame.call.unsubscribes) }
  | .exhausted frame =>
    let (packetIds, id) := s.state.packetIds.getId frame.token
    when (s.client = .call frame .registering ∧ id = 0)
      { s with
        state := { s.state with packetIds }.setError frame.token .packetIdError
        client := .returned frame }
  | .topicAdded frame pkid topic rest =>
    when (s.client = .call frame (.building pkid (topic :: rest)) ∧ codec.topicFilter topic)
      { s.modifyToken frame.token (·.addTopic topic) with
        client := .call frame (.building pkid rest) }
  | .built frame pkid packet =>
    when (s.client = .call frame (.building pkid []) ∧ frame.call.packet codec pkid = some packet)
      { s with
        manualDisconnect := s.manualDisconnect || frame.call = .disconnect
        client := .call frame (.sending packet) }
  | .invalid frame pkid topics =>
    when (s.client = .call frame (.building pkid topics) ∧ frame.call.stops codec pkid topics)
      { s.modifyToken frame.token (·.setError .invalidTopic) with client := .returned frame }
  | .enqueued frame packet =>
    when (s.client = .call frame (.sending packet) ∧ s.conn.writer ≠ .ended ∧
        s.conn.outgoing.length < channelCapacity)
      { s with
        client := .call frame .sent
        conn := { s.conn with outgoing := s.conn.outgoing ++ [⟨packet, some frame.token⟩] } }
  | .sendFailed frame packet =>
    when (s.client = .call frame (.sending packet) ∧ s.conn.writer = .ended)
      { s.modifyToken frame.token (·.setError .internalServerError) with
        client := .call frame .sent }
  | .returned frame =>
    when (s.client = .call frame .sent)
      { s.modifyToken frame.token (·.addSubscriptions frame.call.subscriptions) with
        client := .returned frame }

/-- What `connect` makes of a first packet that does not accept it. -/
def refuse (item : Handshake) (token : InnerToken) : Option InnerToken :=
  match item with
  | .packet (.connack _ .connectionAccepted) => none
  | .packet (.connack _ code) =>
    some ((token.setReturnCode code).setError (.connectFailed code.toU8))
  | .packet _ => some (token.setError (.packetError "Not Connack Packet"))
  | .error err => some (token.setError (.packetError err))
  | .closed => some (token.setError (.connectFailed 0))

def stepConnect (codec : Codec) (options : ClientOptions) (s : System) :
    ConnectEvent → Option System
  | .started caller =>
    when (s.client.connects caller ∧ ¬ s.statusLocked ∧ s.connectStatus = .disconnected)
      { s.alloc .connect with
        connectStatus := .connecting
        client := .connect caller s.state.tokens.next .transport }
  | .already caller =>
    when (s.client.connects caller ∧ ¬ s.statusLocked ∧ s.connectStatus = .connected)
      { s.alloc (InnerToken.connect.setReturnCode .connectionAccepted) with
        client := .connectReturned caller s.state.tokens.next }
  | .reconnecting caller =>
    when (s.client.connects caller ∧ ¬ s.statusLocked ∧ s.connectStatus = .connecting)
      { s.alloc (InnerToken.connect.setError .reconnecting) with
        client := .connectReturned caller s.state.tokens.next }
  | .transportFailed caller token err =>
    when (s.client = .connect caller token .transport ∧ ¬ s.statusLocked)
      { s.modifyToken token (·.setError err) with
        connectStatus := .disconnected
        client := .connectReturned caller token }
  | .transportPanicked caller token =>
    when (s.client = .connect caller token .transport) { s with client := .panicked }
  | .transportOpened caller token =>
    when (s.client = .connect caller token .transport ∧ (buildConnectPacket codec options).isSome)
      { s with client := .connect caller token .handshake }
  | .panicked caller token =>
    when (s.client = .connect caller token .transport ∧ (buildConnectPacket codec options).isNone)
      { s with client := .panicked }
  | .refused caller token item =>
    when (s.client = .connect caller token .handshake ∧ ¬ s.statusLocked ∧
        (refuse item (s.cell token)).isSome)
      { s.modifyToken token fun inner => (refuse item inner).getD inner with
        connectStatus := .disconnected
        client := .connectReturned caller token }
  | .accepted caller token sessionPresent =>
    when (s.client = .connect caller token .handshake)
      { s with
        state := s.state.renew
        client := .connect caller token (.spawned sessionPresent)
        conn := {} }
  | .statusSet caller token sessionPresent =>
    when (s.client = .connect caller token (.spawned sessionPresent) ∧ ¬ s.statusLocked)
      { s with
        connectStatus := .connected
        client := .connect caller token (.connected sessionPresent) }
  | .returned caller token sessionPresent =>
    when (s.client = .connect caller token (.connected sessionPresent))
      { s.modifyToken token fun inner =>
          (if sessionPresent then inner.setSessionPresent else inner).flowComplete with
        manualDisconnect := false
        client := .connectReturned caller token }

/-- `max_connect_retry_times` is reached. -/
def retriesExhausted (options : ClientOptions) (cnt : UInt16) : Bool :=
  match options.maxConnectRetryTimes with
  | some times => times ≤ cnt
  | none => false

/-- The `sleep` branch of `block`. -/
def afterSleep (options : ClientOptions) (s : System) : System :=
  match s.connectStatus with
  | .connected => s
  | .disconnected =>
    if s.manualDisconnect then s
    else if options.autoReconnect then { s with notify := true }
    else { s with client := .idle }
  | .connecting => s

/-- The steps of `block`. The two branches of its `select!` can be taken at
any time, and `cnt += 1` wraps. -/
def stepBlock (options : ClientOptions) (s : System) : BlockEvent → Option System
  | .started => when (s.client = .idle) { s with client := .block 0 }
  | .exhausted cnt =>
    when (s.client = .block cnt ∧ retriesExhausted options cnt) { s with client := .idle }
  | .slept cnt =>
    when (s.client = .block cnt ∧ ¬ retriesExhausted options cnt ∧ ¬ s.statusLocked)
      (s.afterSleep options)
  | .notified cnt =>
    when (s.client = .block cnt ∧ ¬ retriesExhausted options cnt ∧ s.notify)
      { s with notify := false, client := .reconnect (cnt + 1) }
  | .reconnectFailed cnt token =>
    when (s.client = .awaitConnect cnt token ∧ (s.cell token).complete ∧
        (s.cell token).error.isSome)
      { s with client := .block cnt }
  | .reconnected cnt token =>
    when (s.client = .awaitConnect cnt token ∧ (s.cell token).complete ∧
        (s.cell token).error.isNone)
      { s with client := if (s.cell token).sessionPresent then .block 0 else .job .cleanUp }
  | .jobCleanUp =>
    when (s.client = .job .cleanUp) { s with state := s.state.cleanUp, client := .job .clone }
  | .jobClone =>
    when (s.client = .job .clone)
      { s with client := .job (.clear s.state.subscriptions.toList) }
  | .jobClear subs =>
    when (s.client = .job (.clear subs))
      { s with
        state := { s.state with topicManager := s.state.topicManager.clear }
        client := .job (.next subs) }
  | .jobAwaited token rest =>
    when (s.client = .job (.awaiting token rest) ∧ (s.cell token).complete)
      { s with client := .job (.next rest) }
  | .jobDone => when (s.client = .job (.next [])) { s with client := .block 0 }

def stepReader (s : System) : ReaderEvent → Option System
  | .received packet =>
    let (state, next) := readFromServer packet s.state
    when (s.conn.reader = .reading)
      { s with
        state
        conn := { s.conn with
          reader := match next with
            | .proceed => .reading
            | .respond resp => .responding resp
            | .leave => .ended } }
  | .responded resp =>
    when (s.conn.reader = .responding resp ∧ s.conn.writer ≠ .ended ∧
        s.conn.msg.length < channelCapacity)
      { s with conn := { s.conn with reader := .reading, msg := s.conn.msg ++ [resp] } }
  | .respondFailed resp =>
    when (s.conn.reader = .responding resp ∧ s.conn.writer = .ended)
      { s with conn := { s.conn with reader := .ended } }
  | .streamEnded =>
    when (s.conn.reader = .reading) { s with conn := { s.conn with reader := .ended } }

/-- A packet has been written to the server. -/
def written (s : System) : System :=
  { s with
    state := { s.state with lastSentPacketAt := s.state.now }
    conn := { s.conn with writer := .selecting } }

/-- The write loop completes the tokens that no acknowledgement will. -/
def completeWritten (token : InnerToken) : InnerToken :=
  match token.kind with
  | .publish .level0 => token.flowComplete
  | .disconnect => token.flowComplete
  | _ => token

/-- The steps of the write loop. It takes from either channel, in any order;
the other end of `outgoing_rx` is held by the loop's own `State`. -/
def stepWriter (s : System) : WriterEvent → Option System
  | .msgTaken packet =>
    when (s.conn.writer = .selecting ∧ s.conn.msg.head? = some packet)
      { s with conn := { s.conn with writer := .writingMsg packet, msg := s.conn.msg.tail } }
  | .outgoingTaken outgoing =>
    when (s.conn.writer = .selecting ∧ s.conn.outgoing.head? = some outgoing)
      { s with
        conn := { s.conn with writer := .writingOutgoing outgoing, outgoing := s.conn.outgoing.tail } }
  | .msgWritten packet => when (s.conn.writer = .writingMsg packet) s.written
  | .outgoingWritten outgoing =>
    when (s.conn.writer = .writingOutgoing outgoing)
      (s.written.modifyTokenOf outgoing completeWritten)
  | .msgFailed packet =>
    when (s.conn.writer = .writingMsg packet) { s with conn := s.conn.writerEnds }
  | .outgoingFailed outgoing err =>
    when (s.conn.writer = .writingOutgoing outgoing)
      { s.modifyTokenOf outgoing (·.setError (.ioError err)) with conn := s.conn.writerEnds }
  | .msgClosed =>
    when (s.conn.writer = .selecting ∧ s.conn.msg = [] ∧ s.conn.reader = .ended)
      { s with conn := s.conn.writerEnds }

def stepKeepAlive (options : ClientOptions) (s : System) : KeepAliveEvent → Option System
  | .checked =>
    let elapsed := s.state.now - s.state.lastSentPacketAt
    when (s.conn.keepAlive = .checking)
      { s with
        conn := { s.conn with
          keepAlive :=
            if s.conn.exit then .ended
            else if options.keepAlive ≤ elapsed then .sending
            else .remaining (options.keepAlive - elapsed) } }
  | .pinged =>
    when (s.conn.keepAlive = .sending ∧ s.conn.writer ≠ .ended ∧
        s.conn.outgoing.length < channelCapacity)
      { s with
        conn := { s.conn with
          outgoing := s.conn.outgoing ++ [⟨.pingreq, none⟩]
          keepAlive := .pinged } }
  | .pingFailed =>
    when (s.conn.keepAlive = .sending ∧ s.conn.writer = .ended)
      { s with conn := { s.conn with keepAlive := .pinged } }
  | .sleep =>
    when (s.conn.keepAlive = .pinged)
      { s with
        conn := { s.conn with keepAlive := .sleeping (s.state.now + options.keepAlive) } }
  | .sleepUntil remaining =>
    when (s.conn.keepAlive = .remaining remaining)
      { s with conn := { s.conn with keepAlive := .sleeping (s.state.now + remaining) } }
  | .woke wake =>
    when (s.conn.keepAlive = .sleeping wake ∧ wake ≤ s.state.now)
      { s with conn := { s.conn with keepAlive := .checking } }

/-- The steps of the supervisor: `try_join!` waits for both loops, since
neither fails. -/
def stepSupervisor (s : System) : SupervisorEvent → Option System
  | .joined =>
    when (s.conn.supervisor = .joining ∧ s.conn.reader = .ended ∧ s.conn.writer = .ended)
      { s with
        connectStatus := .disconnected
        conn := { s.conn with supervisor := .statusSet } }
  | .exitStored =>
    when (s.conn.supervisor = .statusSet)
      { s with conn := { s.conn with exit := true, supervisor := .exitSet } }
  | .cleanedUp =>
    when (s.conn.supervisor = .exitSet)
      { s with
        state := s.state.cleanUp
        conn := { s.conn with supervisor := .finished } }

def stepRuntime (s : System) : RuntimeEvent → Option System
  | .elapsed duration =>
    some { s with state := { s.state with now := s.state.now + duration } }
  | .evicted pkid =>
    some { s with
      state := { s.state with pendingPackets := s.state.pendingPackets.evict pkid } }
  | .handlerRan task =>
    when (task ∈ s.state.spawned)
      { s with state := { s.state with spawned := s.state.spawned.erase task } }

def step (codec : Codec) (options : ClientOptions) (s : System) : Event → Option System
  | .call event => s.stepCall codec event
  | .connect event => s.stepConnect codec options event
  | .block event => s.stepBlock options event
  | .reader event => s.stepReader event
  | .writer event => s.stepWriter event
  | .keepAlive event => s.stepKeepAlive options event
  | .supervisor event => s.stepSupervisor event
  | .runtime event => s.stepRuntime event

end System

end MesquitteClient
