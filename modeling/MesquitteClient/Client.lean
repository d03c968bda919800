import MesquitteClient.State

/-!
# The client task

`options.rs`, and of `client.rs` what one call computes and where the client
task can be. Every method takes `&mut self`, so one task runs at most one
method at a time; between two of its awaits other tasks run. A call is a
value, `Call`, and the places where it can be interrupted are its `Phase`s.
The five methods that send a packet share their shape: check the connection,
take an identifier, build the packet, send it, and return the token.
-/

namespace MesquitteClient

structure ClientOptions where
  server : String := ""
  clientId : String := ""
  username : String := ""
  password : String := ""
  cleanSession : Bool := false
  willEnabled : Bool := false
  willTopic : String := ""
  willPayload : List UInt8 := []
  willQos : QualityOfService := .level0
  willRetained : Bool := false
  keepAlive : Duration := 0
  connectTimeout : Duration := 0
  autoReconnect : Bool := false
  connectRetryInterval : Duration := 0
  maxConnectRetryTimes : Option UInt16 := none

def ClientOptions.new : ClientOptions where
  keepAlive := .fromSecs 30
  connectTimeout := .fromSecs 10
  connectRetryInterval := .fromSecs 5

def QualityOfService.toU8 : QualityOfService → UInt8
  | .level0 => 0
  | .level1 => 1
  | .level2 => 2

/-- `build_connect_packet`, or its panic on a will that `LastWill::new`
refuses. `as u16` truncates. -/
def buildConnectPacket (codec : Codec) (options : ClientOptions) : Option ConnectPacket :=
  let connect : ConnectPacket :=
    { clientId := options.clientId
      cleanSession := options.cleanSession
      keepAlive := UInt16.ofNat options.keepAlive.asSecs
      username := if options.username = "" then none else some options.username
      password := if options.password = "" then none else some options.password }
  if options.willEnabled then
    if codec.lastWill options.willTopic options.willPayload then
      some { connect with
        willQos := options.willQos.toU8
        willRetain := options.willRetained
        will := some (options.willTopic, options.willPayload) }
    else none
  else some connect

structure PacketAndToken where
  packet : VariablePacket
  token : Option TokenId
  deriving DecidableEq, Repr

-- ---------------------------------------------------------------------------
-- The calls that send a packet
-- ---------------------------------------------------------------------------

inductive Call
  | publish (topic : String) (qos : QualityOfService) (retained : Bool) (payload : List UInt8)
  | subscribe (topic : String) (qos : QualityOfService) (callback : OnMessageArrivedHandler)
  | subscribeMultiple (topics : List (String × QualityOfService)) (callback : OnMessageArrivedHandler)
  | unsubscribe (topics : List String)
  | disconnect
  deriving DecidableEq, Repr

namespace Call

/-- The token a call starts from. -/
def newToken : Call → InnerToken
  | .publish _ qos _ _ => InnerToken.publish.setQos qos
  | .subscribe .. => .subscribe
  | .subscribeMultiple .. => .subscribe
  | .unsubscribe _ => .unsubscribe
  | .disconnect => .disconnect

/-- Whether it registers its token under an identifier. -/
def takesId : Call → Bool
  | .publish _ qos _ _ => qos ≠ .level0
  | .disconnect => false
  | _ => true

/-- The topics a call adds to its token one by one. -/
def unsubscribes : Call → List String
  | .unsubscribe topics => topics
  | _ => []

/-- What is added to the token once the packet is sent. -/
def subscriptions : Call → List Subscription
  | .subscribe topic qos callback => [⟨topic, qos, callback⟩]
  | .subscribeMultiple topics callback => topics.map fun (topic, qos) => ⟨topic, qos, callback⟩
  | _ => []

/-- The packet of a call, `none` for an invalid topic; `pkid` is there for the
calls that take one. -/
def packet (codec : Codec) (pkid : Option UInt16) : Call → Option VariablePacket
  | .publish topic qos retained payload =>
    if codec.topicName topic then
      let qos := match qos, pkid with
        | .level1, some pkid => .level1 pkid
        | .level2, some pkid => .level2 pkid
        | _, _ => .level0
      some (.publish { topicName := topic, qos, payload, retain := retained })
    else none
  | .subscribe topic qos _ =>
    if codec.topicFilter topic then some (.subscribe (pkid.getD 0) [(topic, qos)]) else none
  | .subscribeMultiple topics _ =>
    if topics.all fun (topic, _) => codec.topicFilter topic then
      some (.subscribe (pkid.getD 0) topics)
    else none
  | .unsubscribe topics =>
    if topics.all codec.topicFilter then some (.unsubscribe (pkid.getD 0) topics) else none
  | .disconnect => some .disconnect

/-- A call stops at an invalid topic: the next one to be added to the token,
or one of the packet. -/
def stops (codec : Codec) (pkid : Option UInt16) (topics : List String) (call : Call) : Bool :=
  match topics with
  | topic :: _ => !codec.topicFilter topic
  | [] => (call.packet codec pkid).isNone

end Call

-- ---------------------------------------------------------------------------
-- Where the client task can be
-- ---------------------------------------------------------------------------

/-- Where a call can be interrupted after its check of the connection. -/
inductive Phase
  /-- about to take an identifier -/
  | registering
  /-- about to build the packet, with the topics still to be added to the token -/
  | building (pkid : Option UInt16) (topics : List String)
  /-- waiting for room in the outgoing channel -/
  | sending (packet : VariablePacket)
  /-- the send has returned -/
  | sent
  deriving DecidableEq, Repr

/-- The subscriptions a resubscribe job still has to subscribe to. -/
abbrev Job := List (String × Subscription)

/-- A call in progress: the job it belongs to (none for a call of the
application), the call and its token. -/
structure Frame where
  job : Option Job
  call : Call
  token : TokenId
  deriving DecidableEq, Repr

inductive ConnectPhase
  /-- waiting for `Transport::connect` -/
  | transport
  /-- the CONNECT packet is sent; waiting for the first packet -/
  | handshake
  /-- accepted: the tasks run, the status is not yet set -/
  | spawned (sessionPresent : Bool)
  /-- the status is set -/
  | connected (sessionPresent : Bool)
  deriving DecidableEq, Repr

inductive JobPhase
  | cleanUp
  | clone
  | clear (subs : Job)
  | next (rest : Job)
  | awaiting (token : TokenId) (rest : Job)
  deriving DecidableEq, Repr

/-- Who called `connect`: the application, or `block` with its counter. -/
abbrev Caller := Option UInt16

inductive ClientTask
  | idle
  | call (frame : Frame) (phase : Phase)
  | connect (caller : Caller) (token : TokenId) (phase : ConnectPhase)
  /-- in the `select!` of `block` -/
  | block (cnt : UInt16)
  /-- `block` is about to call `connect` -/
  | reconnect (cnt : UInt16)
  /-- `block` awaits the token of `connect` -/
  | awaitConnect (cnt : UInt16) (token : TokenId)
  | job (phase : JobPhase)
  /-- `Transport::connect` or `build_connect_packet` has panicked -/
  | panicked
  deriving DecidableEq, Repr

namespace ClientTask

/-- From where a call can be made: the application makes any while the client
is idle, the job the one for the next subscription. -/
def calls (client : ClientTask) (job : Option Job) (call : Call) : Bool :=
  match client, job with
  | .idle, none => true
  | .job (.next ((topic, sub) :: rest)), some rest' =>
    rest' = rest && call = .subscribe topic sub.qos sub.handler
  | _, _ => false

/-- After a call has returned its token: the job awaits it. -/
def returned (frame : Frame) : ClientTask :=
  match frame.job with
  | none => .idle
  | some rest => .job (.awaiting frame.token rest)

def connects (client : ClientTask) : Caller → Bool
  | none => client = .idle
  | some cnt => client = .reconnect cnt

def connectReturned (caller : Caller) (token : TokenId) : ClientTask :=
  match caller with
  | none => .idle
  | some cnt => .awaitConnect cnt token

end ClientTask

def Call.begin (call : Call) : Phase :=
  if call.takesId then .registering else .building none call.unsubscribes

end MesquitteClient
