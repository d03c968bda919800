import MesquitteClient.State

/-!
# The packet handlers

The handlers of `net.rs`. Each runs to its end without giving way: the ones
that look up a token hold the lock of `packet_ids` throughout, and
`handle_suback` that of `subscriptions` as well.
-/

namespace MesquitteClient

namespace State

/-- The loop that spawns a task for every subscription a message matches. -/
def dispatch (st : State) (packet : PublishPacket) : State :=
  let msg := Message.ofPublish packet
  { st with
    spawned := st.spawned ++
      (st.topicManager.matchTopic packet.topicName).map fun subscription => (subscription, msg) }

def handlePublish (packet : PublishPacket) (st : State) : State × Option VariablePacket :=
  match packet.qos with
  | .level0 => (st.dispatch packet, none)
  | .level1 pkid => (st.dispatch packet, some (.puback pkid))
  | .level2 pkid =>
    ({ st with pendingPackets := st.pendingPackets.insert st.now pkid packet }, some (.pubrec pkid))

/-- Completes whatever token is registered, of any kind. -/
def handlePuback (pkid : UInt16) (st : State) : State :=
  match st.owner pkid with
  | some t => st.finish pkid t
  | none => st

def handlePubrec (pkid : UInt16) : VariablePacket := .pubrel pkid

def handlePubrel (pkid : UInt16) (st : State) : State × VariablePacket :=
  let (packet, pendingPackets) := st.pendingPackets.remove pkid
  let st := { st with pendingPackets }
  (match packet with
    | some packet => st.dispatch packet
    | none => st, .pubcomp pkid)

/-- As `handle_puback`. -/
def handlePubcomp (pkid : UInt16) (st : State) : State :=
  match st.owner pkid with
  | some t => st.finish pkid t
  | none => st

/-- `topic_manager.add` and `subscriptions.insert` of an accepted subscription. -/
def accept (st : State) (subscription : Subscription) : State :=
  { st with
    topicManager := st.topicManager.add subscription
    subscriptions := st.subscriptions.insert subscription.topic subscription }

/-- One turn of the loop of `handle_suback`. -/
def subackEntry (t : TokenId) (i : Nat) (code : SubscribeReturnCode) (st : State) : State :=
  let st := st.modifyToken t (·.setResult i code)
  match (st.cell t).getSubscription i with
  | some subscription => if code ≠ .failure then st.accept subscription else st
  | none => st

def subackLoop (t : TokenId) : Nat → List SubscribeReturnCode → State → State
  | _, [], st => st
  | i, code :: codes, st => subackLoop t (i + 1) codes (st.subackEntry t i code)

def handleSuback (pkid : UInt16) (codes : List SubscribeReturnCode) (st : State) : State :=
  match st.owner pkid with
  | some t =>
    match (st.cell t).data with
    | .subscribe _ _ => (st.subackLoop t 0 codes).finish pkid t
    | _ => st
  | none => st

def removeTopics (topics : List String) (st : State) : State :=
  { st with
    topicManager := topics.foldl (fun manager topic => (manager.remove topic).1) st.topicManager }

def handleUnsuback (pkid : UInt16) (st : State) : State :=
  match st.owner pkid with
  | some t =>
    match (st.cell t).data with
    | .unsubscribe topics => (st.removeTopics topics).finish pkid t
    | _ => st
  | none => st

end State

/-- What the read loop does after a packet: go on, send a response through
the message channel first, or leave the loop. -/
inductive Next
  | proceed
  | respond (resp : VariablePacket)
  | leave
  deriving DecidableEq

/-- The body of the loop of `read_from_server` for a packet. -/
def readFromServer (packet : VariablePacket) (st : State) : State × Next :=
  match packet with
  | .publish packet =>
    let (st, resp) := st.handlePublish packet
    (st, match resp with
      | some resp => .respond resp
      | none => .proceed)
  | .puback pkid => (st.handlePuback pkid, .proceed)
  | .pubrec pkid => (st, .respond (State.handlePubrec pkid))
  | .pubrel pkid =>
    let (st, resp) := st.handlePubrel pkid
    (st, .respond resp)
  | .pubcomp pkid => (st.handlePubcomp pkid, .proceed)
  | .suback pkid codes => (st.handleSuback pkid codes, .proceed)
  | .unsuback pkid => (st.handleUnsuback pkid, .proceed)
  | .disconnect => (st, .leave)
  | .pingresp => (st, .proceed)
  | _ => (st, .leave)

end MesquitteClient
