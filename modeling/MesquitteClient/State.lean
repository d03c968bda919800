import MesquitteClient.TopicManager
import MesquitteClient.PacketIds
import MesquitteClient.Lib.TtlMap

/-!
# The state the tasks share

`state.rs`. Every task of a connection holds an `Arc<State>`, and `connect`
makes the next connection's `State` out of the last one's. The second group
of fields is what that state refers to and what the runtime keeps: the tokens
behind their `Arc`s, the tasks spawned to run handlers, and the clock.
`outgoing_tx` is one end of a channel and stands with the channels.
-/

namespace MesquitteClient

/-- Nanoseconds. -/
abbrev Duration := Nat

def Duration.fromSecs (secs : Nat) : Duration := secs * 1000000000

def Duration.asSecs (d : Duration) : Nat := d / 1000000000

/-- A spawned task that will run a subscription's handler on a message. -/
abbrev HandlerTask := Subscription × Message

structure State where
  packetIds : PacketIds := .new
  topicManager : TopicManager := .new
  subscriptions : Std.TreeMap String Subscription := ∅
  pendingPackets : TtlMap UInt16 PublishPacket := .empty (Duration.fromSecs 60)
  lastSentPacketAt : Duration := 0
  tokens : Tokens := {}
  spawned : List HandlerTask := []
  now : Duration := 0

namespace State

def new : State := {}

/-- What `connect` gives the next connection: a new `State` with the table,
the subscriptions, the trie and the pending packets of the last one. -/
def renew (st : State) : State :=
  { new with
    packetIds := st.packetIds
    subscriptions := st.subscriptions
    topicManager := st.topicManager
    pendingPackets := st.pendingPackets
    lastSentPacketAt := st.now
    tokens := st.tokens
    spawned := st.spawned
    now := st.now }

def modifyToken (st : State) (t : TokenId) (f : InnerToken → InnerToken) : State :=
  { st with tokens := st.tokens.modify t f }

def setError (st : State) (t : TokenId) (err : TokenError) : State :=
  st.modifyToken t (·.setError err)

def flowComplete (st : State) (t : TokenId) : State := st.modifyToken t (·.flowComplete)

/-- `packet_ids.lock().clean_up()`. -/
def cleanUp (st : State) : State :=
  let (packetIds, tokens) := st.packetIds.cleanUp st.tokens
  { st with packetIds, tokens }

/-- The end of every acknowledgement that is accepted: the token completes
and its identifier is freed. -/
def finish (st : State) (pkid : UInt16) (t : TokenId) : State :=
  { st.flowComplete t with packetIds := st.packetIds.freeId pkid }

/-- The token registered under an identifier. -/
def owner (st : State) (pkid : UInt16) : Option TokenId := st.packetIds.getToken pkid

def cell (st : State) (t : TokenId) : InnerToken := st.tokens.cell t

/-- The subscriptions the trie stores for a filter. -/
def entries (st : State) (filter : String) : List Subscription := st.topicManager.entries filter

@[simp] theorem modifyToken_packetIds (st : State) : (st.modifyToken t f).packetIds = st.packetIds := rfl
@[simp] theorem owner_modifyToken (st : State) : (st.modifyToken t f).owner k = st.owner k := rfl
@[simp] theorem entries_modifyToken (st : State) : (st.modifyToken t f).entries g = st.entries g := rfl

theorem cell_modifyToken (st : State) :
    (st.modifyToken t f).cell u = if u = t then f (st.cell t) else st.cell u :=
  st.tokens.cell_modify

@[simp] theorem cell_modifyToken_self (st : State) : (st.modifyToken t f).cell t = f (st.cell t) :=
  st.tokens.cell_modify_self

theorem owner_finish (st : State) :
    (st.finish pkid t).owner j = if pkid = j then none else st.owner j :=
  st.packetIds.getToken_freeId

theorem cell_finish (st : State) :
    (st.finish pkid t).cell u = if u = t then (st.cell t).flowComplete else st.cell u :=
  st.cell_modifyToken

@[simp] theorem owner_cleanUp (st : State) : st.cleanUp.owner k = none :=
  st.packetIds.getToken_cleanUp st.tokens

theorem cell_cleanUp (st : State) : st.cleanUp.cell t =
    if t ∈ st.packetIds.registered then (st.cell t).setError .connectionLost else st.cell t :=
  st.packetIds.cleanUp_cell st.tokens t

end State

end MesquitteClient
