import Mathlib.Logic.Basic

/-!
# Packets, messages and subscriptions

The part of `mqtt-codec-kit` the client handles, as data, with `message.rs`
and the records of `topic_store.rs`. What the codec decides by parsing
(whether a string is a topic name, a topic filter or the topic of a will) is
a parameter, `Codec`.
-/

namespace MesquitteClient

inductive QualityOfService
  | level0
  | level1
  | level2
  deriving DecidableEq, Repr

inductive QoSWithPacketIdentifier
  | level0
  | level1 (pkid : UInt16)
  | level2 (pkid : UInt16)
  deriving DecidableEq, Repr

def QoSWithPacketIdentifier.split : QoSWithPacketIdentifier → QualityOfService × Option UInt16
  | .level0 => (.level0, none)
  | .level1 pkid => (.level1, some pkid)
  | .level2 pkid => (.level2, some pkid)

inductive SubscribeReturnCode
  | maximumQoSLevel0
  | maximumQoSLevel1
  | maximumQoSLevel2
  | failure
  deriving DecidableEq, Repr

inductive ConnectReturnCode
  | connectionAccepted
  | unacceptableProtocolVersion
  | identifierRejected
  | serviceUnavailable
  | badUserNameOrPassword
  | notAuthorized
  | reserved (code : UInt8)
  deriving DecidableEq, Repr

def ConnectReturnCode.toU8 : ConnectReturnCode → UInt8
  | .connectionAccepted => 0
  | .unacceptableProtocolVersion => 1
  | .identifierRejected => 2
  | .serviceUnavailable => 3
  | .badUserNameOrPassword => 4
  | .notAuthorized => 5
  | .reserved code => code

structure PublishPacket where
  topicName : String
  qos : QoSWithPacketIdentifier
  payload : List UInt8
  dup : Bool := false
  retain : Bool := false
  deriving DecidableEq, Repr

structure ConnectPacket where
  clientId : String
  cleanSession : Bool := false
  keepAlive : UInt16 := 0
  willQos : UInt8 := 0
  willRetain : Bool := false
  will : Option (String × List UInt8) := none
  username : Option String := none
  password : Option String := none
  deriving DecidableEq, Repr

inductive VariablePacket
  | connect (packet : ConnectPacket)
  | connack (sessionPresent : Bool) (code : ConnectReturnCode)
  | publish (packet : PublishPacket)
  | puback (pkid : UInt16)
  | pubrec (pkid : UInt16)
  | pubrel (pkid : UInt16)
  | pubcomp (pkid : UInt16)
  | subscribe (pkid : UInt16) (subscribes : List (String × QualityOfService))
  | suback (pkid : UInt16) (subscribes : List SubscribeReturnCode)
  | unsubscribe (pkid : UInt16) (unsubscribes : List String)
  | unsuback (pkid : UInt16)
  | pingreq
  | pingresp
  | disconnect
  deriving DecidableEq, Repr

/-- The checks of `mqtt-codec-kit`: which strings `TopicName::new`,
`TopicFilter::new` and `LastWill::new` accept. -/
structure Codec where
  topicName : String → Bool
  topicFilter : String → Bool
  lastWill : String → List UInt8 → Bool

/-- `message.rs`: what a handler is called with. -/
structure Message where
  topic : String
  payload : List UInt8
  qos : QualityOfService
  packetId : Option UInt16
  dup : Bool
  retain : Bool
  deriving DecidableEq, Repr

/-- `Message::from(&PublishPacket)`. -/
def Message.ofPublish (packet : PublishPacket) : Message where
  topic := packet.topicName
  payload := packet.payload
  qos := packet.qos.split.1
  packetId := packet.qos.split.2
  dup := packet.dup
  retain := packet.retain

/-- `fn(&Message)`: a function pointer, told apart by its address. -/
abbrev OnMessageArrivedHandler := Nat

structure Subscription where
  topic : String
  qos : QualityOfService
  handler : OnMessageArrivedHandler
  deriving DecidableEq, Repr

end MesquitteClient
