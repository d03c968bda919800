import MesquitteClient.Packet
import Mathlib.Logic.Function.Basic
import Std.Data.TreeMap.Lemmas

/-!
# Tokens

`token/mod.rs` and the five kinds of token. A token of the source is an
`Arc<Mutex<InnerToken>>` shared by its clones; here it is a `TokenId`, and
`Tokens` holds the `InnerToken` each one points to. What differs between the
five kinds is `TokenData`, whose constructor is also the variant of
`enum Token` a clone is wrapped in. `set_error` and `flow_complete` are one
macro for all kinds, and one definition here.
-/

namespace MesquitteClient

inductive TokenError
  | ioError (err : String)
  | connectTimeout
  | networkUnreachable
  | connectError (err : String)
  | connectFailed (code : UInt8)
  | connectionLost
  | reconnecting
  | connectionError (err : String)
  | invalidTopic
  | packetIdError
  | internalServerError
  | packetError (err : String)
  deriving DecidableEq, Repr

/-- A waker, told apart by the task it wakes. -/
abbrev Waker := Nat

inductive TokenData
  | connect (returnCode : ConnectReturnCode) (sessionPresent : Bool)
  | disconnect
  | publish (qos : QualityOfService)
  | subscribe (subscriptions : List Subscription) (results : Std.TreeMap String SubscribeReturnCode)
  | unsubscribe (subs : List String)

/-- The kind of a token, which never changes once the token is handed out. -/
inductive TokenKind
  | connect
  | disconnect
  | publish (qos : QualityOfService)
  | subscribe
  | unsubscribe
  deriving DecidableEq, Repr

def TokenData.kind : TokenData → TokenKind
  | .connect .. => .connect
  | .disconnect => .disconnect
  | .publish qos => .publish qos
  | .subscribe .. => .subscribe
  | .unsubscribe _ => .unsubscribe

structure InnerToken where
  data : TokenData
  complete : Bool := false
  waker : Option Waker := none
  error : Option TokenError := none

namespace InnerToken

def kind (token : InnerToken) : TokenKind := token.data.kind

-- The defaults of the five kinds.
def connect : InnerToken := { data := .connect .connectionAccepted false }
def disconnect : InnerToken := { data := .disconnect }
def publish : InnerToken := { data := .publish .level0 }
def subscribe : InnerToken := { data := .subscribe [] ∅ }
def unsubscribe : InnerToken := { data := .unsubscribe [] }

/-- `Tokenize::set_error`; the waker that is taken is woken. -/
def setError (token : InnerToken) (error : TokenError) : InnerToken :=
  { token with error := some error, complete := true, waker := none }

/-- `Tokenize::flow_complete`. -/
def flowComplete (token : InnerToken) : InnerToken := { token with complete := true, waker := none }

/-- `Future::poll`: the outcome, or the token with the poller's waker. -/
def poll (token : InnerToken) (waker : Waker) : InnerToken × Option (Option TokenError) :=
  if token.complete then (token, some token.error) else ({ token with waker := some waker }, none)

def setQos (token : InnerToken) (qos : QualityOfService) : InnerToken :=
  match token.data with
  | .publish _ => { token with data := .publish qos }
  | _ => token

def setReturnCode (token : InnerToken) (code : ConnectReturnCode) : InnerToken :=
  match token.data with
  | .connect _ sessionPresent => { token with data := .connect code sessionPresent }
  | _ => token

def setSessionPresent (token : InnerToken) : InnerToken :=
  match token.data with
  | .connect code _ => { token with data := .connect code true }
  | _ => token

def sessionPresent (token : InnerToken) : Bool :=
  match token.data with
  | .connect _ sessionPresent => sessionPresent
  | _ => false

def addSubscriptions (token : InnerToken) (subscriptions : List Subscription) : InnerToken :=
  match token.data with
  | .subscribe subs results => { token with data := .subscribe (subs ++ subscriptions) results }
  | _ => token

def subscriptions (token : InnerToken) : List Subscription :=
  match token.data with
  | .subscribe subs _ => subs
  | _ => []

def getSubscription (token : InnerToken) (index : Nat) : Option Subscription :=
  token.subscriptions[index]?

def setResult (token : InnerToken) (index : Nat) (result : SubscribeReturnCode) : InnerToken :=
  match token.data with
  | .subscribe subs results =>
    match subs[index]? with
    | some sub => { token with data := .subscribe subs (results.insert sub.topic result) }
    | none => token
  | _ => token

/-- `SubscribeToken::result`. -/
def result (token : InnerToken) : Std.TreeMap String SubscribeReturnCode :=
  match token.data with
  | .subscribe _ results => results
  | _ => ∅

def addTopic (token : InnerToken) (topic : String) : InnerToken :=
  match token.data with
  | .unsubscribe subs => { token with data := .unsubscribe (subs ++ [topic]) }
  | _ => token

/-- `UnsubscribeToken::topics`. -/
def topics (token : InnerToken) : List String :=
  match token.data with
  | .unsubscribe subs => subs
  | _ => []

section
variable (token : InnerToken)

@[simp] theorem setError_complete : (token.setError e).complete = true := rfl
@[simp] theorem setError_error : (token.setError e).error = some e := rfl
@[simp] theorem setError_data : (token.setError e).data = token.data := rfl
@[simp] theorem setError_kind : (token.setError e).kind = token.kind := rfl
@[simp] theorem setError_subscriptions : (token.setError e).subscriptions = token.subscriptions := rfl
@[simp] theorem setError_result : (token.setError e).result = token.result := rfl
@[simp] theorem flowComplete_complete : token.flowComplete.complete = true := rfl
@[simp] theorem flowComplete_error : token.flowComplete.error = token.error := rfl
@[simp] theorem flowComplete_data : token.flowComplete.data = token.data := rfl
@[simp] theorem flowComplete_kind : token.flowComplete.kind = token.kind := rfl
@[simp] theorem flowComplete_result : token.flowComplete.result = token.result := rfl
@[simp] theorem flowComplete_subscriptions :
    token.flowComplete.subscriptions = token.subscriptions := rfl

@[simp] theorem setError_sessionPresent :
    (token.setError e).sessionPresent = token.sessionPresent := rfl
@[simp] theorem flowComplete_sessionPresent :
    token.flowComplete.sessionPresent = token.sessionPresent := rfl

@[simp] theorem setResult_complete : (token.setResult i code).complete = token.complete := by
  unfold setResult
  split <;> (try split) <;> rfl

@[simp] theorem setResult_error : (token.setResult i code).error = token.error := by
  unfold setResult
  split <;> (try split) <;> rfl

@[simp] theorem setResult_kind : (token.setResult i code).kind = token.kind := by
  unfold setResult
  split
  · rename_i h
    split <;> simp [kind, TokenData.kind, h]
  · rfl

@[simp] theorem setResult_subscriptions :
    (token.setResult i code).subscriptions = token.subscriptions := by
  unfold setResult
  split
  · rename_i h
    split <;> simp [subscriptions, h]
  · rfl

@[simp] theorem setResult_sessionPresent :
    (token.setResult i code).sessionPresent = token.sessionPresent := by
  unfold setResult
  split
  · rename_i h
    split <;> simp [sessionPresent, h]
  · rfl

/-- A code is recorded under the topic of its subscription, if the token has
that subscription. -/
theorem setResult_result : (token.setResult i code).result[topic]? =
    if (token.subscriptions[i]?.map (·.topic)) = some topic then some code
    else token.result[topic]? := by
  unfold setResult
  split
  · rename_i subs results h
    cases hs : subs[i]? with
    | none => simp [result, subscriptions, h, hs]
    | some sub => simp [result, subscriptions, h, hs, Std.TreeMap.getElem?_insert]
  · rename_i h
    have hnil : token.subscriptions = [] := by
      cases hd : token.data with
      | subscribe subs results => exact absurd hd (h subs results)
      | _ => simp [subscriptions, hd]
    simp [hnil]

theorem addSubscriptions_subscriptions (h : token.kind = .subscribe) :
    (token.addSubscriptions subs).subscriptions = token.subscriptions ++ subs := by
  cases hd : token.data <;> simp [kind, TokenData.kind, hd] at h
  simp [addSubscriptions, subscriptions, hd]

@[simp] theorem addSubscriptions_complete :
    (token.addSubscriptions subs).complete = token.complete := by
  unfold addSubscriptions
  split <;> rfl

@[simp] theorem addSubscriptions_error : (token.addSubscriptions subs).error = token.error := by
  unfold addSubscriptions
  split <;> rfl

@[simp] theorem addSubscriptions_kind : (token.addSubscriptions subs).kind = token.kind := by
  unfold addSubscriptions
  split
  · rename_i h
    simp [kind, TokenData.kind, h]
  · rfl

@[simp] theorem addTopic_complete : (token.addTopic topic).complete = token.complete := by
  unfold addTopic
  split <;> rfl

@[simp] theorem addTopic_error : (token.addTopic topic).error = token.error := by
  unfold addTopic
  split <;> rfl

@[simp] theorem addTopic_kind : (token.addTopic topic).kind = token.kind := by
  unfold addTopic
  split
  · rename_i h
    simp [kind, TokenData.kind, h]
  · rfl

@[simp] theorem setReturnCode_complete : (token.setReturnCode code).complete = token.complete := by
  unfold setReturnCode
  split <;> rfl

@[simp] theorem setReturnCode_error : (token.setReturnCode code).error = token.error := by
  unfold setReturnCode
  split <;> rfl

@[simp] theorem setReturnCode_kind : (token.setReturnCode code).kind = token.kind := by
  unfold setReturnCode
  split
  · rename_i h
    simp [kind, TokenData.kind, h]
  · rfl

@[simp] theorem setReturnCode_subscriptions :
    (token.setReturnCode code).subscriptions = token.subscriptions := by
  unfold setReturnCode
  split
  · rename_i h
    simp [subscriptions, h]
  · rfl

@[simp] theorem setSessionPresent_complete : token.setSessionPresent.complete = token.complete := by
  unfold setSessionPresent
  split <;> rfl

@[simp] theorem setSessionPresent_error : token.setSessionPresent.error = token.error := by
  unfold setSessionPresent
  split <;> rfl

@[simp] theorem setSessionPresent_kind : token.setSessionPresent.kind = token.kind := by
  unfold setSessionPresent
  split
  · rename_i h
    simp [kind, TokenData.kind, h]
  · rfl

@[simp] theorem setSessionPresent_subscriptions :
    token.setSessionPresent.subscriptions = token.subscriptions := by
  unfold setSessionPresent
  split
  · rename_i h
    simp [subscriptions, h]
  · rfl

@[simp] theorem addSubscriptions_result :
    (token.addSubscriptions subs).result = token.result := by
  unfold addSubscriptions
  split
  · rename_i h
    simp [result, h]
  · rfl

@[simp] theorem addTopic_result : (token.addTopic topic).result = token.result := by
  unfold addTopic
  split
  · rename_i h
    simp [result, h]
  · rfl

@[simp] theorem setReturnCode_result : (token.setReturnCode code).result = token.result := by
  unfold setReturnCode
  split
  · rename_i h
    simp [result, h]
  · rfl

@[simp] theorem setSessionPresent_result : token.setSessionPresent.result = token.result := by
  unfold setSessionPresent
  split
  · rename_i h
    simp [result, h]
  · rfl

@[simp] theorem addSubscriptions_sessionPresent :
    (token.addSubscriptions subs).sessionPresent = token.sessionPresent := by
  unfold addSubscriptions
  split
  · rename_i h
    simp [sessionPresent, h]
  · rfl

@[simp] theorem addTopic_sessionPresent :
    (token.addTopic topic).sessionPresent = token.sessionPresent := by
  unfold addTopic
  split
  · rename_i h
    simp [sessionPresent, h]
  · rfl

@[simp] theorem setReturnCode_sessionPresent :
    (token.setReturnCode code).sessionPresent = token.sessionPresent := by
  unfold setReturnCode
  split
  · rename_i h
    simp [sessionPresent, h]
  · rfl

@[simp] theorem addTopic_subscriptions :
    (token.addTopic topic).subscriptions = token.subscriptions := by
  unfold addTopic
  split
  · rename_i h
    simp [subscriptions, h]
  · rfl

end

end InnerToken

-- ---------------------------------------------------------------------------
-- The tokens behind the `Arc`s
-- ---------------------------------------------------------------------------

abbrev TokenId := Nat

structure Tokens where
  cell : TokenId → InnerToken := fun _ => .connect
  next : TokenId := 0

namespace Tokens

/-- A fresh token; its id is `tokens.next`. -/
def alloc (tokens : Tokens) (token : InnerToken) : Tokens where
  cell := Function.update tokens.cell tokens.next token
  next := tokens.next + 1

/-- Change one token through its lock. -/
def modify (tokens : Tokens) (t : TokenId) (f : InnerToken → InnerToken) : Tokens :=
  { tokens with cell := Function.update tokens.cell t (f (tokens.cell t)) }

@[simp] theorem next_alloc (tokens : Tokens) : (tokens.alloc token).next = tokens.next + 1 := rfl
@[simp] theorem next_modify (tokens : Tokens) : (tokens.modify t f).next = tokens.next := rfl

theorem cell_alloc (tokens : Tokens) :
    (tokens.alloc token).cell u = if u = tokens.next then token else tokens.cell u := by
  simp [alloc, Function.update_apply]

@[simp] theorem cell_alloc_next (tokens : Tokens) : (tokens.alloc token).cell tokens.next = token := by
  simp [cell_alloc]

theorem cell_alloc_of_lt (tokens : Tokens) (h : u < tokens.next) :
    (tokens.alloc token).cell u = tokens.cell u := by
  simp [cell_alloc, Nat.ne_of_lt h]

theorem cell_modify (tokens : Tokens) :
    (tokens.modify t f).cell u = if u = t then f (tokens.cell t) else tokens.cell u := by
  simp [modify, Function.update_apply]

@[simp] theorem cell_modify_self (tokens : Tokens) :
    (tokens.modify t f).cell t = f (tokens.cell t) := by
  simp [cell_modify]

end Tokens

end MesquitteClient
