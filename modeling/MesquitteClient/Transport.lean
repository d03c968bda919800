import MesquitteClient.State

/-!
# The transports

`transport.rs`: the three ways `connect` gets a stream to the server, `Tcp`,
`Ws` and `Quic`. Each is a chain of steps of libraries, whose outcomes are the
chain's surroundings here; an error of a library is the text it prints. What
is returned is the stream, whose two halves the source frames with the codec.
`none` is a panic: each chain has an `unwrap`.
-/

namespace MesquitteClient.Transport

/-- What `timeout` makes of a future that can fail. -/
inductive Timed (α : Type)
  | elapsed
  | done (res : Except String α)

-- ---------------------------------------------------------------------------
-- Tcp
-- ---------------------------------------------------------------------------

structure Tcp (Addr IoStream : Type) where
  lookupHost : String → Except String (List Addr)
  /-- the n-th attempt, at an address -/
  connectStream : Nat → Addr → Duration → Timed IoStream

/-- The loop over the addresses, with those it has tried. -/
def connectLoop (attempt : Nat → Addr → Timed IoStream) :
    Nat → List Addr → TokenError → List Addr × Except TokenError IoStream
  | _, [], error => ([], .error error)
  | n, addr :: addrs, _ =>
    match attempt n addr with
    | .done (.ok stream) => ([addr], .ok stream)
    | .done (.error err) =>
      let (tried, res) := connectLoop attempt (n + 1) addrs (.ioError err)
      (addr :: tried, res)
    | .elapsed =>
      let (tried, res) := connectLoop attempt (n + 1) addrs .connectTimeout
      (addr :: tried, res)

def Tcp.connect (tcp : Tcp Addr IoStream) (addr : String) (connectTimeout : Duration) :
    Option (List Addr × Except TokenError IoStream) :=
  match tcp.lookupHost addr with
  | .error _ => none
  | .ok addrs =>
    some (connectLoop (fun n addr => tcp.connectStream n addr connectTimeout) 0 addrs
      .networkUnreachable)

-- ---------------------------------------------------------------------------
-- Ws
-- ---------------------------------------------------------------------------

structure Ws (Url Request IoStream : Type) where
  parse : String → Except String Url
  intoClientRequest : Url → Except String Request
  insertHeader : Request → String → String → Request
  connectAsync : Request → Duration → Timed IoStream

def Ws.connect (ws : Ws Url Request IoStream) (addr : String) (connectTimeout : Duration) :
    Option (Except TokenError IoStream) :=
  match ws.parse addr with
  | .error _ => none
  | .ok url =>
    match ws.intoClientRequest url with
    | .error _ => none
    | .ok request =>
      let request := ws.insertHeader request "Sec-WebSocket-Protocol" "mqtt"
      some (match ws.connectAsync request connectTimeout with
        | .done (.ok stream) => .ok stream
        | .done (.error _) => .error .networkUnreachable
        | .elapsed => .error .connectTimeout)

-- ---------------------------------------------------------------------------
-- Quic
-- ---------------------------------------------------------------------------

/-- The errors of `withIo`, of `start` and of the connection are an
`io::Error`, a `StartError` and a `connection::Error`. -/
structure Quic (Builder Client SocketAddr Connection IoStream : Type) where
  cert : String
  builder : Builder
  withTls : Builder → String → Except String Builder
  withIo : Builder → String → Except String Builder
  start : Builder → Except String Client
  parse : String → Except String SocketAddr
  connectClient : Client → SocketAddr → String → Except String Connection
  keepAlive : Connection → Bool → Except String Connection
  openBidirectionalStream : Connection → Duration → Timed IoStream

section

variable {Builder Client SocketAddr Connection IoStream : Type}
variable (quic : Quic Builder Client SocketAddr Connection IoStream)

/-- `Quic::connect` after `with_tls`. Each `?` converts the error of its step;
the certificate is loaded by `start`. -/
def Quic.connectWith (client : Builder) (addr : String) (connectTimeout : Duration) :
    Except TokenError IoStream := do
  let client ← (quic.withIo client "0.0.0.0:0").mapError .ioError
  let client ← (quic.start client).mapError .connectError
  match quic.parse addr with
  | .ok addr =>
    let connection ← (quic.connectClient client addr "localhost").mapError .connectionError
    let connection ← (quic.keepAlive connection true).mapError .connectionError
    match quic.openBidirectionalStream connection connectTimeout with
    | .done (.ok stream) => .ok stream
    | .done (.error err) => .error (.connectionError err)
    | .elapsed => .error .connectTimeout
  | .error err => .error (.connectError err)

def Quic.connect (addr : String) (connectTimeout : Duration) :
    Option (Except TokenError IoStream) :=
  match quic.withTls quic.builder quic.cert with
  | .error _ => none
  | .ok client => some (quic.connectWith client addr connectTimeout)

end

-- ---------------------------------------------------------------------------
-- The addresses of Tcp
-- ---------------------------------------------------------------------------

/-- The error of an attempt that does not connect. -/
def Timed.error : Timed α → Option TokenError
  | .done (.ok _) => none
  | .done (.error err) => some (.ioError err)
  | .elapsed => some .connectTimeout

/-- The attempts at some addresses all fail. -/
def AllFail (attempt : Nat → Addr → Timed IoStream) (addrs : List Addr) : Prop :=
  ∀ n addr, addrs[n]? = some addr → (attempt n addr).error.isSome

/-- The result is the first address that connects, and none after it is tried;
or the error of the last attempt, or `error` without any. -/
structure TriesInOrder (attempt : Nat → Addr → Timed IoStream) (addrs tried : List Addr)
    (error : TokenError) (res : Except TokenError IoStream) : Prop where
  connected : res = .ok stream → ∃ before addr after, addrs = before ++ addr :: after ∧
    tried = before ++ [addr] ∧ AllFail attempt before ∧
      attempt before.length addr = .done (.ok stream)
  failed : res = .error err → tried = addrs ∧ AllFail attempt addrs ∧
    (addrs = [] ∧ err = error ∨ ∃ before addr, addrs = before ++ [addr] ∧
      (attempt before.length addr).error = some err)

theorem AllFail.cons {attempt : Nat → Addr → Timed IoStream}
    (h : (attempt 0 addr).error = some err) (ha : AllFail (fun n => attempt (n + 1)) addrs) :
    AllFail attempt (addr :: addrs) := by
  intro n addr' hn
  cases n with
  | zero =>
    cases hn
    rw [h]
    rfl
  | succ n => exact ha n addr' hn

theorem TriesInOrder.cons {attempt : Nat → Addr → Timed IoStream}
    (he : (attempt 0 addr).error = some err)
    (ht : TriesInOrder (fun n => attempt (n + 1)) addrs tried err res) :
    TriesInOrder attempt (addr :: addrs) (addr :: tried) error res where
  connected hres := by
    obtain ⟨before, addr', after, rfl, rfl, hfail, hok⟩ := ht.connected hres
    exact ⟨addr :: before, addr', after, rfl, rfl, hfail.cons he, hok⟩
  failed hres := by
    obtain ⟨rfl, hfail, hlast⟩ := ht.failed hres
    refine ⟨rfl, hfail.cons he, .inr ?_⟩
    rcases hlast with ⟨rfl, rfl⟩ | ⟨before, addr', rfl, hlast⟩
    · exact ⟨[], addr, rfl, he⟩
    · exact ⟨addr :: before, addr', rfl, hlast⟩

theorem connectLoop_shift (attempt : Nat → Addr → Timed IoStream) (n : Nat) (addrs : List Addr)
    (error : TokenError) : connectLoop attempt (n + 1) addrs error =
      connectLoop (fun n => attempt (n + 1)) n addrs error := by
  induction addrs generalizing n error with
  | nil => rfl
  | cons addr addrs ih =>
    simp only [connectLoop, ih]

theorem connectLoop_tries (attempt : Nat → Addr → Timed IoStream) (addrs : List Addr)
    (error : TokenError) : TriesInOrder attempt addrs (connectLoop attempt 0 addrs error).1 error
      (connectLoop attempt 0 addrs error).2 := by
  induction addrs generalizing attempt error with
  | nil =>
    refine ⟨fun h => ?_, fun h => ?_⟩
    · cases h
    · cases h
      exact ⟨rfl, fun n addr h => by simp at h, .inl ⟨rfl, rfl⟩⟩
  | cons addr addrs ih =>
    rw [connectLoop]
    cases ha : attempt 0 addr with
    | elapsed =>
      simp only [connectLoop_shift]
      exact (ih _ _).cons (by rw [ha]; rfl)
    | done res =>
      cases res with
      | error err =>
        simp only [connectLoop_shift]
        exact (ih _ _).cons (by rw [ha]; rfl)
      | ok stream =>
        refine ⟨fun h => ?_, fun h => ?_⟩
        · cases h
          exact ⟨[], addr, addrs, rfl, rfl, fun n addr h => by simp at h, ha⟩
        · cases h

-- ---------------------------------------------------------------------------
-- Panics
-- ---------------------------------------------------------------------------

theorem Tcp.connect_isSome (tcp : Tcp Addr IoStream) (addr : String) (timeout : Duration) :
    (tcp.connect addr timeout).isSome ↔ (tcp.lookupHost addr).isOk := by
  unfold Tcp.connect
  cases tcp.lookupHost addr <;> simp [Except.isOk, Except.toBool]

theorem Ws.connect_isSome (ws : Ws Url Request IoStream) (addr : String) (timeout : Duration) :
    (ws.connect addr timeout).isSome ↔ ((ws.parse addr).bind ws.intoClientRequest).isOk := by
  unfold Ws.connect
  cases ws.parse addr with
  | error err => simp [Except.isOk, Except.toBool, Except.bind]
  | ok url => cases h : ws.intoClientRequest url <;> simp [Except.isOk, Except.toBool, Except.bind, h]

theorem Quic.connect_isSome {Builder Client SocketAddr Connection IoStream : Type}
    (quic : Quic Builder Client SocketAddr Connection IoStream) (addr : String)
    (timeout : Duration) :
    (quic.connect addr timeout).isSome ↔ (quic.withTls quic.builder quic.cert).isOk := by
  unfold Quic.connect
  cases quic.withTls quic.builder quic.cert <;> simp [Except.isOk, Except.toBool]

/-- A transport returns, with a stream or an error, exactly when the steps that
it unwraps succeed: the lookup of the host, the parsing of the URL and the
request made of it, and `with_tls`, which only takes the certificate's path.
What `Tcp` then returns is the first address that connects or the last error. -/
theorem connect_returns {Builder Client SocketAddr Connection : Type}
    (tcp : Tcp Addr IoStream) (ws : Ws Url Request IoStream)
    (quic : Quic Builder Client SocketAddr Connection IoStream) (addr : String)
    (timeout : Duration) :
    ((tcp.connect addr timeout).isSome ↔ (tcp.lookupHost addr).isOk) ∧
      ((ws.connect addr timeout).isSome ↔ ((ws.parse addr).bind ws.intoClientRequest).isOk) ∧
      ((quic.connect addr timeout).isSome ↔ (quic.withTls quic.builder quic.cert).isOk) ∧
      ∀ addrs tried res, tcp.lookupHost addr = .ok addrs →
        tcp.connect addr timeout = some (tried, res) →
          TriesInOrder (fun n addr => tcp.connectStream n addr timeout) addrs tried
            .networkUnreachable res := by
  refine ⟨tcp.connect_isSome addr timeout, ws.connect_isSome addr timeout,
    quic.connect_isSome addr timeout, fun addrs tried res hl h => ?_⟩
  rw [Tcp.connect, hl, Option.some.injEq] at h
  have ht := connectLoop_tries (fun n addr => tcp.connectStream n addr timeout) addrs
    .networkUnreachable
  rw [h] at ht
  exact ht

/-- The resolver is down. -/
theorem lookup_failure_panics : ¬ ∀ (tcp : Tcp Unit Unit) addr timeout,
    (tcp.connect addr timeout).isSome := by
  intro hall
  have hsome := hall ⟨fun _ => .error "Temporary failure in name resolution", fun _ _ _ => .elapsed⟩
    "broker:1883" 10
  cases hsome

end MesquitteClient.Transport
