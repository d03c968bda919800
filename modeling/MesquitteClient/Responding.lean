import MesquitteClient.Lifecycle
import Mathlib.Data.List.TakeWhile

/-!
# Responses

What the write loop writes from its two channels, against what the read loop
received and what was enqueued, on one connection. Each channel is accounted
for from end to end: what went in is what was written, what is being written
and what is still queued, until the write loop exits and drops the rest
(`Answering`, `Enqueuing`). So the responses written are, in order, those to
the packets received (`answered_in_order`).
-/

namespace MesquitteClient

/-- The response to a packet. -/
def response : VariablePacket → Option VariablePacket
  | .publish packet =>
    match packet.qos with
    | .level0 => none
    | .level1 pkid => some (.puback pkid)
    | .level2 pkid => some (.pubrec pkid)
  | .pubrec pkid => some (.pubrel pkid)
  | .pubrel pkid => some (.pubcomp pkid)
  | _ => none

/-- The packets the read loop goes on after. -/
def keepsReading : VariablePacket → Bool
  | .publish _ | .puback _ | .pubrec _ | .pubrel _ | .pubcomp _ | .suback .. | .unsuback _
  | .pingresp => true
  | _ => false

theorem readFromServer_next (packet : VariablePacket) (st : State) :
    (readFromServer packet st).2 =
      match response packet with
      | some resp => .respond resp
      | none => if keepsReading packet then .proceed else .leave := by
  cases packet with
  | publish packet =>
    obtain ⟨topic, qos, payload, dup, retain⟩ := packet
    cases qos <;> rfl
  | _ => rfl

/-- The response the write loop is writing. -/
def Writer.responses : Writer → List VariablePacket
  | .writingMsg packet => [packet]
  | _ => []

/-- What it is writing from the outgoing channel. -/
def Writer.outgoing : Writer → List VariablePacket
  | .writingOutgoing outgoing => [outgoing.packet]
  | _ => []

/-- The response the read loop is waiting to hand over. -/
def Reader.responses : Reader → List VariablePacket
  | .responding resp => [resp]
  | _ => []

/-- The responses on their way, oldest first. -/
def Connection.responses (conn : Connection) : List VariablePacket :=
  conn.writer.responses ++ conn.msg ++ conn.reader.responses

/-- The packets of calls and PINGREQs on their way, oldest first. -/
def Connection.requests (conn : Connection) : List VariablePacket :=
  conn.writer.outgoing ++ conn.outgoing.map (·.packet)

namespace System

variable {codec : Codec} {options : ClientOptions} {s s' : System} {e : Event}
variable {guard : Lts.Guard System Event} {h : Lts.History System Event}

-- ---------------------------------------------------------------------------
-- What has happened on the connection
-- ---------------------------------------------------------------------------

/-- What the events since the last accepted connection give, in order. -/
def onConnection {α : Type} (f : Event → Option α) : Lts.History System Event → List α
  | [] => []
  | (_, .connect (.accepted ..)) :: _ => []
  | (_, e) :: h => onConnection f h ++ (f e).toList

def receivedPacket : Event → Option VariablePacket
  | .reader (.received packet) => some packet
  | _ => none

/-- Written from the message channel. -/
def writtenMsg : Event → Option VariablePacket
  | .writer (.msgWritten packet) => some packet
  | _ => none

/-- Written from the outgoing channel. -/
def writtenOutgoing : Event → Option VariablePacket
  | .writer (.outgoingWritten outgoing) => some outgoing.packet
  | _ => none

/-- Put in the outgoing channel. -/
def enqueuedPacket : Event → Option VariablePacket
  | .call (.enqueued _ packet) => some packet
  | .keepAlive .pinged => some .pingreq
  | _ => none

/-- The responses to the packets received, cut off at the first that ends the
read loop. -/
def owedResponses (h : Lts.History System Event) : List VariablePacket :=
  ((onConnection receivedPacket h).takeWhile keepsReading).filterMap response

/-- The event begins a connection. -/
def opens : Event → Bool
  | .connect (.accepted ..) => true
  | _ => false

theorem onConnection_opens {α : Type} {f : Event → Option α} (ha : opens e) :
    onConnection f ((s, e) :: h) = [] := by
  cases e with
  | connect e =>
    cases e with
    | accepted caller t sp => rfl
    | _ => cases ha
  | _ e => cases ha

theorem onConnection_cons {α : Type} {f : Event → Option α} (ha : ¬ opens e) :
    onConnection f ((s, e) :: h) = onConnection f h ++ (f e).toList := by
  cases e with
  | connect e =>
    cases e with
    | accepted caller t sp => exact absurd rfl ha
    | _ => rfl
  | _ e => rfl

theorem onConnection_same {α : Type} {f : Event → Option α} (ha : ¬ opens e) (hf : f e = none) :
    onConnection f ((s, e) :: h) = onConnection f h := by
  rw [onConnection_cons ha, hf]
  exact List.append_nil _

theorem conn_opens (hs : step codec options s e = some s') (ha : opens e) : s'.conn = {} := by
  rw [conn_step hs]
  cases e with
  | connect e =>
    cases e with
    | accepted caller t sp => rfl
    | _ => cases ha
  | _ e => cases ha

theorem owedResponses_opens (ha : opens e) : owedResponses ((s, e) :: h) = [] := by
  rw [owedResponses, onConnection_opens ha]
  rfl

theorem owedResponses_same (ha : ¬ opens e) (hf : receivedPacket e = none) :
    owedResponses ((s, e) :: h) = owedResponses h := by
  rw [owedResponses, onConnection_same ha hf]
  rfl

/-- While the read loop reads, each packet it receives adds its response. -/
theorem owedResponses_received (hk : ∀ packet ∈ onConnection receivedPacket h, keepsReading packet) :
    owedResponses ((s, received packet) :: h) = owedResponses h ++ (response packet).toList := by
  have hall : (onConnection receivedPacket h).takeWhile keepsReading =
      onConnection receivedPacket h := List.takeWhile_eq_self_iff.mpr hk
  have hcons : onConnection receivedPacket ((s, received packet) :: h) =
      onConnection receivedPacket h ++ [packet] := rfl
  rw [owedResponses, hcons, List.takeWhile_append_of_pos hk, List.filterMap_append, owedResponses,
    hall]
  cases hp : keepsReading packet with
  | true => cases hr : response packet <;> simp [List.takeWhile, hp, hr]
  | false =>
    have hr : response packet = none := by
      cases packet <;> first | rfl | cases hp
    simp [List.takeWhile, hp, hr]

-- ---------------------------------------------------------------------------
-- The message channel
-- ---------------------------------------------------------------------------

structure Answering (h : Lts.History System Event) (s : System) : Prop where
  reading : s.conn.reader ≠ .ended → ∀ packet ∈ onConnection receivedPacket h, keepsReading packet
  accounted : s.conn.writer ≠ .ended → onConnection writtenMsg h ++ s.conn.responses = owedResponses h
  written : onConnection writtenMsg h <+: owedResponses h

theorem answering_init : Answering [] init where
  reading h := absurd rfl h
  accounted h := absurd rfl h
  written := List.nil_prefix

theorem answering_opens (hs : step codec options s e = some s') (ha : opens e) :
    Answering ((s, e) :: h) s' where
  reading _ := by
    rw [onConnection_opens ha]
    intro packet hp
    cases hp
  accounted _ := by
    rw [onConnection_opens ha, owedResponses_opens ha, conn_opens hs ha]
    rfl
  written := by
    rw [onConnection_opens ha]
    exact List.nil_prefix

/-- An event that receives nothing and writes no response, and moves the
responses on their way at most. -/
theorem Answering.kept (hw : Answering h s) (ha : ¬ opens e) (hr : receivedPacket e = none)
    (hm : writtenMsg e = none) (hreader : s.conn.reader = .ended → s'.conn.reader = .ended)
    (hwriter : s'.conn.writer ≠ .ended →
      s.conn.writer ≠ .ended ∧ s'.conn.responses = s.conn.responses) :
    Answering ((s, e) :: h) s' where
  reading hne := by
    rw [onConnection_same ha hr]
    exact hw.reading fun h => hne (hreader h)
  accounted hne := by
    rw [onConnection_same ha hm, owedResponses_same ha hr, (hwriter hne).2]
    exact hw.accounted (hwriter hne).1
  written := by
    rw [onConnection_same ha hm, owedResponses_same ha hr]
    exact hw.written

theorem Answering.received_step (hw : Answering h s)
    (hs : step codec options s (received packet) = some s') :
    Answering ((s, received packet) :: h) s' := by
  have hconn := conn_step hs
  simp only [step, stepReader, when_eq_some] at hs
  obtain ⟨hread, _⟩ := hs
  have hne : s.conn.reader ≠ .ended := by simp [hread]
  have hans : owedResponses ((s, received packet) :: h) =
    owedResponses h ++ (response packet).toList := owedResponses_received (hw.reading hne)
  have hm : onConnection writtenMsg ((s, received packet) :: h) = onConnection writtenMsg h :=
    List.append_nil _
  have hnext := readFromServer_next packet s.state
  refine ⟨fun hend p hp => ?_, fun hwr => ?_, ?_⟩
  · rcases List.mem_append.mp hp with hp | hp
    · exact hw.reading hne p hp
    · -- the loop would have ended after any other packet
      rw [Option.mem_toList] at hp
      cases hp
      by_contra hkeep
      have hresp : response packet = none := by
        cases packet <;> first | rfl | exact absurd rfl hkeep
      rw [hconn] at hend
      simp [connAfter, hnext, hresp, hkeep] at hend
  · have hsent : s.conn.writer ≠ .ended := by rwa [hconn] at hwr
    have hold := hw.accounted hsent
    have hon : s'.conn.responses = s.conn.responses ++ (response packet).toList := by
      rw [hconn]
      simp only [connAfter, Connection.responses, hread, hnext, Reader.responses, List.append_nil]
      cases response packet with
      | some resp => rfl
      | none => cases keepsReading packet <;> rfl
    rw [hm, hans, hon, ← List.append_assoc, hold]
  · rw [hm, hans]
    exact hw.written.trans (List.prefix_append _ _)

theorem Answering.written_step (hw : Answering h s)
    (hs : step codec options s (.writer (.msgWritten packet)) = some s') :
    Answering ((s, .writer (.msgWritten packet)) :: h) s' := by
  have hconn := conn_step hs
  simp only [step, stepWriter, when_eq_some] at hs
  obtain ⟨hwr, _⟩ := hs
  have hm : onConnection writtenMsg ((s, .writer (.msgWritten packet)) :: h) =
    onConnection writtenMsg h ++ [packet] := rfl
  have hans : owedResponses ((s, .writer (.msgWritten packet)) :: h) = owedResponses h :=
    owedResponses_same (by simp [opens]) rfl
  have hold := hw.accounted (by simp [hwr])
  have hon : s.conn.responses = packet :: s'.conn.responses := by
    rw [hconn]
    simp [connAfter, Connection.responses, hwr, Writer.responses]
  rw [hon] at hold
  refine ⟨fun hend p hp => ?_, fun _ => ?_, ?_⟩
  · refine hw.reading ?_ p ?_
    · rwa [hconn] at hend
    · rwa [onConnection_same (by simp [opens]) rfl] at hp
  · rw [hm, hans, ← hold, List.append_assoc]
    rfl
  · rw [hm, hans, ← hold]
    exact ⟨s'.conn.responses, by rw [List.append_assoc]; rfl⟩

theorem answering_step (hw : Answering h s) (hs : step codec options s e = some s') :
    Answering ((s, e) :: h) s' := by
  have hconn := conn_step hs
  have hsame (ha : ¬ opens e) (hr : receivedPacket e = none) (hm : writtenMsg e = none)
      (hreader : (connAfter options s e).reader = s.conn.reader)
      (hwriter : (connAfter options s e).writer = s.conn.writer)
      (hmsg : (connAfter options s e).msg = s.conn.msg) : Answering ((s, e) :: h) s' := by
    refine hw.kept ha hr hm (fun h => ?_) (fun h => ⟨?_, ?_⟩)
    · rw [hconn, hreader, h]
    · rwa [hconn, hwriter] at h
    · rw [Connection.responses, hconn, hreader, hwriter, hmsg]
      rfl
  cases e with
  | connect e =>
    cases e with
    | accepted caller t sp => exact answering_opens hs rfl
    | _ => exact hsame (by simp [opens]) rfl rfl rfl rfl rfl
  | reader e =>
    cases e with
    | received packet => exact hw.received_step hs
    | responded resp =>
      simp only [step, stepReader, when_eq_some] at hs
      obtain ⟨⟨hr, hwr, _⟩, _⟩ := hs
      refine hw.kept (by simp [opens]) rfl rfl (by simp [hr]) fun _ => ⟨hwr, ?_⟩
      rw [hconn]
      simp [connAfter, Connection.responses, hr, Reader.responses]
    | respondFailed resp =>
      simp only [step, stepReader, when_eq_some] at hs
      refine hw.kept (by simp [opens]) rfl rfl (fun _ => by rw [hconn]; rfl) fun h => ?_
      rw [hconn] at h
      exact absurd hs.1.2 h
    | streamEnded =>
      simp only [step, stepReader, when_eq_some] at hs
      refine hw.kept (by simp [opens]) rfl rfl (fun _ => by rw [hconn]; rfl) fun h => ?_
      rw [hconn] at h
      refine ⟨h, ?_⟩
      rw [hconn]
      simp [connAfter, Connection.responses, hs.1, Reader.responses]
  | writer e =>
    cases e with
    | msgTaken packet =>
      simp only [step, stepWriter, when_eq_some] at hs
      obtain ⟨⟨hwr, hhead⟩, _⟩ := hs
      refine hw.kept (by simp [opens]) rfl rfl (fun h => by rw [hconn]; exact h)
        fun _ => ⟨by simp [hwr], ?_⟩
      obtain ⟨rest, hq⟩ := List.head?_eq_some_iff.mp hhead
      rw [hconn]
      simp [connAfter, Connection.responses, hwr, hq, Writer.responses]
    | outgoingTaken o =>
      simp only [step, stepWriter, when_eq_some] at hs
      obtain ⟨⟨hwr, _⟩, _⟩ := hs
      refine hw.kept (by simp [opens]) rfl rfl (fun h => by rw [hconn]; exact h)
        fun _ => ⟨by simp [hwr], ?_⟩
      rw [hconn]
      simp [connAfter, Connection.responses, hwr, Writer.responses]
    | msgWritten packet => exact hw.written_step hs
    | outgoingWritten o =>
      simp only [step, stepWriter, when_eq_some] at hs
      obtain ⟨hwr, _⟩ := hs
      refine hw.kept (by simp [opens]) rfl rfl (fun h => by rw [hconn]; exact h)
        fun _ => ⟨by simp [hwr], ?_⟩
      rw [hconn]
      simp [connAfter, Connection.responses, hwr, Writer.responses]
    | msgFailed packet | outgoingFailed o err | msgClosed =>
      exact hw.kept (by simp [opens]) rfl rfl (fun h => by rw [hconn]; exact h)
        fun h => absurd (by rw [hconn]; rfl) h
  | call e | keepAlive e | supervisor e =>
    cases e <;> exact hsame (by simp [opens]) rfl rfl rfl rfl rfl
  | block e | runtime e => exact hsame (by simp [opens]) rfl rfl rfl rfl rfl

theorem answering_run (hr : Run codec options guard h s) : Answering h s :=
  hr.invariant (P := fun h s => Answering h s) answering_init fun _ hw _ hs => answering_step hw hs

/-- What is queued in the message channel is a response. -/
theorem Answering.response_of_mem (hw : Answering h s) (hne : s.conn.writer ≠ .ended)
    (hp : resp ∈ s.conn.msg) : ∃ packet, response packet = some resp := by
  have hmem : resp ∈ owedResponses h := by
    rw [← hw.accounted hne]
    exact List.mem_append_right _ (List.mem_append_left _ (List.mem_append_right _ hp))
  obtain ⟨packet, _, hr⟩ := List.mem_filterMap.mp hmem
  exact ⟨packet, hr⟩

-- ---------------------------------------------------------------------------
-- The outgoing channel
-- ---------------------------------------------------------------------------

structure Enqueuing (h : Lts.History System Event) (s : System) : Prop where
  accounted : s.conn.writer ≠ .ended →
    onConnection writtenOutgoing h ++ s.conn.requests = onConnection enqueuedPacket h
  written : onConnection writtenOutgoing h <+: onConnection enqueuedPacket h

theorem enqueuing_init : Enqueuing [] init where
  accounted h := absurd rfl h
  written := List.nil_prefix

theorem enqueuing_opens (hs : step codec options s e = some s') (ha : opens e) :
    Enqueuing ((s, e) :: h) s' where
  accounted _ := by
    rw [onConnection_opens ha, onConnection_opens ha, conn_opens hs ha]
    rfl
  written := by
    rw [onConnection_opens ha]
    exact List.nil_prefix

/-- An event that puts a packet in the channel, or none. -/
theorem Enqueuing.enqueued (hq : Enqueuing h s) (ha : ¬ opens e) (hw : writtenOutgoing e = none)
    (hwriter : s'.conn.writer ≠ .ended → s.conn.writer ≠ .ended ∧
      s'.conn.requests = s.conn.requests ++ (enqueuedPacket e).toList) :
    Enqueuing ((s, e) :: h) s' where
  accounted hne := by
    rw [onConnection_same ha hw, onConnection_cons ha, (hwriter hne).2, ← List.append_assoc,
      hq.accounted (hwriter hne).1]
  written := by
    rw [onConnection_same ha hw, onConnection_cons ha]
    exact hq.written.trans (List.prefix_append _ _)

theorem Enqueuing.written_step (hq : Enqueuing h s)
    (hs : step codec options s (.writer (.outgoingWritten o)) = some s') :
    Enqueuing ((s, .writer (.outgoingWritten o)) :: h) s' := by
  have hconn := conn_step hs
  simp only [step, stepWriter, when_eq_some] at hs
  obtain ⟨hwr, _⟩ := hs
  have hw : onConnection writtenOutgoing ((s, .writer (.outgoingWritten o)) :: h) =
    onConnection writtenOutgoing h ++ [o.packet] := rfl
  have hin : onConnection enqueuedPacket ((s, .writer (.outgoingWritten o)) :: h) =
    onConnection enqueuedPacket h := onConnection_same (by simp [opens]) rfl
  have hold := hq.accounted (by simp [hwr])
  have hon : s.conn.requests = o.packet :: s'.conn.requests := by
    rw [hconn]
    simp [connAfter, Connection.requests, hwr, Writer.outgoing]
  rw [hon] at hold
  refine ⟨fun _ => ?_, ?_⟩
  · rw [hw, hin, ← hold, List.append_assoc]
    rfl
  · rw [hw, hin, ← hold]
    exact ⟨s'.conn.requests, by rw [List.append_assoc]; rfl⟩

theorem enqueuing_step (hq : Enqueuing h s) (hs : step codec options s e = some s') :
    Enqueuing ((s, e) :: h) s' := by
  have hconn := conn_step hs
  have hsame (ha : ¬ opens e) (hw : writtenOutgoing e = none) (hin : enqueuedPacket e = none)
      (hwriter : (connAfter options s e).writer = s.conn.writer)
      (hout : (connAfter options s e).outgoing = s.conn.outgoing) : Enqueuing ((s, e) :: h) s' := by
    refine hq.enqueued ha hw fun h => ⟨?_, ?_⟩
    · rwa [hconn, hwriter] at h
    · rw [Connection.requests, hconn, hwriter, hout, hin]
      exact (List.append_nil _).symm
  cases e with
  | connect e =>
    cases e with
    | accepted caller t sp => exact enqueuing_opens hs rfl
    | _ => exact hsame (by simp [opens]) rfl rfl rfl rfl
  | call e =>
    cases e with
    | enqueued frame packet =>
      simp only [step, stepCall, when_eq_some] at hs
      refine hq.enqueued (by simp [opens]) rfl fun _ => ⟨hs.1.2.1, ?_⟩
      rw [hconn]
      simp [connAfter, Connection.requests, enqueuedPacket]
    | _ => exact hsame (by simp [opens]) rfl rfl rfl rfl
  | keepAlive e =>
    cases e with
    | pinged =>
      simp only [step, stepKeepAlive, when_eq_some] at hs
      refine hq.enqueued (by simp [opens]) rfl fun _ => ⟨hs.1.2.1, ?_⟩
      rw [hconn]
      simp [connAfter, Connection.requests, enqueuedPacket]
    | _ => exact hsame (by simp [opens]) rfl rfl rfl rfl
  | writer e =>
    cases e with
    | msgTaken packet =>
      simp only [step, stepWriter, when_eq_some] at hs
      obtain ⟨⟨hwr, _⟩, _⟩ := hs
      refine hq.enqueued (by simp [opens]) rfl fun _ => ⟨by simp [hwr], ?_⟩
      rw [hconn]
      simp [connAfter, Connection.requests, hwr, Writer.outgoing, enqueuedPacket]
    | outgoingTaken o =>
      simp only [step, stepWriter, when_eq_some] at hs
      obtain ⟨⟨hwr, hhead⟩, _⟩ := hs
      obtain ⟨rest, hrest⟩ := List.head?_eq_some_iff.mp hhead
      refine hq.enqueued (by simp [opens]) rfl fun _ => ⟨by simp [hwr], ?_⟩
      rw [hconn]
      simp [connAfter, Connection.requests, hwr, hrest, Writer.outgoing, enqueuedPacket]
    | msgWritten packet =>
      simp only [step, stepWriter, when_eq_some] at hs
      obtain ⟨hwr, _⟩ := hs
      refine hq.enqueued (by simp [opens]) rfl fun _ => ⟨by simp [hwr], ?_⟩
      rw [hconn]
      simp [connAfter, Connection.requests, hwr, Writer.outgoing, enqueuedPacket]
    | outgoingWritten o => exact hq.written_step hs
    | msgFailed packet | outgoingFailed o err | msgClosed =>
      exact hq.enqueued (by simp [opens]) rfl fun h => absurd (by rw [hconn]; rfl) h
  | reader e | supervisor e => cases e <;> exact hsame (by simp [opens]) rfl rfl rfl rfl
  | block e | runtime e => exact hsame (by simp [opens]) rfl rfl rfl rfl

-- ---------------------------------------------------------------------------
-- Runs
-- ---------------------------------------------------------------------------

/-- At every point of every run: on the current connection the responses
written are, in order and each once, those to the packets received, as far as
they have been written, and what was written from the outgoing channel is so
far what was put in it. -/
theorem answered_in_order (hr : Run codec options guard h s) :
    onConnection writtenMsg h <+:
        ((onConnection receivedPacket h).takeWhile keepsReading).filterMap response ∧
      onConnection writtenOutgoing h <+: onConnection enqueuedPacket h := by
  have hout : Enqueuing h s := hr.invariant (P := fun h s => Enqueuing h s) enqueuing_init
    fun _ hq _ hs => enqueuing_step hq hs
  exact ⟨(answering_run hr).written, hout.written⟩

/-- The read loop hands over a response, and the write loop writes it. -/
def answering (packet resp : VariablePacket) : List Event :=
  [.reader (.received packet), .reader (.responded resp), .writer (.msgTaken resp),
    .writer (.msgWritten resp)]

theorem answered_in_order_pubrec : ∃ h s, Run acceptingCodec .new Lts.anything h s ∧
    onConnection writtenMsg h = [.pubrel 7, .pubcomp 9] ∧
    onConnection writtenMsg h <+:
      ((onConnection receivedPacket h).takeWhile keepsReading).filterMap response := by
  obtain ⟨h, s, hr, ht⟩ := Lts.exists_run (step acceptingCodec .new) Lts.anything init
    (connecting none 0 false ++ connected none 0 false ++ answering (.pubrec 7) (.pubrel 7) ++
      [received (.puback 3)] ++ answering (.pubrel 9) (.pubcomp 9))
    (fun h _ => onConnection writtenMsg h = [.pubrel 7, .pubcomp 9]) (by decide +kernel)
  exact ⟨h, s, hr, of_decide_eq_true ht, (answered_in_order hr).1⟩

end System

end MesquitteClient
