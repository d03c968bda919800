import MesquitteClient.Responding

/-!
# The last packet of a connection

The write loop goes on after it has written a DISCONNECT: what is queued
behind it, and what calls, `keep_alive` and the read loop put in the channels
while the server has not closed the connection yet, is written too
(`publish_after_disconnect`). A DISCONNECT is the last packet when nothing is
queued behind it and nothing comes after it (`disconnect_last`).
-/

namespace MesquitteClient

/-- What the write loop is writing. -/
def Writer.packet : Writer → Option VariablePacket
  | .writingMsg packet => some packet
  | .writingOutgoing outgoing => some outgoing.packet
  | _ => none

namespace System

variable {codec : Codec} {options : ClientOptions} {s s' : System} {e : Event}
variable {h : Lts.History System Event}

def takenPacket : Event → Option VariablePacket
  | .writer (.msgTaken packet) => some packet
  | .writer (.outgoingTaken outgoing) => some outgoing.packet
  | _ => none

def writtenPacket : Event → Option VariablePacket
  | .writer (.msgWritten packet) => some packet
  | .writer (.outgoingWritten outgoing) => some outgoing.packet
  | _ => none

/-- The write loop has taken a DISCONNECT on this connection. -/
def disconnectTaken (h : Lts.History System Event) : Bool :=
  .disconnect ∈ onConnection takenPacket h

/-- Nothing else is queued when the write loop takes a DISCONNECT, and nothing
is put in the channels of the connection from then on. -/
def quietAfterDisconnect : Lts.Guard System Event := fun h s e =>
  match e with
  | .writer (.outgoingTaken outgoing) =>
    outgoing.packet ≠ .disconnect || (s.conn.msg.isEmpty && s.conn.outgoing.tail.isEmpty)
  | .call (.enqueued ..) | .keepAlive .pinged | .reader (.responded _) => !disconnectTaken h
  | _ => true

structure Quiet (h : Lts.History System Event) (s : System) : Prop where
  taken : packet ∈ onConnection writtenPacket h → packet ∈ onConnection takenPacket h
  writing : s.conn.writer.packet = some packet →
    packet ∈ onConnection takenPacket h ∧ .disconnect ∉ onConnection writtenPacket h
  drained : disconnectTaken h → s.conn.msg = [] ∧ s.conn.outgoing = []
  last : onConnection writtenPacket h = before ++ .disconnect :: after → after = []

theorem quiet_init : Quiet [] init where
  taken h := by cases h
  writing h := by cases h
  drained h := by cases h
  last h := by simp [onConnection] at h

theorem quiet_opens (hs : step codec options s e = some s') (ha : opens e) :
    Quiet ((s, e) :: h) s' where
  taken hp := by
    rw [onConnection_opens ha] at hp
    cases hp
  writing hp := by
    rw [conn_opens hs ha] at hp
    cases hp
  drained hp := by
    rw [disconnectTaken, onConnection_opens ha] at hp
    cases hp
  last hp := by
    rw [onConnection_opens ha] at hp
    simp at hp

/-- An event that neither takes nor writes a packet. -/
theorem Quiet.kept (hq : Quiet h s) (ha : ¬ opens e) (ht : takenPacket e = none)
    (hw : writtenPacket e = none)
    (hwriter : ∀ packet, s'.conn.writer.packet = some packet → s.conn.writer.packet = some packet)
    (hdrained : disconnectTaken h → s.conn.msg = [] → s.conn.outgoing = [] →
      s'.conn.msg = [] ∧ s'.conn.outgoing = []) : Quiet ((s, e) :: h) s' where
  taken hp := by
    rw [onConnection_same ha hw] at hp
    rw [onConnection_same ha ht]
    exact hq.taken hp
  writing hp := by
    rw [onConnection_same ha ht, onConnection_same ha hw]
    exact hq.writing (hwriter _ hp)
  drained hp := by
    rw [disconnectTaken, onConnection_same ha ht] at hp
    exact hdrained hp (hq.drained hp).1 (hq.drained hp).2
  last hp := by
    rw [onConnection_same ha hw] at hp
    exact hq.last hp

/-- The write loop takes a packet: it has not taken a DISCONNECT before, since
then nothing was queued. -/
theorem Quiet.takes (hq : Quiet h s) (ha : ¬ opens e) (ht : takenPacket e = some packet)
    (hw : writtenPacket e = none) (hwriter : s'.conn.writer.packet = some packet)
    (hqueued : ¬ (s.conn.msg = [] ∧ s.conn.outgoing = []))
    (hlast : packet = .disconnect → s'.conn.msg = [] ∧ s'.conn.outgoing = []) :
    Quiet ((s, e) :: h) s' := by
  have hnot : .disconnect ∉ onConnection takenPacket h :=
    fun hp => hqueued (hq.drained (decide_eq_true hp))
  have hcons : onConnection takenPacket ((s, e) :: h) = onConnection takenPacket h ++ [packet] := by
    rw [onConnection_cons ha, ht]
    rfl
  refine ⟨fun hp => ?_, fun hp => ?_, fun hp => ?_, fun hp => ?_⟩
  · rw [onConnection_same ha hw] at hp
    rw [hcons]
    exact List.mem_append_left _ (hq.taken hp)
  · rw [hwriter] at hp
    cases hp
    rw [hcons, onConnection_same ha hw]
    exact ⟨List.mem_append_right _ List.mem_cons_self, fun hd => hnot (hq.taken hd)⟩
  · refine hlast ?_
    rw [disconnectTaken, decide_eq_true_eq, hcons] at hp
    rcases List.mem_append.mp hp with hp | hp
    · exact absurd hp hnot
    · exact (List.mem_singleton.mp hp).symm
  · rw [onConnection_same ha hw] at hp
    exact hq.last hp

/-- The write loop has written a packet: it had not written a DISCONNECT. -/
theorem Quiet.writes (hq : Quiet h s) (ha : ¬ opens e) (ht : takenPacket e = none)
    (hw : writtenPacket e = some packet) (hwriter : s.conn.writer.packet = some packet)
    (hidle : s'.conn.writer.packet = none)
    (hmsg : s'.conn.msg = s.conn.msg) (hout : s'.conn.outgoing = s.conn.outgoing) :
    Quiet ((s, e) :: h) s' := by
  obtain ⟨htaken, hnot⟩ := hq.writing hwriter
  have hcons : onConnection writtenPacket ((s, e) :: h) =
      onConnection writtenPacket h ++ [packet] := by
    rw [onConnection_cons ha, hw]
    rfl
  refine ⟨fun hp => ?_, fun hp => ?_, fun hp => ?_, fun {before after} hp => ?_⟩
  · rw [onConnection_same ha ht]
    rw [hcons] at hp
    rcases List.mem_append.mp hp with hp | hp
    · exact hq.taken hp
    · rw [List.mem_singleton.mp hp]
      exact htaken
  · rw [hidle] at hp
    cases hp
  · rw [disconnectTaken, onConnection_same ha ht] at hp
    rw [hmsg, hout]
    exact hq.drained hp
  · rw [hcons] at hp
    rcases List.eq_nil_or_concat' after with rfl | ⟨rest, last, rfl⟩
    · rfl
    · -- the DISCONNECT would be among those written before
      rw [← List.cons_append, ← List.append_assoc] at hp
      have hold := (List.append_inj' hp rfl).1
      rw [hold] at hnot
      exact absurd (List.mem_append_right _ List.mem_cons_self) hnot

theorem response_ne_disconnect (packet : VariablePacket) : response packet ≠ some .disconnect := by
  cases packet with
  | publish packet =>
    obtain ⟨topic, qos, payload, dup, retain⟩ := packet
    cases qos <;> simp [response]
  | _ => simp [response]

theorem quiet_step (hq : Quiet h s) (hans : Answering h s) (hg : quietAfterDisconnect h s e)
    (hs : step codec options s e = some s') : Quiet ((s, e) :: h) s' := by
  have hconn := conn_step hs
  have hsame (ha : ¬ opens e) (ht : takenPacket e = none) (hw : writtenPacket e = none)
      (hwriter : (connAfter options s e).writer = s.conn.writer)
      (hmsg : (connAfter options s e).msg = s.conn.msg)
      (hout : (connAfter options s e).outgoing = s.conn.outgoing) : Quiet ((s, e) :: h) s' := by
    refine hq.kept ha ht hw (fun packet hp => ?_) fun _ h0 h1 => ?_
    · rwa [hconn, hwriter] at hp
    · rw [hconn, hmsg, hout]
      exact ⟨h0, h1⟩
  -- nothing is put in a channel after a DISCONNECT has been taken
  have hput (ha : ¬ opens e) (ht : takenPacket e = none) (hw : writtenPacket e = none)
      (hwriter : (connAfter options s e).writer = s.conn.writer)
      (hnot : (!disconnectTaken h) = true) : Quiet ((s, e) :: h) s' := by
    refine hq.kept ha ht hw (fun packet hp => ?_) fun hd => ?_
    · rwa [hconn, hwriter] at hp
    · rw [hd] at hnot
      cases hnot
  cases e with
  | connect e =>
    cases e with
    | accepted caller t sp => exact quiet_opens hs rfl
    | _ => exact hsame (by simp [opens]) rfl rfl rfl rfl rfl
  | call e =>
    cases e with
    | enqueued frame packet => exact hput (by simp [opens]) rfl rfl rfl hg
    | _ => exact hsame (by simp [opens]) rfl rfl rfl rfl rfl
  | keepAlive e =>
    cases e with
    | pinged => exact hput (by simp [opens]) rfl rfl rfl hg
    | _ => exact hsame (by simp [opens]) rfl rfl rfl rfl rfl
  | reader e =>
    cases e with
    | responded resp => exact hput (by simp [opens]) rfl rfl rfl hg
    | _ => exact hsame (by simp [opens]) rfl rfl rfl rfl rfl
  | writer e =>
    cases e with
    | msgTaken packet =>
      simp only [step, stepWriter, when_eq_some] at hs
      obtain ⟨⟨hwr, hhead⟩, _⟩ := hs
      refine hq.takes (by simp [opens]) rfl rfl (by rw [hconn]; rfl) (fun hnil => ?_) fun hd => ?_
      · rw [hnil.1] at hhead
        cases hhead
      · obtain ⟨p, hp⟩ := hans.response_of_mem (by simp [hwr]) (List.mem_of_mem_head? hhead)
        exact absurd (hd ▸ hp) (response_ne_disconnect p)
    | outgoingTaken o =>
      simp only [step, stepWriter, when_eq_some] at hs
      obtain ⟨⟨_, hhead⟩, _⟩ := hs
      refine hq.takes (by simp [opens]) rfl rfl (by rw [hconn]; rfl) (fun hnil => ?_) fun hd => ?_
      · rw [hnil.2] at hhead
        cases hhead
      · rw [hconn]
        simpa [quietAfterDisconnect, hd, connAfter] using hg
    | msgWritten packet =>
      simp only [step, stepWriter, when_eq_some] at hs
      exact hq.writes (by simp [opens]) rfl rfl (by rw [hs.1]; rfl) (by rw [hconn]; rfl)
        (by rw [hconn]; rfl) (by rw [hconn]; rfl)
    | outgoingWritten o =>
      simp only [step, stepWriter, when_eq_some] at hs
      exact hq.writes (by simp [opens]) rfl rfl (by rw [hs.1]; rfl) (by rw [hconn]; rfl)
        (by rw [hconn]; rfl) (by rw [hconn]; rfl)
    | msgFailed packet | outgoingFailed o err | msgClosed =>
      refine hq.kept (by simp [opens]) rfl rfl (fun packet hp => ?_) fun _ _ _ => ?_
      · rw [hconn] at hp
        cases hp
      · rw [hconn]
        exact ⟨rfl, rfl⟩
  | supervisor e => cases e <;> exact hsame (by simp [opens]) rfl rfl rfl rfl rfl
  | block e | runtime e => exact hsame (by simp [opens]) rfl rfl rfl rfl rfl

/-- Under `quietAfterDisconnect`, nothing is written on a connection after a
DISCONNECT. -/
theorem disconnect_last (hr : Run codec options quietAfterDisconnect h s)
    (hd : onConnection writtenPacket h = before ++ .disconnect :: after) : after = [] := by
  have hq : Quiet h s := hr.invariant (P := fun h s => Quiet h s) quiet_init
    fun hr hq hg hs => quiet_step hq (answering_run hr) hg hs
  exact hq.last hd

def disconnecting (token : TokenId) : List Event :=
  let frame : Frame := ⟨none, .disconnect, token⟩
  [.call (.accepted none .disconnect), .call (.built frame none .disconnect),
    .call (.enqueued frame .disconnect), .call (.returned frame)]

theorem disconnect_last_alone : ∃ h s, Run acceptingCodec .new quietAfterDisconnect h s ∧
    onConnection writtenPacket h = [.pubcomp 9, .disconnect] ∧
    ∀ after, onConnection writtenPacket h = [.pubcomp 9] ++ .disconnect :: after → after = [] := by
  obtain ⟨h, s, hr, ht⟩ := Lts.exists_run (step acceptingCodec .new) quietAfterDisconnect init
    (connecting none 0 false ++ connected none 0 false ++ answering (.pubrel 9) (.pubcomp 9) ++
      disconnecting 1 ++ writing .disconnect 1)
    (fun h _ => onConnection writtenPacket h = [.pubcomp 9, .disconnect]) (by decide +kernel)
  exact ⟨h, s, hr, of_decide_eq_true ht, fun _ hd => disconnect_last hr hd⟩

/-- A publish call after `disconnect`: the write loop writes both packets. -/
theorem publish_after_disconnect : ¬ ∀ h s, Run acceptingCodec .new Lts.anything h s →
    ∀ before after, onConnection writtenPacket h = before ++ .disconnect :: after → after = [] := by
  let packet : VariablePacket := .publish { topicName := "a", qos := .level0, payload := [] }
  let frame : Frame := ⟨none, .publish "a" .level0 false [], 2⟩
  obtain ⟨h, s, hr, ht⟩ := Lts.exists_run (step acceptingCodec .new) Lts.anything init
    (connecting none 0 false ++ connected none 0 false ++ disconnecting 1 ++ writing .disconnect 1 ++
      [.call (.accepted none frame.call), .call (.built frame none packet),
        .call (.enqueued frame packet)] ++ writing packet 2)
    (fun h _ => onConnection writtenPacket h = [] ++ .disconnect :: [packet]) (by decide +kernel)
  intro hall
  cases hall h s hr [] [packet] (of_decide_eq_true ht)

end System

end MesquitteClient
