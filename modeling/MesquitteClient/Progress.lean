import MesquitteClient.ClientSteps
import MesquitteClient.Lib.Rest

/-!
# No call or loop waits for a channel for ever

A call waits for room in the outgoing channel, the read loop for room in the
message channel, the keep-alive loop for room in the outgoing channel again,
and the write loop makes the room. Whatever the order, and whether the writes
succeed or fail, these steps come to an end (`onward_ends`), and then the call
has returned and nobody waits for a channel (`rested`).
-/

namespace MesquitteClient

/-- How many steps a call may still take, the room it needs counted twice. -/
def Phase.rank (call : Call) : Phase → Nat
  | .registering => 6 + call.unsubscribes.length
  | .building _ topics => 5 + topics.length
  | .sending _ => 4
  | .sent => 1

def ClientTask.rank : ClientTask → Nat
  | .call frame phase => phase.rank frame.call
  | _ => 0

def Reader.rank : Reader → Nat
  | .responding _ => 3
  | _ => 0

def Writer.rank : Writer → Nat
  | .selecting => 1
  | .writingMsg _ | .writingOutgoing _ => 2
  | .ended => 0

def KeepAlive.rank : KeepAlive → Nat
  | .sending => 3
  | _ => 0

def Connection.rank (conn : Connection) : Nat :=
  2 * conn.outgoing.length + 2 * conn.msg.length + conn.reader.rank + conn.writer.rank +
    conn.keepAlive.rank

theorem ClientTask.rank_returned (frame : Frame) : (returned frame).rank = 0 := by
  rcases returned_cases frame with h | ⟨rest, h⟩ <;> rw [h] <;> rfl

theorem Connection.rank_writerEnds (conn : Connection) :
    conn.writerEnds.rank ≤ conn.rank - conn.writer.rank := by
  simp only [writerEnds, rank, Writer.rank, List.length_nil]
  omega

namespace System

variable {codec : Codec} {options : ClientOptions} {s s' : System} {e : Event}

/-- The steps of a call that has begun, of the write loop, and of the loops
that wait for a channel. -/
def onward : Event → Bool
  | .call (.accepted ..) | .call (.refused ..) => false
  | .call _ | .writer _ => true
  | .reader (.responded _) | .reader (.respondFailed _) => true
  | .keepAlive .pinged | .keepAlive .pingFailed => true
  | _ => false

def rank (s : System) : Nat := s.client.rank + s.conn.rank

theorem rank_call {e : CallEvent} (ho : onward (.call e))
    (hs : step codec options s (.call e) = some s') : rank s' < rank s := by
  rw [rank, rank, conn_step hs]
  cases e with
  | accepted job call | refused job call => cases ho
  | enqueued frame packet =>
    simp only [step, stepCall, when_eq_some] at hs
    obtain ⟨⟨hc, _⟩, rfl⟩ := hs
    simp only [hc, ClientTask.rank, Phase.rank, connAfter, Connection.rank, List.length_append,
      List.length_singleton]
    omega
  | sendFailed frame packet | returned frame =>
    simp only [step, stepCall, when_eq_some] at hs
    obtain ⟨hc, rfl⟩ := hs
    simp only [hc, ClientTask.rank_returned, connAfter]
    simp only [ClientTask.rank, Phase.rank]
    omega
  | exhausted frame | invalid frame pkid topics =>
    simp only [step, stepCall, when_eq_some] at hs
    obtain ⟨hc, rfl⟩ := hs
    simp only [hc, ClientTask.rank_returned, connAfter]
    simp only [ClientTask.rank, Phase.rank]
    omega
  | registered frame pkid | topicAdded frame pkid topic rest | built frame pkid packet =>
    simp only [step, stepCall, when_eq_some] at hs
    obtain ⟨hc, rfl⟩ := hs
    simp only [hc, ClientTask.rank, Phase.rank, connAfter, List.length_cons, List.length_nil]
    omega

theorem rank_writer {e : WriterEvent} (hs : step codec options s (.writer e) = some s') :
    rank s' < rank s := by
  rw [rank, rank, client_step hs rfl, conn_step hs]
  have hends := s.conn.rank_writerEnds
  cases e with
  | msgTaken packet | outgoingTaken packet =>
    simp only [step, stepWriter, when_eq_some] at hs
    obtain ⟨rest, hrest⟩ := List.head?_eq_some_iff.mp hs.1.2
    simp only [connAfter, Connection.rank, Writer.rank, hs.1.1, hrest, List.tail_cons,
      List.length_cons]
    omega
  | msgWritten packet | outgoingWritten packet =>
    simp only [step, stepWriter, when_eq_some] at hs
    simp only [connAfter, Connection.rank, Writer.rank, hs.1]
    omega
  | msgFailed packet | outgoingFailed packet err =>
    simp only [step, stepWriter, when_eq_some] at hs
    have hle : s.conn.writer.rank ≤ s.conn.rank := by
      simp only [Connection.rank]
      omega
    simp only [connAfter, hs.1, Writer.rank] at hends hle ⊢
    omega
  | msgClosed =>
    simp only [step, stepWriter, when_eq_some] at hs
    have hle : s.conn.writer.rank ≤ s.conn.rank := by
      simp only [Connection.rank]
      omega
    simp only [connAfter, hs.1.1, Writer.rank] at hends hle ⊢
    omega

/-- Each of these steps lowers the rank. -/
theorem rank_onward (ho : onward e) (hs : step codec options s e = some s') : rank s' < rank s := by
  cases e with
  | call e => exact rank_call ho hs
  | writer e => exact rank_writer hs
  | reader e =>
    rw [rank, rank, client_step hs rfl, conn_step hs]
    cases e with
    | received packet | streamEnded => cases ho
    | responded resp | respondFailed resp =>
      simp only [step, stepReader, when_eq_some] at hs
      simp only [connAfter, Connection.rank, Reader.rank, hs.1.1, List.length_append,
        List.length_singleton]
      omega
  | keepAlive e =>
    rw [rank, rank, client_step hs rfl, conn_step hs]
    cases e with
    | checked | sleep | sleepUntil remaining | woke wake => cases ho
    | pinged | pingFailed =>
      simp only [step, stepKeepAlive, when_eq_some] at hs
      simp only [connAfter, Connection.rank, KeepAlive.rank, hs.1.1, List.length_append,
        List.length_singleton]
      omega
  | connect e | block e | supervisor e | runtime e => cases ho

-- ---------------------------------------------------------------------------
-- At rest
-- ---------------------------------------------------------------------------

/-- Nobody waits for a channel, and no call has begun. -/
structure Rested (s : System) : Prop where
  client : s.client ≠ .call frame phase
  reader : s.conn.reader ≠ .responding resp
  keepAlive : s.conn.keepAlive ≠ .sending
  writer : s.conn.writer = .ended ∨
    s.conn.writer = .selecting ∧ s.conn.outgoing = [] ∧ s.conn.msg = [] ∧ s.conn.reader ≠ .ended

variable (hrest : Lts.AtRest (step codec options) onward s)
include hrest

theorem writer_rested : s.conn.writer = .ended ∨
    s.conn.writer = .selecting ∧ s.conn.outgoing = [] ∧ s.conn.msg = [] ∧
      s.conn.reader ≠ .ended := by
  cases hw : s.conn.writer with
  | ended => exact .inl rfl
  | writingMsg packet =>
    exact absurd (if_pos hw) (hrest.not_step (e := .writer (.msgWritten packet)) rfl)
  | writingOutgoing o =>
    exact absurd (if_pos hw) (hrest.not_step (e := .writer (.outgoingWritten o)) rfl)
  | selecting =>
    have hout : s.conn.outgoing = [] := by
      cases ho : s.conn.outgoing with
      | nil => rfl
      | cons o rest =>
        exact absurd (if_pos ⟨hw, by rw [ho]; rfl⟩)
          (hrest.not_step (e := .writer (.outgoingTaken o)) rfl)
    have hmsg : s.conn.msg = [] := by
      cases hm : s.conn.msg with
      | nil => rfl
      | cons packet rest =>
        exact absurd (if_pos ⟨hw, by rw [hm]; rfl⟩)
          (hrest.not_step (e := .writer (.msgTaken packet)) rfl)
    refine .inr ⟨rfl, hout, hmsg, fun hr => ?_⟩
    exact absurd (if_pos ⟨hw, hmsg, hr⟩) (hrest.not_step (e := .writer .msgClosed) rfl)

theorem client_rested : s.client ≠ .call frame phase := by
  intro hc
  cases phase with
  | registering =>
    by_cases hid : (s.state.packetIds.getId frame.token).2 = 0
    · exact absurd (if_pos ⟨hc, hid⟩) (hrest.not_step (e := .call (.exhausted frame)) rfl)
    · exact absurd (if_pos ⟨hc, rfl, hid⟩) (hrest.not_step (e := .call (.registered frame _)) rfl)
  | building pkid topics =>
    cases topics with
    | nil =>
      cases hp : frame.call.packet codec pkid with
      | none =>
        exact absurd (if_pos ⟨hc, by rw [Call.stops, hp]; rfl⟩)
          (hrest.not_step (e := .call (.invalid frame pkid [])) rfl)
      | some packet =>
        exact absurd (if_pos ⟨hc, hp⟩) (hrest.not_step (e := .call (.built frame pkid packet)) rfl)
    | cons topic rest =>
      by_cases ht : codec.topicFilter topic
      · exact absurd (if_pos ⟨hc, ht⟩)
          (hrest.not_step (e := .call (.topicAdded frame pkid topic rest)) rfl)
      · exact absurd (if_pos ⟨hc, by simp [Call.stops, ht]⟩)
          (hrest.not_step (e := .call (.invalid frame pkid (topic :: rest))) rfl)
  | sending packet =>
    rcases writer_rested hrest with hw | ⟨hw, hout, _⟩
    · exact absurd (if_pos ⟨hc, hw⟩) (hrest.not_step (e := .call (.sendFailed frame packet)) rfl)
    · exact absurd (if_pos ⟨hc, by simp [hw], by rw [hout]; decide⟩)
        (hrest.not_step (e := .call (.enqueued frame packet)) rfl)
  | sent => exact absurd (if_pos hc) (hrest.not_step (e := .call (.returned frame)) rfl)

theorem rested : Rested s where
  client := client_rested hrest
  reader {resp} hr := by
    rcases writer_rested hrest with hw | ⟨hw, _, hmsg, _⟩
    · exact absurd (if_pos ⟨hr, hw⟩) (hrest.not_step (e := .reader (.respondFailed resp)) rfl)
    · exact absurd (if_pos ⟨hr, by simp [hw], by rw [hmsg]; decide⟩)
        (hrest.not_step (e := .reader (.responded resp)) rfl)
  keepAlive hk := by
    rcases writer_rested hrest with hw | ⟨hw, hout, _⟩
    · exact absurd (if_pos ⟨hk, hw⟩) (hrest.not_step (e := .keepAlive .pingFailed) rfl)
    · exact absurd (if_pos ⟨hk, by simp [hw], by rw [hout]; decide⟩)
        (hrest.not_step (e := .keepAlive .pinged) rfl)
  writer := writer_rested hrest

omit hrest

/-- The running call goes on, or has returned. -/
theorem call_onward (hc : (∃ phase, s.client = .call frame phase) ∨ s.client = .returned frame)
    (ho : onward e) (hs : step codec options s e = some s') :
    (∃ phase, s'.client = .call frame phase) ∨ s'.client = .returned frame := by
  cases client_cases hs with
  | other _ hc' => exact hc' ▸ hc
  | calling frame' phase phase' _ h₀ hc' =>
    rcases hc with ⟨phase₁, hc⟩ | hc
    · cases h₀.symm.trans hc
      exact .inl ⟨_, hc'⟩
    · exact absurd (hc.symm.trans h₀) ClientTask.returned_ne_call
  | callReturned frame' phase _ h₀ hc' =>
    rcases hc with ⟨phase₁, hc⟩ | hc
    · cases h₀.symm.trans hc
      exact .inr hc'
    · exact absurd (hc.symm.trans h₀) ClientTask.returned_ne_call
  | accepted _ _ he | refused _ _ he | started _ he | opened _ _ he | acknowledged _ _ _ he
  | statusSet _ _ _ he | blockStarted he | slept _ he | notified _ he | reconnectFailed _ _ he
  | reconnected _ _ he | cleanedUp he | cloned he | cleared _ he | awaited _ _ he | done he =>
    rw [he] at ho
    cases ho
  | answered _ he | panicked _ _ he | blockReturned _ he =>
    rcases he with he | he <;> rw [he] at ho <;> cases ho
  | connectReturned _ _ _ he =>
    rcases he with ⟨_, he⟩ | ⟨_, he⟩ | ⟨_, he⟩ <;> rw [he] at ho <;> cases ho

/-- From every state: these steps come to an end, in whatever order they are
taken and whatever the writes give, and when none is left the call that was
running has returned and nobody waits for a channel. -/
theorem onward_ends (codec : Codec) (options : ClientOptions) (s : System) :
    (∀ n s', Lts.Steps (step codec options) onward n s s' → n ≤ rank s) ∧
    (∃ s', Lts.Reaches (step codec options) onward s s' ∧
      Lts.AtRest (step codec options) onward s') ∧
    ∀ s', Lts.Reaches (step codec options) onward s s' →
      Lts.AtRest (step codec options) onward s' →
      Rested s' ∧ ∀ frame phase, s.client = .call frame phase → s'.client = .returned frame := by
  refine ⟨fun n s' => Lts.steps_le_rank rank_onward, Lts.exists_rest rank_onward s,
    fun s' hr hrest => ⟨rested hrest, fun frame phase hc => ?_⟩⟩
  have hcall := hr.kept (P := fun s => (∃ phase, s.client = .call frame phase) ∨
    s.client = .returned frame) (.inl ⟨phase, hc⟩) call_onward
  rcases hcall with ⟨phase', hc'⟩ | hc'
  · exact absurd hc' (rested hrest).client
  · exact hc'

end System

end MesquitteClient
