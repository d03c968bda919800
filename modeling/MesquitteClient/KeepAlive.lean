import MesquitteClient.Disconnecting

/-!
# The keep-alive interval

CONNECT announces the interval in whole seconds, cut to 16 bits, while the
`keep_alive` loop compares the full duration with the time since the last
packet. The loop keeps what was announced exactly where the duration is a
number of seconds from 1 to 65535 (`keepsAnnounced_iff`).

The loop sleeps for what was left of the interval at its check, or for all of
it after a PINGREQ. The write loop moves the time of the last packet meanwhile,
but only forward, so while the clock stands when the loop is awake, it never
sleeps past its deadline, unless nothing has been written since its PINGREQ
(`keepAlive_deadline`). It reads the time of the last packet before it sends,
and a packet may be written in between.
-/

namespace MesquitteClient

namespace System

variable {codec : Codec} {options : ClientOptions} {s s' : System} {e : Event}
variable {guard : Lts.Guard System Event} {h : Lts.History System Event}

-- ---------------------------------------------------------------------------
-- The clock and the time of the last packet
-- ---------------------------------------------------------------------------

/-- The events that set the time of the last packet. -/
def sends (e : Event) : Bool := opens e || (writtenPacket e).isSome

theorem clock_step (hs : step codec options s e = some s') :
    s'.state.now = s.state.now + elapsedIn e ∧
      s'.state.lastSentPacketAt = if sends e then s.state.now else s.state.lastSentPacketAt := by
  refine ⟨now_step hs, ?_⟩
  rw [state_step hs]
  cases e with
  | reader e =>
    cases e with
    | received packet => exact State.lastSentPacketAt_readFromServer packet s.state
    | _ => rfl
  | writer e =>
    cases e with
    | outgoingWritten outgoing | outgoingFailed outgoing err =>
      obtain ⟨packet, _ | t⟩ := outgoing <;> rfl
    | _ => rfl
  | _ e => cases e <;> rfl

theorem lastSent_written (hs : step codec options s e = some s')
    (hwe : writtenPacket e = some packet) : s'.state.lastSentPacketAt = s.state.now := by
  rw [(clock_step hs).2, sends, hwe, Option.isSome_some, Bool.or_true, if_pos rfl]

theorem lastSent_kept (hs : step codec options s e = some s') (ho : opens e = false)
    (hwe : writtenPacket e = none) : s'.state.lastSentPacketAt = s.state.lastSentPacketAt := by
  rw [(clock_step hs).2, sends, ho, hwe, Option.isSome_none, Bool.or_false,
    if_neg Bool.false_ne_true]

-- ---------------------------------------------------------------------------
-- The loop and its deadline
-- ---------------------------------------------------------------------------

def ofLoop : Event → Bool
  | .keepAlive _ => true
  | _ => false

/-- When the loop will wake, or would if it went to sleep now. -/
def wakeAt (options : ClientOptions) (s : System) : Option Duration :=
  match s.conn.keepAlive with
  | .pinged => some (s.state.now + options.keepAlive)
  | .remaining remaining => some (s.state.now + remaining)
  | .sleeping wake => some wake
  | _ => none

/-- What an event does to the loop. -/
inductive LoopStep (options : ClientOptions) (s : System) (e : Event) (s' : System) : Prop
  | other (he : ofLoop e = false) (ho : opens e = false) (hk : s'.conn.keepAlive = s.conn.keepAlive)
    (hw : s.conn.writer = .ended → s'.conn.writer = .ended)
  | opened (ho : opens e) (hk : s'.conn.keepAlive = .checking)
  | ended (he : e = .keepAlive .checked) (hk : s'.conn.keepAlive = .ended)
  | due (he : e = .keepAlive .checked)
    (hd : options.keepAlive ≤ s.state.now - s.state.lastSentPacketAt)
    (hk : s'.conn.keepAlive = .sending)
  | remaining (he : e = .keepAlive .checked)
    (hd : s.state.now - s.state.lastSentPacketAt < options.keepAlive)
    (hk : s'.conn.keepAlive =
      .remaining (options.keepAlive - (s.state.now - s.state.lastSentPacketAt)))
  | pinged (he : e = .keepAlive .pinged) (hk : s'.conn.keepAlive = .pinged)
  | pingFailed (he : e = .keepAlive .pingFailed) (hw : s'.conn.writer = .ended)
    (hk : s'.conn.keepAlive = .pinged)
  | slept (he : e = .keepAlive .sleep ∨ ∃ remaining, e = .keepAlive (.sleepUntil remaining))
    (hk : s'.conn.keepAlive = .sleeping wake) (hw : s.wakeAt options = some wake)
  | woke (wake : Duration) (he : e = .keepAlive (.woke wake)) (hk : s'.conn.keepAlive = .checking)

theorem loop_cases (hs : step codec options s e = some s') : LoopStep options s e s' := by
  have hconn := conn_step hs
  cases e with
  | keepAlive e =>
    cases e with
    | checked =>
      have hk := congrArg Connection.keepAlive hconn
      simp only [connAfter] at hk
      split at hk
      · exact .ended rfl hk
      · split at hk
        · exact .due rfl ‹_› hk
        · exact .remaining rfl (Nat.not_le.mp ‹_›) hk
    | pinged => exact .pinged rfl (by rw [hconn]; rfl)
    | pingFailed =>
      simp only [step, stepKeepAlive, when_eq_some] at hs
      obtain ⟨⟨_, hw⟩, rfl⟩ := hs
      exact .pingFailed rfl hw rfl
    | sleep =>
      simp only [step, stepKeepAlive, when_eq_some] at hs
      obtain ⟨hk, rfl⟩ := hs
      exact .slept (.inl rfl) rfl (by rw [wakeAt, hk])
    | sleepUntil remaining =>
      simp only [step, stepKeepAlive, when_eq_some] at hs
      obtain ⟨hk, rfl⟩ := hs
      exact .slept (.inr ⟨remaining, rfl⟩) rfl (by rw [wakeAt, hk])
    | woke wake => exact .woke wake rfl (by rw [hconn]; rfl)
  | connect e =>
    cases e with
    | accepted caller t sp => exact .opened rfl (by rw [hconn]; rfl)
    | _ => exact .other rfl rfl (by rw [hconn]; rfl) fun hw => by rw [hconn]; exact hw
  | writer e =>
    -- the loop that has ended takes no step
    have hw : s.conn.writer = .ended → s'.conn.writer = .ended := by
      intro hw
      cases e <;> simp [step, stepWriter, hw] at hs
    cases e <;> exact .other rfl rfl (by rw [hconn]; rfl) hw
  | _ e =>
    cases e <;> exact .other rfl rfl (by rw [hconn]; rfl) fun hw => by rw [hconn]; exact hw

/-- The clock moves only while the loop sleeps, no further than to its wake
time, or after its end. -/
def wakesInTime : Lts.Guard System Event := fun _ s e =>
  match e, s.conn.keepAlive with
  | .runtime (.elapsed duration), .sleeping wake => s.state.now + duration ≤ wake
  | .runtime (.elapsed _), .ended => true
  | .runtime (.elapsed _), _ => false
  | _, _ => true

/-- So what another task does leaves the wake time. -/
theorem wakeAt_other (hg : wakesInTime h s e) (hs : step codec options s e = some s')
    (hk : s'.conn.keepAlive = s.conn.keepAlive) : s'.wakeAt options = s.wakeAt options := by
  have hstill (he : elapsedIn e = 0) : s'.wakeAt options = s.wakeAt options := by
    rw [wakeAt, wakeAt, hk, now_step hs, he, Nat.add_zero]
  cases e with
  | runtime e =>
    cases e with
    | elapsed duration =>
      rw [wakeAt, wakeAt, hk]
      cases hk₀ : s.conn.keepAlive with
      | sleeping wake | ended => rfl
      | _ => simp [wakesInTime, hk₀] at hg
    | _ => exact hstill rfl
  | _ e => exact hstill rfl

/-- The loop will sleep until `wake` after a PINGREQ, and nothing has been
written since. Once the write loop has ended, the PINGREQ is refused. -/
def Unwritten (options : ClientOptions) (h : Lts.History System Event) (s : System)
    (wake : Duration) : Prop :=
  ∃ later s₁ ping earlier, h = later ++ (s₁, .keepAlive ping) :: earlier ∧
    (ping = .pinged ∨ (ping = .pingFailed ∧ s.conn.writer = .ended)) ∧
    wake = s₁.state.now + options.keepAlive ∧ ∀ x ∈ later, writtenPacket x.2 = none

/-- The loop's last step was a check that found the interval over. It still
is, unless a packet has been written since. -/
def Checked (options : ClientOptions) (h : Lts.History System Event) (s : System) : Prop :=
  ∃ later s₁ earlier, h = later ++ (s₁, .keepAlive .checked) :: earlier ∧
    s₁.state.lastSentPacketAt + options.keepAlive ≤ s₁.state.now ∧
    (∀ x ∈ later, ofLoop x.2 = false) ∧
    (s.state.lastSentPacketAt + options.keepAlive ≤ s.state.now ∨
      ∃ x ∈ later, (writtenPacket x.2).isSome)

structure Timed (options : ClientOptions) (h : Lts.History System Event) (s : System) : Prop where
  sent : s.state.lastSentPacketAt ≤ s.state.now
  waking : s.wakeAt options = some wake → wake ≤ s.state.now + options.keepAlive ∧
    (wake ≤ s.state.lastSentPacketAt + options.keepAlive ∨ Unwritten options h s wake)
  sending : s.conn.keepAlive = .sending → Checked options h s

theorem timed_init : Timed options [] init where
  sent := Nat.le_refl _
  waking h := by cases h
  sending h := by cases h

theorem Unwritten.cons (hu : Unwritten options h s wake) (he : writtenPacket e = none)
    (hw : s.conn.writer = .ended → s'.conn.writer = .ended) :
    Unwritten options ((s, e) :: h) s' wake := by
  obtain ⟨later, s₁, ping, earlier, rfl, hp, hwake, hlater⟩ := hu
  have hlater' : ∀ x ∈ (s, e) :: later, writtenPacket x.2 = none :=
    List.forall_mem_cons.mpr ⟨he, hlater⟩
  exact ⟨(s, e) :: later, s₁, ping, earlier, rfl, hp.imp_right (And.imp_right hw), hwake, hlater'⟩

theorem Checked.cons (hc : Checked options h s) (he : ofLoop e = false)
    (hk : s.state.lastSentPacketAt + options.keepAlive ≤ s.state.now →
      s'.state.lastSentPacketAt + options.keepAlive ≤ s'.state.now ∨ (writtenPacket e).isSome) :
    Checked options ((s, e) :: h) s' := by
  obtain ⟨later, s₁, earlier, rfl, hd, hlater, hnow⟩ := hc
  have hlater' : ∀ x ∈ (s, e) :: later, ofLoop x.2 = false :=
    List.forall_mem_cons.mpr ⟨he, hlater⟩
  refine ⟨(s, e) :: later, s₁, earlier, rfl, hd, hlater', ?_⟩
  rcases hnow with hnow | ⟨x, hx, hwx⟩
  · exact (hk hnow).imp_right fun hwe => ⟨_, List.mem_cons_self, hwe⟩
  · exact .inr ⟨x, List.mem_cons_of_mem _ hx, hwx⟩

theorem Timed.sent_step (ht : Timed options h s) (hs : step codec options s e = some s') :
    s'.state.lastSentPacketAt ≤ s'.state.now := by
  rw [(clock_step hs).2]
  split
  · exact now_mono hs
  · exact Nat.le_trans ht.sent (now_mono hs)

/-- A step that leaves the wake time. A write moves the deadline, and only
forward. -/
theorem Timed.waking_step (ht : Timed options h s) (hs : step codec options s e = some s')
    (ho : opens e = false) (hw : s.conn.writer = .ended → s'.conn.writer = .ended)
    (hsame : s'.wakeAt options = s.wakeAt options) (hk : s'.wakeAt options = some wake) :
    wake ≤ s'.state.now + options.keepAlive ∧
      (wake ≤ s'.state.lastSentPacketAt + options.keepAlive ∨
        Unwritten options ((s, e) :: h) s' wake) := by
  obtain ⟨hle, hd⟩ := ht.waking (hsame.symm.trans hk)
  refine ⟨Nat.le_trans hle (Nat.add_le_add_right (now_mono hs) _), ?_⟩
  cases hwe : writtenPacket e with
  | some packet =>
    rw [lastSent_written hs hwe]
    exact .inl hle
  | none =>
    rw [lastSent_kept hs ho hwe]
    exact hd.imp_right fun hu => hu.cons hwe hw

/-- A step of another task. -/
theorem Timed.sending_step (ht : Timed options h s) (hs : step codec options s e = some s')
    (he : ofLoop e = false) (ho : opens e = false) (hk : s.conn.keepAlive = .sending) :
    Checked options ((s, e) :: h) s' := by
  refine (ht.sending hk).cons he fun hd => ?_
  cases hwe : writtenPacket e with
  | some packet => exact .inr rfl
  | none =>
    rw [lastSent_kept hs ho hwe]
    exact .inl (Nat.le_trans hd (now_mono hs))

/-- The loop neither sends nor is it to sleep. -/
theorem Timed.settled (hsent : s.state.lastSentPacketAt ≤ s.state.now)
    (hk : s.conn.keepAlive = .checking ∨ s.conn.keepAlive = .ended) : Timed options h s where
  sent := hsent
  waking hw := by rcases hk with hk | hk <;> rw [wakeAt, hk] at hw <;> cases hw
  sending hse := by rw [hse] at hk; simp at hk

/-- The loop has sent a PINGREQ. -/
theorem Timed.sent_ping (hsent : s'.state.lastSentPacketAt ≤ s'.state.now)
    (hnow : s'.state.now = s.state.now)
    (hp : ping = .pinged ∨ (ping = .pingFailed ∧ s'.conn.writer = .ended))
    (hk : s'.conn.keepAlive = .pinged) : Timed options ((s, .keepAlive ping) :: h) s' where
  sent := hsent
  waking hw := by
    rw [wakeAt, hk] at hw
    obtain rfl := Option.some.inj hw
    refine ⟨Nat.le_refl _, .inr ⟨[], s, ping, h, rfl, hp, ?_, fun _ hx => by cases hx⟩⟩
    rw [hnow]
  sending hse := by cases hk.symm.trans hse

/-- What is left at a check ends where the interval does. -/
theorem remaining_ends {now sent interval : Nat} (hle : sent ≤ now) (hd : now - sent < interval) :
    now + (interval - (now - sent)) = sent + interval := by
  omega

theorem timed_step (ht : Timed options h s) (hg : wakesInTime h s e)
    (hs : step codec options s e = some s') : Timed options ((s, e) :: h) s' := by
  have hsent := ht.sent_step hs
  cases loop_cases hs with
  | other he ho hk hw =>
    exact ⟨hsent, fun hwake => ht.waking_step hs ho hw (wakeAt_other hg hs hk) hwake,
      fun hse => ht.sending_step hs he ho (hk.symm.trans hse)⟩
  | opened _ hk | woke _ _ hk => exact .settled hsent (.inl hk)
  | ended _ hk => exact .settled hsent (.inr hk)
  | due he hd hk =>
    subst he
    have hover : s.state.lastSentPacketAt + options.keepAlive ≤ s.state.now :=
      Nat.add_le_of_le_sub' ht.sent hd
    refine ⟨hsent, fun {wake} hwake => ?_, fun _ => ?_⟩
    · rw [wakeAt, hk] at hwake
      cases hwake
    · refine ⟨[], s, h, rfl, hover, fun _ hx => (by cases hx), .inl ?_⟩
      rw [(clock_step hs).2]
      exact Nat.le_trans hover (now_mono hs)
  | remaining he hd hk =>
    subst he
    refine ⟨hsent, fun {wake} hwake => ?_, fun hse => by cases hk.symm.trans hse⟩
    rw [wakeAt, hk, now_step hs] at hwake
    obtain rfl := Option.some.inj hwake
    rw [(clock_step hs).2]
    change s.state.now + _ ≤ _ ∧ (s.state.now + _ ≤ s.state.lastSentPacketAt + _ ∨ _)
    rw [remaining_ends ht.sent hd]
    exact ⟨Nat.add_le_add_right (Nat.le_trans ht.sent (now_mono hs)) _, .inl (Nat.le_refl _)⟩
  | pinged he hk =>
    subst he
    exact .sent_ping hsent (now_step hs) (.inl rfl) hk
  | pingFailed he hw hk =>
    subst he
    exact .sent_ping hsent (now_step hs) (.inr ⟨rfl, hw⟩) hk
  | slept he hk hw =>
    have hsame : s'.wakeAt options = s.wakeAt options := by rw [hw, wakeAt, hk]
    have hwriter : s'.conn.writer = s.conn.writer := by
      rw [conn_step hs]
      rcases he with rfl | ⟨_, rfl⟩ <;> rfl
    have ho : opens e = false := by rcases he with rfl | ⟨_, rfl⟩ <;> rfl
    exact ⟨hsent, fun hwake => ht.waking_step hs ho (fun h => hwriter.trans h) hsame hwake,
      fun hse => by cases hk.symm.trans hse⟩

theorem timed (hr : Run codec options wakesInTime h s) : Timed options h s :=
  hr.invariant timed_init fun _ ht hg hs => timed_step ht hg hs

/-- For every run in which the loop resumes at its wake time and the clock
stands while it is awake: while it sleeps, its wake time is within the interval
from the last packet, or nothing has been written since its PINGREQ. It sends a
PINGREQ after a check that found the interval over; it still is, unless a packet
has been written in between. -/
theorem keepAlive_deadline (hr : Run codec options wakesInTime h s) :
    (∀ wake, s.conn.keepAlive = .sleeping wake →
      wake ≤ s.state.lastSentPacketAt + options.keepAlive ∨ Unwritten options h s wake) ∧
    ∀ s', step codec options s (.keepAlive .pinged) = some s' → Checked options h s := by
  refine ⟨fun wake hk => ((timed hr).waking (by rw [wakeAt, hk])).2,
    fun s' hs => (timed hr).sending ?_⟩
  simp only [step, stepKeepAlive, when_eq_some] at hs
  exact hs.1.1

/-- The loop sleeps for a whole interval and finds it over. -/
def overdue : List Event :=
  connecting none 0 false ++
    [.keepAlive .checked, .keepAlive (.sleepUntil (.fromSecs 30)),
      .runtime (.elapsed (.fromSecs 30)), .keepAlive (.woke (.fromSecs 30))]

/-- It sleeps after its PINGREQ, with the PINGREQ in the channel. -/
def pinging : List Event :=
  overdue ++ [.keepAlive .checked, .keepAlive .pinged, .keepAlive .sleep]

theorem keepAlive_deadline_pinging : ∃ h s, Run acceptingCodec .new wakesInTime h s ∧
    s.conn.keepAlive = .sleeping (.fromSecs 60) ∧
    (.fromSecs 60 ≤ s.state.lastSentPacketAt + ClientOptions.new.keepAlive ∨
      Unwritten .new h s (.fromSecs 60)) := by
  obtain ⟨h, s, hr, ht⟩ := Lts.exists_run (step acceptingCodec .new) wakesInTime init pinging
    (fun _ s => s.conn.keepAlive = .sleeping (.fromSecs 60)) (by decide +kernel)
  have hk := of_decide_eq_true ht
  exact ⟨h, s, hr, hk, (keepAlive_deadline hr).1 _ hk⟩

/-- The loop is in time, and the outgoing channel is never full. -/
def promptLoop : Lts.Guard System Event := fun h s e =>
  s.conn.outgoing.length < channelCapacity && wakesInTime h s e

/-- A response is written between the check and the PINGREQ, which is then
sent right after a packet. -/
theorem pinged_after_write : ¬ ∀ h s s', Run acceptingCodec .new promptLoop h s →
    step acceptingCodec .new s (.keepAlive .pinged) = some s' →
      s.state.lastSentPacketAt + ClientOptions.new.keepAlive ≤ s.state.now := by
  obtain ⟨h, s, hr, ht⟩ := Lts.exists_run (step acceptingCodec .new) promptLoop init
    (overdue ++
      [received (.pubrec 1), .reader (.responded (.pubrel 1)), .writer (.msgTaken (.pubrel 1)),
        .keepAlive .checked, .writer (.msgWritten (.pubrel 1))])
    (fun _ s => (step acceptingCodec .new s (.keepAlive .pinged)).isSome &&
      ¬ s.state.lastSentPacketAt + ClientOptions.new.keepAlive ≤ s.state.now)
    (by decide +kernel)
  simp only [Bool.and_eq_true, decide_eq_true_eq] at ht
  obtain ⟨s', hs⟩ := Option.isSome_iff_exists.mp ht.1
  exact fun hall => ht.2 (hall h s s' hr hs)

-- ---------------------------------------------------------------------------
-- The interval that is announced
-- ---------------------------------------------------------------------------

/-- The loop keeps the interval that CONNECT announces: 0 is announced only
when there is none, and the loop sends no PINGREQ then; otherwise it uses no
longer interval. -/
structure KeepsAnnounced (codec : Codec) (options : ClientOptions) (packet : ConnectPacket) :
    Prop where
  zero : packet.keepAlive = 0 → options.keepAlive = 0
  off : options.keepAlive = 0 → ∀ h s, Run codec options Lts.anything h s →
    ∀ x ∈ h, x.2 ≠ .keepAlive .pinged
  within : options.keepAlive ≠ 0 → options.keepAlive ≤ .fromSecs packet.keepAlive.toNat

theorem keepAlive_buildConnectPacket (hp : buildConnectPacket codec options = some packet) :
    packet.keepAlive = UInt16.ofNat options.keepAlive.asSecs := by
  simp only [buildConnectPacket] at hp
  split at hp
  · split at hp
    · obtain rfl := Option.some.inj hp
      rfl
    · cases hp
  · obtain rfl := Option.some.inj hp
    rfl

/-- Without an interval the loop finds it over at once. -/
theorem exists_pinged (hp : (buildConnectPacket codec options).isSome)
    (h0 : options.keepAlive = 0) :
    ∃ h s, Run codec options Lts.anything h s ∧ ∃ x ∈ h, x.2 = .keepAlive .pinged := by
  have hnext : State.new.tokens.next = 0 := rfl
  obtain ⟨h, s, hr, ht⟩ := Lts.exists_run (step codec options) Lts.anything init
    (connecting none 0 false ++ [.keepAlive .checked, .keepAlive .pinged])
    (fun h _ => h.any fun x => x.2 = .keepAlive .pinged) (by
      simp [connecting, Lts.play, Lts.anything, step, stepConnect, stepKeepAlive, when, init, alloc,
        ClientTask.connects, statusLocked, Connection.none, State.renew, channelCapacity, hp, h0,
        hnext])
  exact ⟨h, s, hr, by simpa using ht⟩

/-- The announced interval is kept exactly where it is a whole number of
seconds that 16 bits hold, and not zero. -/
theorem keepsAnnounced_iff (hp : buildConnectPacket codec options = some packet) :
    KeepsAnnounced codec options packet ↔
      ∃ secs, 1 ≤ secs ∧ secs < 65536 ∧ options.keepAlive = .fromSecs secs := by
  have hfield : packet.keepAlive.toNat = options.keepAlive.asSecs % 65536 := by
    rw [keepAlive_buildConnectPacket hp, UInt16.toNat_ofNat']
  constructor
  · intro hk
    have hne : options.keepAlive ≠ 0 := by
      intro h0
      obtain ⟨h, s, hr, x, hx, hping⟩ := exists_pinged (by rw [hp]; rfl) h0
      exact hk.off h0 h s hr x hx hping
    have hle := hk.within hne
    -- what is announced is at most the whole seconds, and these at most the interval
    have hge : Duration.fromSecs packet.keepAlive.toNat ≤ options.keepAlive := by
      rw [hfield]
      exact Nat.le_trans (Nat.mul_le_mul_right _ (Nat.mod_le _ _)) (Nat.div_mul_le_self _ _)
    have heq := Nat.le_antisymm hle hge
    have hpos : 1 ≤ packet.keepAlive.toNat := by
      refine Nat.pos_of_ne_zero fun hz => hne ?_
      rw [heq, hz]
      rfl
    exact ⟨packet.keepAlive.toNat, hpos, packet.keepAlive.toNat_lt, heq⟩
  · rintro ⟨secs, hpos, hlt, heq⟩
    have hsecs : packet.keepAlive.toNat = secs := by
      rw [hfield, heq, Duration.asSecs, Duration.fromSecs, Nat.mul_div_cancel _ (by decide),
        Nat.mod_eq_of_lt hlt]
    have hne : options.keepAlive ≠ 0 := by
      rw [heq]
      exact Nat.ne_of_gt (Nat.mul_pos hpos (by decide))
    refine ⟨fun hz => ?_, fun h0 => absurd h0 hne, fun _ => ?_⟩
    · rw [hz] at hsecs
      exact absurd hsecs.symm (Nat.ne_of_gt hpos)
    · rw [hsecs, heq]

theorem keepsAnnounced_default : ∃ packet, buildConnectPacket acceptingCodec .new = some packet ∧
    KeepsAnnounced acceptingCodec .new packet :=
  ⟨_, rfl, (keepsAnnounced_iff rfl).mpr ⟨30, by decide, by decide, rfl⟩⟩

/-- An interval of one second and a half. -/
def fractionalOptions : ClientOptions := { ClientOptions.new with keepAlive := 1500000000 }

/-- What is announced is one second. -/
theorem not_keepsAnnounced : ¬ ∀ packet,
    buildConnectPacket acceptingCodec fractionalOptions = some packet →
      KeepsAnnounced acceptingCodec fractionalOptions packet := by
  intro hall
  have hle := (hall _ rfl).within (by decide)
  exact absurd hle (by decide)

end System

end MesquitteClient
