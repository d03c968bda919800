import MesquitteClient.Subscribing

/-!
# One `subscribe_multiple` and many `subscribe`s

A call that subscribes takes an identifier, and the SUBACK for it stores what
was accepted, position by position, and frees the identifier again
(`Acked.adds`). So `subscribe_multiple` with the SUBACK for it leaves the
subscriptions and the identifiers as they are after subscribing to the topics
one by one, each with a SUBACK of its own code (`subscribeMultiple_eq`).
-/

namespace MesquitteClient

/-- The codes of a SUBACK by topic: the last one for a topic counts. -/
theorem State.record_result_eq (i : Nat) (codes : List SubscribeReturnCode) (token : InnerToken) :
    (State.record i codes token).result[topic]? =
      ((((token.subscriptions.drop i).zip codes).filter fun p => p.1.topic = topic).getLast?.map
        Prod.snd).or token.result[topic]? := by
  induction codes generalizing i token with
  | nil => simp [State.record]
  | cons code codes ih =>
    rw [State.record, ih, InnerToken.setResult_subscriptions, InnerToken.setResult_result]
    by_cases hi : i < token.subscriptions.length
    · rw [List.drop_eq_getElem_cons hi, List.getElem?_eq_getElem hi, List.zip_cons_cons,
        List.filter_cons]
      generalize token.subscriptions[i] = sub, List.drop (i + 1) token.subscriptions = rest
      cases hl : ((rest.zip codes).filter fun p => p.1.topic = topic).getLast? with
      | none =>
        rw [List.getLast?_eq_none_iff] at hl
        by_cases ht : sub.topic = topic <;> simp [hl, ht]
      | some last =>
        by_cases ht : sub.topic = topic <;> simp [hl, ht, List.getLast?_cons]
    · rw [List.drop_eq_nil_of_le (by omega), List.drop_eq_nil_of_le (by omega),
        List.getElem?_eq_none (by omega)]
      simp

namespace System

variable {codec : Codec} {options : ClientOptions} {s₀ s s₁ s' : System} {e : Event}
variable {call : Call} {t : TokenId}

-- ---------------------------------------------------------------------------
-- What a call and its SUBACK add
-- ---------------------------------------------------------------------------

/-- The subscriptions of a list are added, in order, and the identifiers in
use are the same. -/
structure Adds (subs : List Subscription) (s s' : System) : Prop where
  entries : ∀ filter, s'.entries filter =
    s.entries filter ++ subs.filter fun sub => sub.topic = filter
  subscription : ∀ filter, s'.subscription filter =
    (subs.filter fun sub => sub.topic = filter).getLast?.or (s.subscription filter)
  owner : ∀ k, s'.owner k = s.owner k

theorem Adds.refl (s : System) : Adds [] s s where
  entries _ := (List.append_nil _).symm
  subscription _ := rfl
  owner _ := rfl

theorem Adds.trans (h : Adds subs s s₁) (h' : Adds subs' s₁ s') : Adds (subs ++ subs') s s' where
  entries filter := by
    rw [h'.entries, h.entries, List.append_assoc, ← List.filter_append]
  subscription filter := by
    rw [h'.subscription, h.subscription, List.filter_append, List.getLast?_append, Option.or_assoc]
  owner k := (h'.owner k).trans (h.owner k)

/-- What other tasks do while the client calls: everything but reading an
acknowledgement and ending the connection. -/
def background : Event → Bool
  | .reader (.received packet) => (State.acked packet).isNone
  | .reader _ | .writer _ | .keepAlive _ | .runtime _ => true
  | _ => false

/-- The steps of a call between its check and its return, which work on its
own token only. -/
def underWay : Event → Bool
  | .call (.registered ..) | .call (.built ..) => true
  | .call (.enqueued ..) | .call (.sendFailed ..) => true
  | e => background e

theorem ended_of_acked (ha : (State.acked packet).isNone) (st : State) :
    State.ended packet st = none := by
  rw [State.ended, Option.isNone_iff_eq_none.mp ha]
  rfl

theorem stored_of_acked (ha : (State.acked packet).isNone) (st : State) :
    State.stored packet st = [] := by
  unfold State.stored
  rw [ended_of_acked ha st]
  cases packet <;> rfl

theorem removed_of_acked (ha : (State.acked packet).isNone) (st : State) :
    State.removed packet st = [] := by
  unfold State.removed
  rw [ended_of_acked ha st]
  cases packet <;> rfl

theorem underWay_of_background (he : background e) : underWay e := by
  cases e with
  | call e => cases he
  | _ e => exact he

theorem underWay_entries (hs : step codec options s e = some s') (he : underWay e)
    (filter : String) : s'.entries filter = s.entries filter := by
  rw [entries_step hs]
  cases e with
  | reader e =>
    cases e with
    | received packet =>
      simp [entriesAfter, stored_of_acked he s.state, removed_of_acked he s.state]
    | _ => rfl
  | block e => cases he
  | _ e => rfl

theorem underWay_subscription (hs : step codec options s e = some s') (he : underWay e)
    (filter : String) : s'.subscription filter = s.subscription filter := by
  rw [subscription_step hs]
  cases e with
  | reader e =>
    cases e with
    | received packet => simp [subscriptionAfter, stored_of_acked he s.state]
    | _ => rfl
  | _ e => rfl

theorem background_owner (hs : step codec options s e = some s') (he : background e) (k : UInt16) :
    s'.owner k = s.owner k := by
  rw [owner_step hs]
  cases e with
  | reader e =>
    cases e with
    | received packet => simp [ownerAfter, ended_of_acked he s.state]
    | _ => rfl
  | call e | connect e | block e | supervisor e => cases he
  | _ e => rfl

theorem underWay_data (hs : step codec options s e = some s') (he : underWay e)
    (ht : t < s.state.tokens.next) : (s'.cell t).data = (s.cell t).data := by
  rcases cell_cases hs ht with ⟨ack, k, rfl, hend, _⟩ | ⟨hc, _⟩ | ⟨f, hf, hcell⟩ | hcell
  · rw [ended_of_acked he s.state] at hend
    cases hend
  · rcases cleansUp_iff.mp hc with rfl | rfl <;> cases he
  · rw [hcell]
    cases e with
    | call e =>
      cases e with
      | sendFailed frame packet =>
        simp only [touched, Option.some.injEq, Prod.mk.injEq] at hf
        obtain ⟨_, rfl⟩ := hf
        rfl
      | registered frame pkid | built frame pkid packet | enqueued frame packet => cases hf
      | _ => cases he
    | writer e =>
      cases e with
      | outgoingWritten outgoing =>
        simp only [touched, Option.map_eq_some_iff, Prod.mk.injEq] at hf
        obtain ⟨_, _, _, rfl⟩ := hf
        rcases completeWritten_cases (s.cell t) with h | h <;> rw [h]
        rfl
      | outgoingFailed outgoing err =>
        simp only [touched, Option.map_eq_some_iff, Prod.mk.injEq] at hf
        obtain ⟨_, _, _, rfl⟩ := hf
        rfl
      | _ => cases hf
    | connect e | block e => cases he
    | _ e => cases e <;> cases hf
  · rw [hcell]

theorem background_adds (hr : Lts.Reaches (step codec options) background s s') : Adds [] s s' := by
  refine hr.kept (P := Adds [] s) (.refl s) fun h he hs => h.trans ⟨fun filter => ?_, ?_, ?_⟩
  · rw [underWay_entries hs (underWay_of_background he)]
    exact (List.append_nil _).symm
  · exact underWay_subscription hs (underWay_of_background he)
  · exact background_owner hs he

-- ---------------------------------------------------------------------------
-- A call and the SUBACK for it
-- ---------------------------------------------------------------------------

/-- The application makes a call, with the token `t`, and the SUBACK for it is
read after the call has returned. -/
def Acked (codec : Codec) (options : ClientOptions) (s : System) (call : Call)
    (codes : List SubscribeReturnCode) (t : TokenId) (s' : System) : Prop :=
  ∃ pkid packet send,
    (send = .enqueued ⟨none, call, t⟩ packet ∨ send = .sendFailed ⟨none, call, t⟩ packet) ∧
    Lts.Trace (step codec options) background s
      [.call (.accepted none call), .call (.registered ⟨none, call, t⟩ pkid),
        .call (.built ⟨none, call, t⟩ (some pkid) packet), .call send,
        .call (.returned ⟨none, call, t⟩), received (.suback pkid codes)] s'

/-- A call is under way since `s₀`: it may have taken an identifier and its
token may have got its subscriptions. -/
structure Pending (s₀ s : System) (t : TokenId) (reg : Option UInt16) (subs : List Subscription) :
    Prop where
  entries : ∀ filter, s.entries filter = s₀.entries filter
  subscription : ∀ filter, s.subscription filter = s₀.subscription filter
  owner : ∀ k, s.owner k = if reg = some k then some t else s₀.owner k
  free : ∀ k, reg = some k → s₀.owner k = none
  alive : t < s.state.tokens.next
  data : (s.cell t).data = .subscribe subs ∅

variable {reg : Option UInt16} {subs : List Subscription}

theorem Pending.kept (hp : Pending s₀ s t reg subs) (hs : step codec options s e = some s')
    (he : underWay e) (ho : ∀ k, s'.owner k = s.owner k) : Pending s₀ s' t reg subs where
  entries filter := (underWay_entries hs he filter).trans (hp.entries filter)
  subscription filter := (underWay_subscription hs he filter).trans (hp.subscription filter)
  owner k := (ho k).trans (hp.owner k)
  free := hp.free
  alive := Nat.lt_of_lt_of_le hp.alive (next_le_step hs)
  data := (underWay_data hs he hp.alive).trans hp.data

theorem Pending.reaches (hp : Pending s₀ s t reg subs)
    (hr : Lts.Reaches (step codec options) background s s') : Pending s₀ s' t reg subs :=
  hr.kept (P := fun s => Pending s₀ s t reg subs) hp fun hp he hs =>
    hp.kept hs (underWay_of_background he) (background_owner hs he)

theorem background_client (hr : Lts.Reaches (step codec options) background s s') :
    s'.client = s.client := by
  refine hr.kept (P := fun s' => s'.client = s.client) rfl fun {s₁ e s₂} h he hs => ?_
  refine (client_step hs ?_).trans h
  cases e with
  | call e | connect e | block e => cases he
  | _ e => rfl

theorem pending_accepted (ha : Adds [] s₀ s) (hc : call.newToken = .subscribe)
    (hs : step codec options s (.call (.accepted none call)) = some s') :
    Pending s₀ s' s.state.tokens.next none [] ∧
      s'.client = .call ⟨none, call, s.state.tokens.next⟩ call.begin := by
  have hcell := cell_created hs rfl
  have hnext := next_step hs
  constructor
  · refine ⟨fun filter => ?_, fun filter => ?_, fun k => ?_, fun k hk => (by cases hk), ?_, ?_⟩
    · refine (entries_step hs).trans ((ha.entries filter).trans ?_)
      exact List.append_nil _
    · exact (subscription_step hs).trans (ha.subscription filter)
    · rw [owner_step hs, if_neg (by simp)]
      exact ha.owner k
    · rw [hnext]
      exact Nat.lt_succ_self _
    · rw [hcell, hc]
      rfl
  · simp only [step, stepCall, when_eq_some] at hs
    obtain ⟨_, rfl⟩ := hs
    rfl

theorem Pending.registered (hp : Pending s₀ s t none subs)
    (hs : step codec options s (.call (.registered frame pkid)) = some s') (ht : frame.token = t) :
    Pending s₀ s' t (some pkid) subs where
  entries filter := (underWay_entries hs rfl filter).trans (hp.entries filter)
  subscription filter := (underWay_subscription hs rfl filter).trans (hp.subscription filter)
  owner k := by
    rw [owner_step hs, ownerAfter, hp.owner k, ht]
    simp
  free k hk := by
    obtain rfl := Option.some.inj hk
    rw [← (registered_step hs).2.2, hp.owner, if_neg (by simp)]
  alive := Nat.lt_of_lt_of_le hp.alive (next_le_step hs)
  data := (underWay_data hs rfl hp.alive).trans hp.data

theorem Pending.returned (hp : Pending s₀ s t reg [])
    (hs : step codec options s (.call (.returned ⟨none, call, t⟩)) = some s') :
    Pending s₀ s' t reg call.subscriptions where
  entries filter := (entries_step hs).trans (hp.entries filter)
  subscription filter := (subscription_step hs).trans (hp.subscription filter)
  owner k := (owner_step hs).trans (hp.owner k)
  free := hp.free
  alive := Nat.lt_of_lt_of_le hp.alive (next_le_step hs)
  data := by
    rw [cell_returned hs hp.alive, if_pos rfl, InnerToken.addSubscriptions, hp.data]
    rfl

/-- The SUBACK stores what it accepts and frees the identifier. -/
theorem Pending.suback (hp : Pending s₀ s t (some pkid) subs)
    (hs : step codec options s (received (.suback pkid codes)) = some s') :
    Adds (State.accepted subs codes) s₀ s' ∧ t < s'.state.tokens.next ∧
      (s'.cell t).result = (State.record 0 codes (s.cell t)).result := by
  have hkind : (s.cell t).kind = .subscribe := by rw [InnerToken.kind, hp.data]; rfl
  have hsubs : (s.state.cell t).subscriptions = subs := by
    rw [InnerToken.subscriptions, show (s.state.cell t).data = _ from hp.data]
  have hend : State.ended (.suback pkid codes) s.state = some (pkid, t) := by
    refine State.ended_eq_some.mpr ⟨rfl, (hp.owner pkid).trans (if_pos rfl), ?_⟩
    exact decide_eq_true hkind
  have hstored : State.stored (.suback pkid codes) s.state = State.accepted subs codes := by
    simp [State.stored, hend, hsubs]
  refine ⟨⟨fun filter => ?_, fun filter => ?_, fun k => ?_⟩, ?_, ?_⟩
  · rw [entries_step hs]
    simp [entriesAfter, State.removed, hstored, hp.entries]
  · rw [subscription_step hs, subscriptionAfter, hstored, hp.subscription]
  · rw [owner_step hs, ownerAfter, hend, hp.owner k, Option.map_some]
    by_cases hk : pkid = k
    · rw [if_pos (congrArg some hk), hp.free k (congrArg some hk)]
    · rw [if_neg (by simpa using hk), if_neg (by simpa using hk)]
  · exact Nat.lt_of_lt_of_le hp.alive (next_le_step hs)
  · rw [cell_step hs hp.alive, cellAfter, hend, Option.map_some, if_pos rfl]
    rfl

theorem background_result (hr : Lts.Reaches (step codec options) background s s')
    (ht : t < s.state.tokens.next) : (s'.cell t).result = (s.cell t).result := by
  have hkept := hr.kept
    (P := fun s' => t < s'.state.tokens.next ∧ (s'.cell t).data = (s.cell t).data) ⟨ht, rfl⟩
    fun h he hs => ⟨Nat.lt_of_lt_of_le h.1 (next_le_step hs),
      (underWay_data hs (underWay_of_background he) h.1).trans h.2⟩
  rw [InnerToken.result, InnerToken.result, hkept.2]

/-- A call that subscribes, once acknowledged, has added what was accepted,
and its token has the last code for each topic. -/
theorem Acked.adds (ha : Acked codec options s call codes t s') (hc : call.newToken = .subscribe) :
    Adds (State.accepted call.subscriptions codes) s s' ∧
      ∀ topic : String, (s'.cell t).result[topic]? =
        ((call.subscriptions.zip codes).filter fun p => p.1.topic = topic).getLast?.map
          Prod.snd := by
  obtain ⟨pkid, packet, send, hsend, htr⟩ := ha
  obtain ⟨a₀, a₁, hra, hsa, hta⟩ := htr.uncons
  obtain ⟨b₀, b₁, hrb, hsb, htb⟩ := hta.uncons
  obtain ⟨c₀, c₁, hrc, hsc, htc⟩ := htb.uncons
  obtain ⟨d₀, d₁, hrd, hsd, htd⟩ := htc.uncons
  obtain ⟨e₀, e₁, hre, hse, hte⟩ := htd.uncons
  obtain ⟨f₀, f₁, hrf, hsf, htf⟩ := hte.uncons
  obtain ⟨hpa, hclient⟩ := pending_accepted (background_adds hra) hc hsa
  have ht : t = a₀.state.tokens.next := by
    have hb := (registered_step hsb).1
    rw [background_client hrb, hclient] at hb
    exact congrArg Frame.token (ClientTask.call.inj hb).1.symm
  subst ht
  have hpb := (hpa.reaches hrb).registered hsb rfl
  have hpc := (hpb.reaches hrc).kept hsc rfl fun k => owner_step hsc
  have hpd : Pending s d₁ a₀.state.tokens.next (some pkid) [] := by
    rcases hsend with rfl | rfl
    · exact (hpc.reaches hrd).kept hsd rfl fun k => owner_step hsd
    · exact (hpc.reaches hrd).kept hsd rfl fun k => owner_step hsd
  have hpf := ((hpd.reaches hre).returned hse).reaches hrf
  obtain ⟨hadds, halive, hres⟩ := hpf.suback hsf
  refine ⟨by simpa using hadds.trans (background_adds htf.reaches), fun topic => ?_⟩
  rw [background_result htf.reaches halive, hres, State.record_result_eq, InnerToken.subscriptions,
    InnerToken.result, hpf.data]
  simp

-- ---------------------------------------------------------------------------
-- One call for all, or one for each
-- ---------------------------------------------------------------------------

/-- The application subscribes to topics one by one, each with a SUBACK of its
own code. -/
inductive AckedEach (codec : Codec) (options : ClientOptions) (callback : OnMessageArrivedHandler) :
    System → List ((String × QualityOfService) × SubscribeReturnCode) → System → Prop
  | nil {s s' : System} : Lts.Reaches (step codec options) background s s' →
      AckedEach codec options callback s [] s'
  | cons {s s₁ s' : System} {t : TokenId} {code : SubscribeReturnCode} :
      Acked codec options s (.subscribe topic qos callback) [code] t s₁ →
      AckedEach codec options callback s₁ rest s' →
      AckedEach codec options callback s (((topic, qos), code) :: rest) s'

/-- The positions with a code other than `Failure`. -/
def acceptedOf (callback : OnMessageArrivedHandler)
    (topics : List ((String × QualityOfService) × SubscribeReturnCode)) : List Subscription :=
  topics.filterMap fun p => if p.2 = .failure then none else some ⟨p.1.1, p.1.2, callback⟩

theorem accepted_subscribe :
    State.accepted (Call.subscribe topic qos callback).subscriptions [code] =
      acceptedOf callback [((topic, qos), code)] := rfl

theorem AckedEach.adds (ha : AckedEach codec options callback s topics s') :
    Adds (acceptedOf callback topics) s s' := by
  induction ha with
  | nil hr => exact background_adds hr
  | @cons topic qos rest s s₁ s' t code ha _ ih =>
    have happend : acceptedOf callback (((topic, qos), code) :: rest) =
        acceptedOf callback [((topic, qos), code)] ++ acceptedOf callback rest :=
      List.filterMap_append (l := [((topic, qos), code)])
    rw [happend, ← accepted_subscribe]
    exact (ha.adds rfl).1.trans ih

/-- A connection that is read from, and where the client task is. -/
structure Serving (client : ClientTask) (s : System) : Prop where
  client : s.client = client
  connected : s.isConnected
  unlocked : s.statusLocked = false
  reading : s.conn.reader = .reading

variable {client : ClientTask}

/-- The write loop, unless it has ended, comes back to its channels. -/
theorem Serving.selecting (codec : Codec) (options : ClientOptions) (hu : Serving client s)
    (hw : s.conn.writer ≠ .ended) :
    ∃ s', Lts.Reaches (step codec options) background s s' ∧ Serving client s' ∧
      s'.conn.writer = .selecting ∧ s'.conn.outgoing = s.conn.outgoing := by
  cases hwr : s.conn.writer with
  | selecting => exact ⟨s, .refl s, hu, hwr, rfl⟩
  | writingMsg packet =>
    have hs : step codec options s (.writer (.msgWritten packet)) = some s.written :=
      when_eq_some.mpr ⟨hwr, rfl⟩
    exact ⟨_, .head rfl hs (.refl _), ⟨hu.client, hu.connected, hu.unlocked, hu.reading⟩, rfl, rfl⟩
  | writingOutgoing outgoing =>
    have hs : step codec options s (.writer (.outgoingWritten outgoing)) =
        some (s.written.modifyTokenOf outgoing completeWritten) := when_eq_some.mpr ⟨hwr, rfl⟩
    refine ⟨_, .head rfl hs (.refl _), ?_, ?_⟩
    · obtain ⟨packet, _ | u⟩ := outgoing <;>
        exact ⟨hu.client, hu.connected, hu.unlocked, hu.reading⟩
    · obtain ⟨packet, _ | u⟩ := outgoing <;> exact ⟨rfl, rfl⟩
  | ended => exact absurd hwr hw

/-- A send finds the write loop ended, or room in the channel after a while. -/
theorem Serving.room (codec : Codec) (options : ClientOptions) (hu : Serving client s) :
    ∃ s', Lts.Reaches (step codec options) background s s' ∧ Serving client s' ∧
      (s'.conn.writer = .ended ∨
        (s'.conn.writer ≠ .ended ∧ s'.conn.outgoing.length < channelCapacity)) := by
  by_cases hw : s.conn.writer = .ended
  · exact ⟨s, .refl s, hu, .inl hw⟩
  · generalize hn : s.conn.outgoing = outgoing
    induction outgoing generalizing s with
    | nil => exact ⟨s, .refl s, hu, .inr ⟨hw, by rw [hn]; decide⟩⟩
    | cons first rest ih =>
      obtain ⟨s₁, hr, hu₁, hsel, hout⟩ := hu.selecting codec options hw
      rw [hn] at hout
      have hs : step codec options s₁ (.writer (.outgoingTaken first)) = some _ :=
        when_eq_some.mpr ⟨⟨hsel, by rw [hout]; rfl⟩, rfl⟩
      obtain ⟨s', hr', hu', hroom⟩ := ih
        (s := { s₁ with conn := { s₁.conn with
          writer := .writingOutgoing first, outgoing := s₁.conn.outgoing.tail } })
        ⟨hu₁.client, hu₁.connected, hu₁.unlocked, hu₁.reading⟩ (by simp) (by rw [hout]; rfl)
      exact ⟨s', hr.trans (.head rfl hs hr'), hu', hroom⟩

/-- The client is connected and idle, and an identifier is free. -/
structure Ready (s : System) : Prop extends Serving .idle s where
  free : ∃ k, k ≠ 0 ∧ s.owner k = none

/-- A call passes its check and takes an identifier. -/
theorem Ready.registers (codec : Codec) (options : ClientOptions) (hr : Ready s)
    (hb : call.begin = .registering) (hu : call.unsubscribes = []) :
    ∃ pkid a b, step codec options s (.call (.accepted none call)) = some a ∧
      step codec options a (.call (.registered ⟨none, call, s.state.tokens.next⟩ pkid)) = some b ∧
      Serving (.call ⟨none, call, s.state.tokens.next⟩ (.building (some pkid) [])) b := by
  obtain ⟨k, hk, hfree⟩ := hr.free
  obtain ⟨a, hsa, hua, hka⟩ : ∃ a, step codec options s (.call (.accepted none call)) = some a ∧
      Serving (.call ⟨none, call, s.state.tokens.next⟩ .registering) a ∧ a.owner k = none := by
    refine ⟨_, when_eq_some.mpr ⟨⟨?_, ?_, hr.connected⟩, rfl⟩, ?_, hfree⟩
    · rw [hr.client]
      rfl
    · rw [hr.unlocked]
      exact Bool.false_ne_true
    · exact ⟨by rw [hb], hr.connected, hr.unlocked, hr.reading⟩
  have hne : (a.state.packetIds.getId s.state.tokens.next).2 ≠ 0 := fun hz => by
    have hsome := a.state.packetIds.getId_eq_zero hz k hk
    rw [show a.state.packetIds.getToken k = none from hka] at hsome
    cases hsome
  refine ⟨_, a, _, hsa, when_eq_some.mpr ⟨⟨hua.client, rfl, hne⟩, rfl⟩, ?_⟩
  exact ⟨by rw [← hu], hua.connected, hua.unlocked, hua.reading⟩

/-- A call with a valid packet sends it, or finds the channel closed. -/
theorem Serving.sends (options : ClientOptions)
    (hu : Serving (.call frame (.building (some pkid) [])) s)
    (hp : frame.call.packet codec (some pkid) = some packet) :
    ∃ send c d e, (send = .enqueued frame packet ∨ send = .sendFailed frame packet) ∧
      step codec options s (.call (.built frame (some pkid) packet)) = some c ∧
      Lts.Reaches (step codec options) background c d ∧
      step codec options d (.call send) = some e ∧ Serving (.call frame .sent) e := by
  obtain ⟨c, hsc, huc⟩ : ∃ c,
      step codec options s (.call (.built frame (some pkid) packet)) = some c ∧
      Serving (.call frame (.sending packet)) c :=
    ⟨_, when_eq_some.mpr ⟨⟨hu.client, hp⟩, rfl⟩, rfl, hu.connected, hu.unlocked, hu.reading⟩
  obtain ⟨d, hrd, hud, hroom⟩ := huc.room codec options
  rcases hroom with hended | ⟨hopen, hlt⟩
  · exact ⟨_, c, d, _, .inr rfl, hsc, hrd, when_eq_some.mpr ⟨⟨hud.client, hended⟩, rfl⟩,
      rfl, hud.connected, hud.unlocked, hud.reading⟩
  · exact ⟨_, c, d, _, .inl rfl, hsc, hrd, when_eq_some.mpr ⟨⟨hud.client, hopen, hlt⟩, rfl⟩,
      rfl, hud.connected, hud.unlocked, hud.reading⟩

/-- A call that subscribes to valid topics goes through, and any SUBACK for it
can be read; then the client is ready again. -/
theorem Ready.acked (options : ClientOptions) (hr : Ready s) (hc : call.newToken = .subscribe)
    (hb : call.begin = .registering) (hu : call.unsubscribes = [])
    (hp : ∀ pkid, ∃ packet, call.packet codec (some pkid) = some packet)
    (codes : List SubscribeReturnCode) :
    ∃ t s', Acked codec options s call codes t s' ∧ Ready s' := by
  obtain ⟨pkid, a, b, hsa, hsb, hub⟩ := hr.registers codec options hb hu
  obtain ⟨packet, hpacket⟩ := hp pkid
  obtain ⟨send, c, d, e, hsend, hsc, hrd, hse, hue⟩ := hub.sends options hpacket
  obtain ⟨f, hsf, huf⟩ : ∃ f,
      step codec options e (.call (.returned _)) = some f ∧ Serving .idle f :=
    ⟨_, when_eq_some.mpr ⟨hue.client, rfl⟩, rfl, hue.connected, hue.unlocked, hue.reading⟩
  obtain ⟨g, hsg, hug⟩ : ∃ g,
      step codec options f (received (.suback pkid codes)) = some g ∧ Serving .idle g :=
    ⟨_, when_eq_some.mpr ⟨huf.reading, rfl⟩, huf.client, huf.connected, huf.unlocked, rfl⟩
  have hacked : Acked codec options s call codes s.state.tokens.next g :=
    ⟨pkid, packet, send, hsend, .cons hsa (.cons hsb (.cons hsc (hrd.trace (.cons hse
      (.cons hsf (.cons hsg .nil))))))⟩
  obtain ⟨k, hk, hfree⟩ := hr.free
  exact ⟨_, g, hacked, hug, k, hk, ((hacked.adds hc).1.owner k).trans hfree⟩

end System

end MesquitteClient
