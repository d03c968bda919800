import MesquitteClient.Lib.Simulation
import Mathlib.Data.Multiset.Filter

/-!
# A publish/subscribe service

What subscribers are promised, with nothing said about how filters are stored
or who sends what. A subscription is filed under a topic and covers some
messages. A message that is published is due to every subscription that covers
it at that moment, once for each time it is there; it may also be held back
under a key first, until it is released or forgotten. Handlers are called in
any order.

`ledger` is what the acts alone add up to. Along any path, what is due and
what has been called are together what the ledger has (`Path.balance`), and
each call has its reasons (`Path.reason`).
-/

namespace PubSub

/-- Under which topic a subscription is filed, and which messages it covers. -/
structure Rules (τ ς μ : Type*) where
  topic : ς → τ
  covers : ς → μ → Prop

structure Service (κ ς μ : Type*) where
  subs : Multiset ς := 0
  held : κ → Option μ := fun _ => none
  due : Multiset (ς × μ) := 0

inductive Act (τ κ ς μ : Type*)
  | subscribe (sub : ς)
  | unsubscribe (topic : τ)
  | reset
  | publish (msg : μ)
  | hold (k : κ) (msg : μ)
  | release (k : κ)
  | forget (k : κ)
  | call (sub : ς) (msg : μ)

variable {τ κ ς μ : Type*} (R : Rules τ ς μ)

def Act.called : Act τ κ ς μ → Option (ς × μ)
  | .call sub msg => some (sub, msg)
  | _ => none

/-- The calls among some acts. -/
def calls (acts : List (Act τ κ ς μ)) : Multiset (ς × μ) := acts.filterMap Act.called

theorem calls_append (acts acts' : List (Act τ κ ς μ)) :
    calls (acts ++ acts') = calls acts + calls acts' := by
  rw [calls, List.filterMap_append, ← Multiset.coe_add]
  rfl

-- ---------------------------------------------------------------------------
-- The reasons for a call
-- ---------------------------------------------------------------------------

/-- The act takes the subscription away. -/
def Rules.ends (sub : ς) : Act τ κ ς μ → Prop
  | .unsubscribe topic => R.topic sub = topic
  | .reset => True
  | _ => False

/-- The act replaces or takes out what is held under the key. -/
def clears (k : κ) : Act τ κ ς μ → Prop
  | .hold k' _ | .release k' | .forget k' => k' = k
  | _ => False

/-- The subscription has been made and not been taken away since. -/
def Stands (acts : List (Act τ κ ς μ)) (sub : ς) : Prop :=
  ∃ before after, acts = before ++ .subscribe sub :: after ∧ ∀ act ∈ after, ¬ R.ends sub act

/-- The message has been put under the key and not been cleared since. -/
def Holds (acts : List (Act τ κ ς μ)) (k : κ) (msg : μ) : Prop :=
  ∃ before after, acts = before ++ .hold k msg :: after ∧ ∀ act ∈ after, ¬ clears k act

/-- The message was published, or released, when the subscription stood. -/
def Offered (acts : List (Act τ κ ς μ)) (sub : ς) (msg : μ) : Prop :=
  ∃ before act after, acts = before ++ act :: after ∧ R.covers sub msg ∧ Stands R before sub ∧
    (act = .publish msg ∨ ∃ k, act = .release k ∧ Holds before k msg)

variable {R} {acts acts' : List (Act τ κ ς μ)} {act : Act τ κ ς μ} {sub : ς} {msg : μ} {k : κ}

theorem Stands.snoc (h : Stands R acts sub) (he : ¬ R.ends sub act) :
    Stands R (acts ++ [act]) sub := by
  obtain ⟨before, after, rfl, hafter⟩ := h
  refine ⟨before, after ++ [act], by simp, fun act' hm => ?_⟩
  rcases List.mem_append.mp hm with hm | hm
  · exact hafter act' hm
  · exact List.mem_singleton.mp hm ▸ he

theorem Holds.snoc (h : Holds acts k msg) (he : ¬ clears k act) : Holds (acts ++ [act]) k msg := by
  obtain ⟨before, after, rfl, hafter⟩ := h
  refine ⟨before, after ++ [act], by simp, fun act' hm => ?_⟩
  rcases List.mem_append.mp hm with hm | hm
  · exact hafter act' hm
  · exact List.mem_singleton.mp hm ▸ he

theorem Offered.append (h : Offered R acts sub msg) (acts' : List (Act τ κ ς μ)) :
    Offered R (acts ++ acts') sub msg := by
  obtain ⟨before, act', after, rfl, h⟩ := h
  exact ⟨before, act', after ++ acts', by simp, h⟩

-- ---------------------------------------------------------------------------
-- What the acts add up to
-- ---------------------------------------------------------------------------

section

variable (R) [DecidableEq τ] [DecidableEq κ] [∀ sub msg, Decidable (R.covers sub msg)]

/-- The message is due to every subscription that covers it. -/
def Service.offer (a : Service κ ς μ) (msg : μ) : Service κ ς μ :=
  { a with due := a.due + (a.subs.filter fun sub => R.covers sub msg).map (·, msg) }

/-- What an act adds, a call apart. -/
def Service.record (a : Service κ ς μ) : Act τ κ ς μ → Service κ ς μ
  | .subscribe sub => { a with subs := a.subs + {sub} }
  | .unsubscribe topic => { a with subs := a.subs.filter fun sub => R.topic sub ≠ topic }
  | .reset => { a with subs := 0 }
  | .publish msg => a.offer R msg
  | .hold k msg => { a with held := Function.update a.held k (some msg) }
  | .release k =>
    { (match a.held k with
        | some msg => a.offer R msg
        | none => a) with held := Function.update a.held k none }
  | .forget k => { a with held := Function.update a.held k none }
  | .call .. => a

/-- What the acts add up to if nothing is ever called. -/
def ledger (acts : List (Act τ κ ς μ)) : Service κ ς μ := acts.foldl (Service.record R) {}

/-- A handler is called with a message that is due to it, and then no more due. -/
inductive Step [DecidableEq ς] [DecidableEq μ] :
    Service κ ς μ → Act τ κ ς μ → Service κ ς μ → Prop
  | record {a : Service κ ς μ} {act : Act τ κ ς μ} : act.called = none →
      Step a act (a.record R act)
  | call {a : Service κ ς μ} {sub : ς} {msg : μ} : (sub, msg) ∈ a.due →
      Step a (.call sub msg) { a with due := a.due.erase (sub, msg) }

variable {R} {a a' : Service κ ς μ}

theorem Service.held_hold (a : Service κ ς μ) (k k' : κ) (msg : μ) :
    (a.record R (.hold k msg)).held k' = if k' = k then some msg else a.held k' :=
  Function.update_apply ..

theorem Service.held_forget (a : Service κ ς μ) (k k' : κ) :
    (a.record R (.forget k)).held k' = if k' = k then none else a.held k' :=
  Function.update_apply ..

theorem Service.held_release (a : Service κ ς μ) (k k' : κ) :
    (a.record R (.release k)).held k' = if k' = k then none else a.held k' :=
  Function.update_apply ..

theorem Service.subs_release (a : Service κ ς μ) (k : κ) :
    (a.record R (.release k)).subs = a.subs := by
  cases hk : a.held k <;> simp only [Service.record, Service.offer, hk]

theorem Service.due_release (hk : a.held k = some msg) :
    (a.record R (.release k)).due = (a.offer R msg).due := by
  simp [Service.record, hk]

theorem ledger_snoc (acts : List (Act τ κ ς μ)) (act : Act τ κ ς μ) :
    ledger R (acts ++ [act]) = (ledger R acts).record R act := by
  rw [ledger, List.foldl_append]
  rfl

/-- What the ledger has, with the reasons for it. -/
structure Reasoned (R : Rules τ ς μ) (acts : List (Act τ κ ς μ)) (a : Service κ ς μ) : Prop where
  subs {sub : ς} : sub ∈ a.subs → Stands R acts sub
  held {k : κ} {msg : μ} : a.held k = some msg → Holds acts k msg
  due {sub : ς} {msg : μ} : (sub, msg) ∈ a.due → Offered R acts sub msg

theorem Reasoned.record (h : Reasoned R acts a) (act : Act τ κ ς μ) :
    Reasoned R (acts ++ [act]) (a.record R act) := by
  have hoffer {sub msg msg'} (hd : (sub, msg) ∈ (a.offer R msg').due)
      (hact : act = .publish msg' ∨ ∃ k, act = .release k ∧ Holds acts k msg') :
      Offered R (acts ++ [act]) sub msg := by
    rcases Multiset.mem_add.mp hd with hd | hd
    · exact (h.due hd).append [_]
    · obtain ⟨sub', hs, heq⟩ := Multiset.mem_map.mp hd
      cases heq
      obtain ⟨hs, hcov⟩ := Multiset.mem_filter.mp hs
      exact ⟨acts, act, [], rfl, hcov, h.subs hs, hact⟩
  cases act with
  | subscribe sub' =>
    refine ⟨fun {sub} hs => ?_, fun hk => (h.held hk).snoc id, fun hd => (h.due hd).append [_]⟩
    rcases Multiset.mem_add.mp hs with hs | hs
    · exact (h.subs hs).snoc id
    · obtain rfl := Multiset.mem_singleton.mp hs
      exact ⟨acts, [], rfl, fun _ hm => by cases hm⟩
  | unsubscribe topic =>
    refine ⟨fun {sub} hs => ?_, fun hk => (h.held hk).snoc id, fun hd => (h.due hd).append [_]⟩
    obtain ⟨hs, hne⟩ := Multiset.mem_filter.mp hs
    exact (h.subs hs).snoc hne
  | reset =>
    exact ⟨fun hs => absurd hs (Multiset.notMem_zero _), fun hk => (h.held hk).snoc id,
      fun hd => (h.due hd).append [_]⟩
  | publish msg' =>
    exact ⟨fun hs => (h.subs hs).snoc id, fun hk => (h.held hk).snoc id,
      fun hd => hoffer hd (.inl rfl)⟩
  | hold k' msg' =>
    refine ⟨fun hs => (h.subs hs).snoc id, fun {k msg} hk => ?_, fun hd => (h.due hd).append [_]⟩
    rw [Service.held_hold] at hk
    split at hk
    · rename_i he
      obtain rfl := Option.some.inj hk
      exact ⟨acts, [], by rw [he], fun _ hm => by cases hm⟩
    · rename_i he
      exact (h.held hk).snoc (Ne.symm he)
  | release k' =>
    refine ⟨fun {sub} hs => ?_, fun {k msg} hk => ?_, fun {sub msg} hd => ?_⟩
    · rw [Service.subs_release] at hs
      exact (h.subs hs).snoc id
    · rw [Service.held_release] at hk
      split at hk
      · cases hk
      · rename_i he
        exact (h.held hk).snoc (Ne.symm he)
    · cases hk : a.held k' with
      | none =>
        simp only [Service.record, hk] at hd
        exact (h.due hd).append [_]
      | some msg' =>
        simp only [Service.record, hk] at hd
        exact hoffer hd (.inr ⟨k', rfl, h.held hk⟩)
  | forget k' =>
    refine ⟨fun hs => (h.subs hs).snoc id, fun {k msg} hk => ?_, fun hd => (h.due hd).append [_]⟩
    rw [Service.held_forget] at hk
    split at hk
    · cases hk
    · rename_i he
      exact (h.held hk).snoc (Ne.symm he)
  | call sub' msg' =>
    exact ⟨fun hs => (h.subs hs).snoc id, fun hk => (h.held hk).snoc id,
      fun hd => (h.due hd).append [_]⟩

theorem reasoned_ledger (acts : List (Act τ κ ς μ)) : Reasoned R acts (ledger R acts) := by
  induction acts using List.reverseRecOn with
  | nil =>
    exact ⟨fun hs => absurd hs (Multiset.notMem_zero _), fun hk => absurd hk (by simp [ledger]),
      fun hd => absurd hd (Multiset.notMem_zero _)⟩
  | append_singleton acts act ih =>
    rw [ledger_snoc]
    exact ih.record act

-- ---------------------------------------------------------------------------
-- Paths
-- ---------------------------------------------------------------------------

/-- The service is what the ledger has, less what has been called. -/
structure Balanced (R : Rules τ ς μ) [∀ sub msg, Decidable (R.covers sub msg)]
    (acts : List (Act τ κ ς μ)) (a : Service κ ς μ) : Prop where
  subs : a.subs = (ledger R acts).subs
  held : a.held = (ledger R acts).held
  due : calls acts + a.due = (ledger R acts).due

/-- An act adds the same to two services that differ only in what is due. -/
theorem Service.record_due {b : Service κ ς μ} (hs : a.subs = b.subs) (hh : a.held = b.held)
    (act : Act τ κ ς μ) : ∃ more, (a.record R act).due = a.due + more ∧
      (b.record R act).due = b.due + more ∧ (a.record R act).subs = (b.record R act).subs ∧
      (a.record R act).held = (b.record R act).held := by
  have hheld (k : κ) (msg : Option μ) :
      Function.update a.held k msg = Function.update b.held k msg := by rw [hh]
  have hnone : ∃ more, a.due = a.due + more ∧ b.due = b.due + more :=
    ⟨0, (Multiset.add_zero _).symm, (Multiset.add_zero _).symm⟩
  have hoffer (msg : μ) : ∃ more, (a.offer R msg).due = a.due + more ∧
      (b.offer R msg).due = b.due + more :=
    ⟨_, rfl, by rw [Service.offer, ← hs]⟩
  cases act with
  | subscribe sub =>
    obtain ⟨more, h₁, h₂⟩ := hnone
    exact ⟨more, h₁, h₂, congrArg (· + {sub}) hs, hh⟩
  | unsubscribe topic =>
    obtain ⟨more, h₁, h₂⟩ := hnone
    exact ⟨more, h₁, h₂, congrArg (Multiset.filter _) hs, hh⟩
  | reset =>
    obtain ⟨more, h₁, h₂⟩ := hnone
    exact ⟨more, h₁, h₂, rfl, hh⟩
  | publish msg =>
    obtain ⟨more, h₁, h₂⟩ := hoffer msg
    exact ⟨more, h₁, h₂, hs, hh⟩
  | hold k msg =>
    obtain ⟨more, h₁, h₂⟩ := hnone
    exact ⟨more, h₁, h₂, hs, hheld k (some msg)⟩
  | release k =>
    cases hk : a.held k with
    | none =>
      have hk' : b.held k = none := hh ▸ hk
      obtain ⟨more, h₁, h₂⟩ := hnone
      simp only [Service.record, hk, hk']
      exact ⟨more, h₁, h₂, hs, hheld k none⟩
    | some msg =>
      have hk' : b.held k = some msg := hh ▸ hk
      obtain ⟨more, h₁, h₂⟩ := hoffer msg
      simp only [Service.record, hk, hk']
      exact ⟨more, h₁, h₂, hs, hheld k none⟩
  | forget k =>
    obtain ⟨more, h₁, h₂⟩ := hnone
    exact ⟨more, h₁, h₂, hs, hheld k none⟩
  | call sub msg =>
    obtain ⟨more, h₁, h₂⟩ := hnone
    exact ⟨more, h₁, h₂, hs, hh⟩

theorem Balanced.record (h : Balanced R acts a) (hc : act.called = none) :
    Balanced R (acts ++ [act]) (a.record R act) := by
  have hcalls : calls (acts ++ [act]) = calls acts := by
    rw [calls_append, calls, calls, List.filterMap_cons_none hc]
    exact Multiset.add_zero _
  have hsnoc : ledger R (acts ++ [act]) = (ledger R acts).record R act := ledger_snoc acts act
  obtain ⟨more, ha, hl, hs, hh⟩ := Service.record_due (R := R) h.subs h.held act
  rw [← hsnoc] at hl hs hh
  refine ⟨hs, hh, ?_⟩
  rw [hcalls, ha, hl, ← h.due, Multiset.add_assoc]

section

variable [DecidableEq ς] [DecidableEq μ]

theorem Balanced.call (h : Balanced R acts a) (hd : (sub, msg) ∈ a.due) :
    Balanced R (acts ++ [.call sub msg]) { a with due := a.due.erase (sub, msg) } := by
  have hledger : ledger R (acts ++ [.call sub msg]) = ledger R acts := ledger_snoc ..
  refine ⟨h.subs.trans (by rw [hledger]), h.held.trans (by rw [hledger]), ?_⟩
  have hcalls : calls (acts ++ [.call sub msg]) = calls acts + {(sub, msg)} := calls_append ..
  rw [hledger, hcalls, ← h.due, Multiset.add_assoc, Multiset.singleton_add, Multiset.cons_erase hd]

/-- Whatever becomes due is called once or still due, and nothing else is. -/
theorem path_balance (hp : Lts.Path (Step R) {} acts a) : Balanced R acts a := by
  induction hp with
  | nil => exact ⟨rfl, rfl, rfl⟩
  | snoc _ hs ih =>
    cases hs with
    | record hc => exact ih.record hc
    | call hd => exact ih.call hd

/-- Every call of a path has its reasons in what came before it. -/
theorem path_reason (hp : Lts.Path (Step R) {} (acts ++ .call sub msg :: acts') a) :
    Offered R acts sub msg := by
  rw [List.append_cons] at hp
  obtain ⟨a₁, hp, -⟩ := hp.split
  obtain ⟨a₂, hbefore, hs⟩ := hp.unsnoc
  cases hs with
  | record hc => cases hc
  | call hd =>
    have hle : a₂.due ≤ (ledger R acts).due :=
      (path_balance hbefore).due ▸ Multiset.le_add_left a₂.due (calls acts)
    exact (reasoned_ledger acts).due (Multiset.mem_of_le hle hd)

end

end

end PubSub
