import Std.Data.TreeMap.Lemmas

/-!
# Maps whose entries expire

A map from keys to values that may take an entry away once its time to live
has passed since it was last inserted. Until it does so the entry is there, and
`remove` answers it. Removing and evicting differ in what they answer only: an
eviction is the map's own.
-/

structure TtlMap (κ ν : Type) [Ord κ] where
  timeToLive : Nat
  entries : Std.TreeMap κ (ν × Nat)

namespace TtlMap

variable {κ ν : Type} [Ord κ]

def empty (timeToLive : Nat) : TtlMap κ ν := ⟨timeToLive, ∅⟩

/-- The time to live of the key's entry has passed. -/
def expired (m : TtlMap κ ν) (now : Nat) (k : κ) : Bool :=
  m.entries[k]?.any fun e => e.2 + m.timeToLive ≤ now

def insert (m : TtlMap κ ν) (now : Nat) (k : κ) (v : ν) : TtlMap κ ν :=
  { m with entries := m.entries.insert k (v, now) }

def evict (m : TtlMap κ ν) (k : κ) : TtlMap κ ν := { m with entries := m.entries.erase k }

/-- Expired or not, an entry that is there is answered. -/
def remove (m : TtlMap κ ν) (k : κ) : Option ν × TtlMap κ ν :=
  (m.entries[k]?.map Prod.fst, m.evict k)

@[simp] theorem timeToLive_insert (m : TtlMap κ ν) :
    (m.insert now k v).timeToLive = m.timeToLive := rfl
@[simp] theorem timeToLive_evict (m : TtlMap κ ν) : (m.evict k).timeToLive = m.timeToLive := rfl
@[simp] theorem remove_fst (m : TtlMap κ ν) : (m.remove k).1 = m.entries[k]?.map Prod.fst := rfl
@[simp] theorem remove_snd (m : TtlMap κ ν) : (m.remove k).2 = m.evict k := rfl

theorem le_of_expired {m : TtlMap κ ν} (he : m.entries[k]? = some (v, inserted))
    (hx : m.expired now k) : inserted + m.timeToLive ≤ now := by
  rw [expired, he] at hx
  exact of_decide_eq_true hx

variable [Std.TransOrd κ] [Std.LawfulEqOrd κ]

theorem entries_insert [DecidableEq κ] (m : TtlMap κ ν) :
    (m.insert now k v).entries[a]? = if k = a then some (v, now) else m.entries[a]? := by
  simp [insert, Std.TreeMap.getElem?_insert]

theorem entries_evict [DecidableEq κ] (m : TtlMap κ ν) :
    (m.evict k).entries[a]? = if k = a then none else m.entries[a]? := by
  simp [evict, Std.TreeMap.getElem?_erase]

end TtlMap
