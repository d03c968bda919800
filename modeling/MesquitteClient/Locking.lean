import MesquitteClient.Lib.LockOrder
import MesquitteClient.Token
import MesquitteClient.TrieEdits

/-!
# The client never deadlocks

`parking_lot`'s locks guard `connect_status`, three fields of each `State`, the
nodes of the trie and the tokens. Their guards live in nested scopes, and none
over an `.await` or the call of a handler. `LockUse` has the scopes of the
source; what the code finds under a lock (the token of an identifier, the nodes
of the trie) is an argument of a use, and so may be anything.

A lock is only taken inside locks of lower rank (`LockUse.ordered`), so tasks
that use them in any number and order are never stuck (`LockUse.never_stuck`).
-/

namespace MesquitteClient

open LockOrder

inductive Lock
  | connectStatus
  /-- of one of the `State`s, as are the two that follow -/
  | packetIds (state : Nat)
  | subscriptions (state : Nat)
  | lastSentPacketAt (state : Nat)
  | token (t : TokenId)
  | trieNode (path : List String)
  deriving DecidableEq

def Lock.rank : Lock → Nat
  | connectStatus => 0
  | packetIds _ => 1
  | subscriptions _ => 2
  | lastSentPacketAt _ => 3
  | token _ => 3
  | trieNode path => path.length + 3

/-- `lock.lock()`. -/
def Lock.mutex (lock : Lock) (body : Scope Lock) : Scope Lock := .take true lock body .done

namespace TrieNode

/-- `insert` below `done`. -/
def insertLocks : List String → List String → Scope Lock
  | done, [] => .take true (.trieNode done) .done .done
  | done, token :: rest => .take true (.trieNode done) .done (insertLocks (done ++ [token]) rest)

/-- The loop over `nodes_to_cleanup`, the last one first. -/
def cleanupLocks (root : TrieNode) (removeChild : List String → Bool) :
    List (List String × String) → Scope Lock
  | [] => .done
  | (node, token) :: nodesToCleanup =>
    .take false (.trieNode node)
      (if root.hasNode (node ++ [token]) then .take false (.trieNode (node ++ [token])) .done .done
        else .done)
      (if removeChild (node ++ [token]) then
        .take true (.trieNode node) .done (cleanupLocks root removeChild nodesToCleanup)
      else cleanupLocks root removeChild nodesToCleanup)

/-- `remove` below `done`. -/
def removeLocks (root : TrieNode) (removeChild : List String → Bool) :
    List String → List String → List (List String × String) → Scope Lock
  | done, [], nodesToCleanup =>
    .take true (.trieNode done) .done (cleanupLocks root removeChild nodesToCleanup)
  | done, token :: rest, nodesToCleanup =>
    .take false (.trieNode done) .done
      (if root.hasNode (done ++ [token]) then
        removeLocks root removeChild (done ++ [token]) rest ((done, token) :: nodesToCleanup)
      else .done)

/-- `match_topic` on the node under `done`. -/
def matchLocks (node : TrieNode) : List String → List String → Scope Lock
  | done, [] => .take false (.trieNode done) .done .done
  | done, token :: rest =>
    .take false (.trieNode done)
      (.seq [(node.child? token).elim .done fun next => next.matchLocks (done ++ [token]) rest,
        (node.child? "+").elim .done fun plus => plus.matchLocks (done ++ ["+"]) rest,
        (node.child? "#").elim .done fun _ => .take false (.trieNode (done ++ ["#"])) .done .done])
      .done

mutual
/-- `clear_node` on the node under `done`. -/
def clearLocks : TrieNode → List String → Scope Lock
  | .mk children _, done => .take true (.trieNode done) (clearChildrenLocks children done) .done
def clearChildrenLocks : List (String × TrieNode) → List String → Scope Lock
  | [], _ => .done
  | (token, child) :: rest, done =>
    (child.clearLocks (done ++ [token])).append (clearChildrenLocks rest done)
end

end TrieNode

inductive LockUse
  /-- `connect_status`, `set_connect_status`, `is_connected` -/
  | connectStatus
  /-- `poll`, `set_error` and the like -/
  | token (t : TokenId)
  /-- `get_id`, with the token that `publish` fails under the same guard; the
  copy that `connect` makes -/
  | packetIds (state : Nat) (failed : Option TokenId)
  /-- `connect` and the resubscribe job copy them -/
  | subscriptions (state : Nat)
  /-- `write_to_server`, `keep_alive` -/
  | lastSentPacketAt (state : Nat)
  /-- `clean_up` in the resubscribe job -/
  | cleanUp (state : Nat) (tokens : List TokenId)
  /-- the end of the task that `connect` spawns -/
  | connectionEnds (state : Nat) (tokens : List TokenId)
  /-- `handle_puback`, `handle_pubcomp` -/
  | handlePuback (state : Nat) (token : Option TokenId)
  /-- for each return code the levels of the filter that is added, if one is -/
  | handleSuback (state : Nat) (token : Option TokenId) (added : List (Option (List String)))
  /-- the tries that `remove` finds, with the levels of the filters -/
  | handleUnsuback (state : Nat) (token : Option TokenId)
      (removed : List (TrieNode × (List String → Bool) × List String))
  | matchTopic (root : TrieNode) (topicTokens : List String)
  | clear (root : TrieNode)

namespace LockUse

def cleanUpLocks (state : Nat) (tokens : List TokenId) : Scope Lock :=
  (Lock.packetIds state).mutex (.seq (tokens.map fun t => (Lock.token t).mutex .done))

def scope : LockUse → Scope Lock
  | connectStatus => Lock.connectStatus.mutex .done
  | token t => (Lock.token t).mutex .done
  | packetIds state failed =>
    (Lock.packetIds state).mutex (failed.elim .done fun t => (Lock.token t).mutex .done)
  | subscriptions state => (Lock.subscriptions state).mutex .done
  | lastSentPacketAt state => (Lock.lastSentPacketAt state).mutex .done
  | cleanUp state tokens => cleanUpLocks state tokens
  | connectionEnds state tokens => Lock.connectStatus.mutex (cleanUpLocks state tokens)
  | handlePuback state t =>
    (Lock.packetIds state).mutex (t.elim .done fun t => (Lock.token t).mutex .done)
  | handleSuback state t added =>
    (Lock.packetIds state).mutex (t.elim .done fun t =>
      (Lock.subscriptions state).mutex (.seq (
        -- `set_result`, `get_subscription` and `add`
        (added.map fun levels => .seq [(Lock.token t).mutex .done, (Lock.token t).mutex .done,
          levels.elim .done (TrieNode.insertLocks [])]) ++ [(Lock.token t).mutex .done])))
  | handleUnsuback state t removed =>
    (Lock.packetIds state).mutex (t.elim .done fun t => .seq (
      (Lock.token t).mutex .done ::
        (removed.map fun x => x.1.removeLocks x.2.1 [] x.2.2 []) ++ [(Lock.token t).mutex .done]))
  | matchTopic root topicTokens => root.matchLocks [] topicTokens
  | clear root => root.clearLocks []

end LockUse

-- ---------------------------------------------------------------------------
-- In order
-- ---------------------------------------------------------------------------

variable {bound : Nat}

namespace TrieNode

theorem rank_child (node : List String) (token : String) :
    Lock.rank (.trieNode node) + 1 ≤ Lock.rank (.trieNode (node ++ [token])) := by
  simp [Lock.rank]

theorem insertLocks_ordered (h : bound ≤ 3) (rest done : List String) :
    (insertLocks done rest).Ordered Lock.rank bound := by
  induction rest generalizing done with
  | nil => exact ⟨h.trans (Nat.le_add_left _ _), trivial, trivial⟩
  | cons token rest ih => exact ⟨h.trans (Nat.le_add_left _ _), trivial, ih (done ++ [token])⟩

theorem cleanupLocks_ordered (h : bound ≤ 3) (root : TrieNode) (removeChild : List String → Bool)
    (nodesToCleanup : List (List String × String)) :
    (cleanupLocks root removeChild nodesToCleanup).Ordered Lock.rank bound := by
  induction nodesToCleanup with
  | nil => trivial
  | cons p nodesToCleanup ih =>
    obtain ⟨node, token⟩ := p
    have hnode : bound ≤ Lock.rank (.trieNode node) := h.trans (Nat.le_add_left _ _)
    refine ⟨hnode, ?_, ?_⟩
    · split
      · exact ⟨rank_child node token, trivial, trivial⟩
      · trivial
    · split
      · exact ⟨hnode, trivial, ih⟩
      · exact ih

theorem removeLocks_ordered (h : bound ≤ 3) (root : TrieNode) (removeChild : List String → Bool)
    (rest done : List String) (nodesToCleanup : List (List String × String)) :
    (removeLocks root removeChild done rest nodesToCleanup).Ordered Lock.rank bound := by
  induction rest generalizing done nodesToCleanup with
  | nil =>
    exact ⟨h.trans (Nat.le_add_left _ _), trivial, cleanupLocks_ordered h root removeChild _⟩
  | cons token rest ih =>
    refine ⟨h.trans (Nat.le_add_left _ _), trivial, ?_⟩
    split
    · exact ih (done ++ [token]) ((done, token) :: nodesToCleanup)
    · trivial

theorem matchLocks_ordered (node : TrieNode) (tokens done : List String)
    (h : bound ≤ Lock.rank (.trieNode done)) :
    (node.matchLocks done tokens).Ordered Lock.rank bound := by
  induction tokens generalizing node done bound with
  | nil => exact ⟨h, trivial, trivial⟩
  | cons token rest ih =>
    have hbranch (level : String) : ((node.child? level).elim .done
        fun next => next.matchLocks (done ++ [level]) rest).Ordered Lock.rank
          (Lock.rank (.trieNode done) + 1) := by
      cases node.child? level with
      | none => trivial
      | some next => exact ih next (done ++ [level]) (rank_child done level)
    refine ⟨h, .seq ?_, trivial⟩
    simp only [List.forall_mem_cons, List.not_mem_nil, false_imp_iff, implies_true, and_true]
    refine ⟨hbranch token, hbranch "+", ?_⟩
    cases node.child? "#" with
    | none => trivial
    | some hash => exact ⟨rank_child done "#", trivial, trivial⟩

mutual
theorem clearLocks_ordered : (node : TrieNode) → (done : List String) →
    (node.clearLocks done).Ordered Lock.rank (Lock.rank (.trieNode done))
  | .mk children _, done => ⟨Nat.le_refl _, clearChildrenLocks_ordered children done, trivial⟩
theorem clearChildrenLocks_ordered : (children : List (String × TrieNode)) →
    (done : List String) →
    (clearChildrenLocks children done).Ordered Lock.rank (Lock.rank (.trieNode done) + 1)
  | [], _ => trivial
  | (token, child) :: rest, done =>
    ((clearLocks_ordered child (done ++ [token])).mono (rank_child done token)).append
      (clearChildrenLocks_ordered rest done)
end

end TrieNode

namespace LockUse

theorem mutex_ordered {lock : Lock} {body : Scope Lock} (h : bound ≤ lock.rank)
    (hb : body.Ordered Lock.rank (lock.rank + 1)) : (lock.mutex body).Ordered Lock.rank bound :=
  ⟨h, hb, trivial⟩

theorem token_ordered (h : bound ≤ 3) (t : TokenId) :
    ((Lock.token t).mutex .done).Ordered Lock.rank bound :=
  mutex_ordered h trivial

/-- What is done with the token of an identifier, if it has one. -/
theorem elim_ordered {f : TokenId → Scope Lock} (h : ∀ t, (f t).Ordered Lock.rank bound)
    (t : Option TokenId) : (t.elim .done f).Ordered Lock.rank bound := by
  cases t with
  | none => trivial
  | some t => exact h t

theorem cleanUpLocks_ordered (h : bound ≤ 1) (state : Nat) (tokens : List TokenId) :
    (cleanUpLocks state tokens).Ordered Lock.rank bound := by
  refine mutex_ordered h (.seq fun scope hm => ?_)
  obtain ⟨t, _, rfl⟩ := List.mem_map.mp hm
  exact token_ordered (by simp [Lock.rank]) t

/-- A lock is only taken inside locks of lower rank. -/
theorem ordered (op : LockUse) : op.scope.Ordered Lock.rank 0 := by
  cases op with
  | connectStatus | subscriptions _ | lastSentPacketAt _ | token _ =>
    exact mutex_ordered (Nat.zero_le _) trivial
  | packetIds state t | handlePuback state t =>
    exact mutex_ordered (Nat.zero_le _)
      (elim_ordered (fun t => token_ordered (by simp [Lock.rank]) t) t)
  | cleanUp state tokens => exact cleanUpLocks_ordered (Nat.zero_le _) state tokens
  | connectionEnds state tokens =>
    exact mutex_ordered (Nat.zero_le _) (cleanUpLocks_ordered (Nat.le_refl _) state tokens)
  | handleSuback state t added =>
    refine mutex_ordered (Nat.zero_le _) (elim_ordered (fun t => ?_) t)
    have htoken : ((Lock.token t).mutex .done).Ordered Lock.rank 3 :=
      token_ordered (Nat.le_refl _) t
    refine mutex_ordered (Nat.le_refl _) (.seq fun scope hm => ?_)
    rcases List.mem_append.mp hm with hm | hm
    · obtain ⟨levels, _, rfl⟩ := List.mem_map.mp hm
      refine .seq ?_
      simp only [List.forall_mem_cons, List.not_mem_nil, false_imp_iff, implies_true, and_true]
      refine ⟨htoken, htoken, ?_⟩
      cases levels with
      | none => trivial
      | some levels => exact TrieNode.insertLocks_ordered (Nat.le_refl _) levels []
    · cases List.mem_singleton.mp hm
      exact htoken
  | handleUnsuback state t removed =>
    refine mutex_ordered (Nat.zero_le _) (elim_ordered (fun t => .seq fun scope hm => ?_) t)
    have htoken : ((Lock.token t).mutex .done).Ordered Lock.rank 2 := token_ordered (by simp) t
    rcases List.mem_cons.mp hm with rfl | hm
    · exact htoken
    · rcases List.mem_append.mp hm with hm | hm
      · obtain ⟨x, _, rfl⟩ := List.mem_map.mp hm
        exact TrieNode.removeLocks_ordered (by simp [Lock.rank]) x.1 x.2.1 x.2.2 [] []
      · cases List.mem_singleton.mp hm
        exact htoken
  | matchTopic root topicTokens =>
    exact root.matchLocks_ordered topicTokens [] (Nat.zero_le _)
  | clear root => exact (root.clearLocks_ordered []).mono (Nat.zero_le _)

/-- Any number of tasks that use the locks one way after another, in every
interleaving: while one holds or waits for a lock, one can go on, also if a
reader must not overtake who waits to write; and the tasks take boundedly many
steps until none holds a lock, unless another use starts. -/
theorem never_stuck (hr : Lts.Run (step scope) Lts.anything [] h tasks) :
    ((∃ task ∈ tasks, ¬ task.idle) → ∃ i, Ready tasks i ∧ (step scope tasks (.run i)).isSome) ∧
    ∀ n tasks', Lts.Steps (step scope) onward n tasks tasks' → n ≤ size tasks := by
  refine ⟨fun hbusy => ?_, fun n tasks' => steps_le_size⟩
  obtain ⟨task, hm, hi⟩ := hbusy
  obtain ⟨i, hready⟩ := exists_ready (ok ordered hr) hm hi
  exact ⟨i, hready, hready.step scope⟩

/-- The task of a connection that ends waits for the identifiers, which
`handle_suback` holds; and then that waits for the token, which is polled. -/
theorem never_stuck_suback : ∃ h tasks, Lts.Run (step scope) Lts.anything [] h tasks ∧
    tasks.map Task.wants = [some (true, .packetIds 0), some (true, .token 1), none] ∧
    (∃ i, Ready tasks i ∧ (step scope tasks (.run i)).isSome) := by
  obtain ⟨h, tasks, hr, ht⟩ := Lts.exists_run (step scope) Lts.anything []
    [.spawn, .spawn, .spawn, .start 0 (.connectionEnds 0 [1]), .run 0,
      .start 1 (.handleSuback 0 (some 1) [some ["a"]]), .run 1, .run 1, .start 2 (.token 1), .run 2]
    (fun _ tasks =>
      tasks.map Task.wants = [some (true, .packetIds 0), some (true, .token 1), none]) (by
      decide +kernel)
  have hwants := of_decide_eq_true ht
  refine ⟨h, tasks, hr, hwants, (never_stuck hr).1 ?_⟩
  cases tasks with
  | nil => cases hwants
  | cons task tasks =>
    refine ⟨task, List.mem_cons_self, fun hi => ?_⟩
    have hw : task.wants = none := by rw [Task.wants, hi.1]
    rw [List.map_cons, hw] at hwants
    cases hwants

end LockUse

end MesquitteClient
