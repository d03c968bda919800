import MesquitteClient.Packet
import MesquitteClient.Lib.PathBag

/-!
# The topic trie

`topic_trie.rs`. The nodes the source links by `Arc<RwLock<..>>` form a tree,
changed in place; here an operation gives the changed tree. A node's
`HashMap` of children is an association list that is only read by `lookup`
and written by `setChild` and `eraseChild`, whose order nothing depends on.

`subsAt` reads what is stored under exactly one path. Every operation is
described by what it does to `subsAt`, and `TopicManager` carries that every
subscription lies under the levels of its own filter, so a misplaced one
cannot be built.
-/

namespace MesquitteClient

inductive TrieNode
  | mk (children : List (String × TrieNode)) (subscriptions : List Subscription)

namespace TrieNode

def new : TrieNode := .mk [] []

def children : TrieNode → List (String × TrieNode)
  | .mk children _ => children

def subscriptions : TrieNode → List Subscription
  | .mk _ subscriptions => subscriptions

/-- `children.get(token)`. -/
def child? (node : TrieNode) (token : String) : Option TrieNode := node.children.lookup token

def eraseChild (children : List (String × TrieNode)) (token : String) : List (String × TrieNode) :=
  children.filter fun p => p.1 ≠ token

def setChild (children : List (String × TrieNode)) (token : String) (node : TrieNode) :
    List (String × TrieNode) :=
  (token, node) :: eraseChild children token

/-- `MqttTopicTrie::insert`: descend, making the nodes that are missing, and
push at the end of the path. -/
def insert (sub : Subscription) : TrieNode → List String → TrieNode
  | .mk children subscriptions, [] => .mk children (subscriptions ++ [sub])
  | .mk children subscriptions, token :: rest =>
    let next := (children.lookup token).getD new
    .mk (setChild children token (next.insert sub rest)) subscriptions

/-- `MqttTopicTrie::remove` where the path exists; `none` where the source
returns `false`. The nodes of the path that are left without children and
subscriptions are taken out bottom up. -/
def remove : TrieNode → List String → Option TrieNode
  | .mk children _, [] => some (.mk children [])
  | .mk children subscriptions, token :: rest =>
    match children.lookup token with
    | none => none
    | some next => (next.remove rest).map fun child =>
      if child.children.isEmpty && child.subscriptions.isEmpty then
        .mk (eraseChild children token) subscriptions
      else .mk (setChild children token child) subscriptions

/-- `MqttTopicTrie::match_topic` from `level` on, `tokens[level..]` being the
second argument. -/
def matchTopic : TrieNode → List String → List Subscription
  | node, [] => node.subscriptions
  | node, token :: rest =>
    (match node.child? token with
      | some next => next.matchTopic rest
      | none => []) ++
    (match node.child? "+" with
      | some plus => plus.matchTopic rest
      | none => []) ++
    (match node.child? "#" with
      | some hash => hash.subscriptions
      | none => [])

mutual
/-- `MqttTopicTrie::clear_node`: the subscriptions go, the nodes stay. -/
def clearNode : TrieNode → TrieNode
  | .mk children _ => .mk (clearChildren children) []
def clearChildren : List (String × TrieNode) → List (String × TrieNode)
  | [] => []
  | (token, child) :: rest => (token, child.clearNode) :: clearChildren rest
end

/-- What is stored under exactly this path. -/
def subsAt : TrieNode → List String → List Subscription
  | node, [] => node.subscriptions
  | node, token :: rest =>
    match node.child? token with
    | some next => next.subsAt rest
    | none => []

-- ---------------------------------------------------------------------------
-- Children
-- ---------------------------------------------------------------------------

theorem lookup_eraseChild (cs : List (String × TrieNode)) :
    (eraseChild cs token).lookup other = if token = other then none else cs.lookup other := by
  induction cs with
  | nil => simp [eraseChild]
  | cons p cs ih =>
    obtain ⟨k, c⟩ := p
    simp only [eraseChild] at ih ⊢
    by_cases hk : k = token
    · subst hk
      by_cases ho : k = other
      · simpa [ho] using ih
      · simpa [ho, List.lookup_cons, beq_eq_false_iff_ne.mpr (Ne.symm ho)] using ih
    · by_cases ho : token = other
      · subst ho
        simpa [hk, List.lookup_cons, beq_eq_false_iff_ne.mpr (Ne.symm hk)] using ih
      · simp only [ne_eq, hk, not_false_eq_true, decide_true, List.filter_cons_of_pos,
          List.lookup_cons, ho, ↓reduceIte] at ih ⊢
        rw [ih]

theorem lookup_setChild (cs : List (String × TrieNode)) :
    (setChild cs token node).lookup other = if token = other then some node else cs.lookup other := by
  by_cases ho : token = other
  · simp [setChild, ho]
  · simp [setChild, List.lookup_cons, beq_eq_false_iff_ne.mpr (Ne.symm ho), ho, lookup_eraseChild]

theorem lookup_clearChildren (cs : List (String × TrieNode)) :
    (clearChildren cs).lookup token = (cs.lookup token).map clearNode := by
  induction cs with
  | nil => simp [clearChildren]
  | cons p cs ih =>
    obtain ⟨k, c⟩ := p
    cases hk : token == k <;> simp [clearChildren, List.lookup_cons, hk, ih]

-- ---------------------------------------------------------------------------
-- What the operations do to `subsAt`
-- ---------------------------------------------------------------------------

@[simp] theorem subsAt_new : new.subsAt path = [] := by
  cases path <;> rfl

@[simp] theorem subsAt_nil (node : TrieNode) : node.subsAt [] = node.subscriptions := by
  cases node; rfl

theorem subsAt_insert (sub : Subscription) (node : TrieNode) (path path' : List String) :
    (node.insert sub path).subsAt path' =
      if path = path' then node.subsAt path' ++ [sub] else node.subsAt path' := by
  induction path generalizing node path' with
  | nil =>
    obtain ⟨children, subs⟩ := node
    cases path' <;> simp [insert, subsAt, child?, TrieNode.children, TrieNode.subscriptions]
  | cons token rest ih =>
    obtain ⟨children, subs⟩ := node
    cases path' with
    | nil => simp [insert, TrieNode.subscriptions]
    | cons token' rest' =>
      simp only [insert, subsAt, child?, TrieNode.children, lookup_setChild, List.cons.injEq]
      by_cases ht : token = token'
      · subst ht
        cases hc : children.lookup token with
        | none => simp [ih]
        | some next => simp [ih]
      · simp [ht]

theorem subsAt_remove (node : TrieNode) (path path' : List String) (h : node.remove path = some node') :
    node'.subsAt path' = if path = path' then [] else node.subsAt path' := by
  induction path generalizing node node' path' with
  | nil =>
    obtain ⟨children, subs⟩ := node
    simp only [remove, Option.some.injEq] at h
    subst h
    cases path' <;> simp [subsAt, child?, TrieNode.children, TrieNode.subscriptions]
  | cons token rest ih =>
    obtain ⟨children, subs⟩ := node
    simp only [remove] at h
    cases hc : children.lookup token with
    | none => simp [hc] at h
    | some next =>
      simp only [hc, Option.map_eq_some_iff] at h
      obtain ⟨child, hchild, rfl⟩ := h
      cases path' with
      | nil => split <;> simp [TrieNode.subscriptions]
      | cons token' rest' =>
        have hsub := ih next rest' hchild
        by_cases ht : token = token'
        · subst ht
          split
          · -- the child was taken out: it had neither children nor subscriptions
            rename_i hempty
            simp only [Bool.and_eq_true, List.isEmpty_iff] at hempty
            have hnil : child.subsAt rest' = [] := by
              cases rest' <;> simp [subsAt, child?, hempty]
            rw [hnil] at hsub
            simpa [subsAt, child?, TrieNode.children, lookup_eraseChild, hc] using hsub
          · simpa [subsAt, child?, TrieNode.children, lookup_setChild, hc] using hsub
        · split <;>
            simp [subsAt, child?, TrieNode.children, lookup_setChild, lookup_eraseChild, ht]

/-- Where `remove` returns `false` there was nothing under the path. -/
theorem subsAt_of_remove_none (node : TrieNode) (path : List String) (h : node.remove path = none) :
    node.subsAt path = [] := by
  induction path generalizing node with
  | nil => obtain ⟨children, subs⟩ := node; simp [remove] at h
  | cons token rest ih =>
    obtain ⟨children, subs⟩ := node
    simp only [remove] at h
    cases hc : children.lookup token with
    | none => simp [subsAt, child?, TrieNode.children, hc]
    | some next =>
      simp only [hc, Option.map_eq_none_iff] at h
      simpa [subsAt, child?, TrieNode.children, hc] using ih next h

@[simp] theorem subsAt_clearNode (node : TrieNode) (path : List String) :
    node.clearNode.subsAt path = [] := by
  induction path generalizing node with
  | nil => obtain ⟨children, subs⟩ := node; simp [clearNode, TrieNode.subscriptions]
  | cons token rest ih =>
    obtain ⟨children, subs⟩ := node
    simp only [clearNode, subsAt, child?, TrieNode.children, lookup_clearChildren]
    cases hc : children.lookup token with
    | none => simp
    | some next => simpa using ih next

-- ---------------------------------------------------------------------------
-- What matching returns
-- ---------------------------------------------------------------------------

open PathBag (Matches filed matching below)

/-- The trie stores exactly this bag. -/
def Stores (node : TrieNode) (bag : List (List String × Subscription)) : Prop :=
  ∀ path, node.subsAt path = filed bag path

theorem Stores.child (h : Stores node bag) (hc : node.child? token = some next) :
    Stores next (below token bag) := by
  intro path
  rw [PathBag.filed_below, ← h]
  simp [subsAt, hc]

theorem Stores.no_child (h : Stores node bag) (hc : node.child? token = none) :
    below token bag = [] := by
  refine List.eq_nil_iff_forall_not_mem.mpr fun p hp => ?_
  have hmem : p.2 ∈ filed bag (token :: p.1) := by
    rw [← PathBag.filed_below]
    exact PathBag.mem_filed.mpr hp
  rw [← h] at hmem
  simp [subsAt, hc] at hmem

/-- Matching a topic without wildcard levels returns, as a multiset, what
the wildcard relation selects from the stored bag. -/
theorem Stores.matchTopic (h : Stores node bag) (hq : ∀ t ∈ query, t ≠ "+" ∧ t ≠ "#") :
    (node.matchTopic query).Perm (matching "+" "#" bag query) := by
  induction query generalizing node bag with
  | nil =>
    rw [PathBag.matching_nil, ← h, subsAt_nil, TrieNode.matchTopic]
  | cons token rest ih =>
    obtain ⟨hplus, hhash⟩ := hq token List.mem_cons_self
    have hrest : ∀ t ∈ rest, t ≠ "+" ∧ t ≠ "#" := fun t ht => hq t (List.mem_cons_of_mem _ ht)
    -- one branch of the recursion, for the level itself and for "+"
    have hbranch (level : String) :
        (match node.child? level with
          | some next => next.matchTopic rest
          | none => []).Perm (matching "+" "#" (below level bag) rest) := by
      cases hc : node.child? level with
      | some next => exact ih (h.child hc) hrest
      | none => rw [h.no_child hc]; rfl
    have hlast : (match node.child? "#" with
        | some hash => hash.subscriptions
        | none => []) = filed (below "#" bag) [] := by
      cases hc : node.child? "#" with
      | some hash => rw [← (h.child hc) [], subsAt_nil]
      | none => rw [h.no_child hc]; rfl
    rw [TrieNode.matchTopic, hlast]
    exact (((hbranch token).append (hbranch "+")).append_right _).trans
      (PathBag.matching_cons hplus hhash (by decide)).symm

/-- Whatever a match returns is stored under a path that matches. -/
theorem mem_matchTopic (h : sub ∈ matchTopic node query) :
    ∃ path, sub ∈ node.subsAt path ∧ Matches "+" "#" path query := by
  induction query generalizing node with
  | nil => exact ⟨[], by simpa [matchTopic] using h, .nil⟩
  | cons token rest ih =>
    simp only [matchTopic, List.mem_append] at h
    have hbranch (level : String) (hl : level = token ∨ level = "+")
        (hm : sub ∈ (match node.child? level with
          | some next => next.matchTopic rest
          | none => [])) :
        ∃ path, sub ∈ node.subsAt path ∧ Matches "+" "#" path (token :: rest) := by
      cases hc : node.child? level with
      | none => simp [hc] at hm
      | some next =>
        obtain ⟨path, hp, hpm⟩ := ih (by simpa [hc] using hm)
        exact ⟨level :: path, by simpa [subsAt, hc] using hp, .level hl hpm⟩
    rcases h with (h | h) | h
    · exact hbranch token (.inl rfl) h
    · exact hbranch "+" (.inr rfl) h
    · cases hc : node.child? "#" with
      | none => simp [hc] at h
      | some hash => exact ⟨["#"], by simpa [subsAt, hc] using h, .rest⟩

end TrieNode

end MesquitteClient
