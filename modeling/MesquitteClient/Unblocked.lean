import MesquitteClient.Lib.Rest
import MesquitteClient.Linearizing
import Mathlib.Data.Finset.Card

/-!
# Every operation on the trie returns

The read loop may wait at any node for a clear, and make nodes that the clear
has to visit. Neither holds the other up for ever: from every state of every
run the two can take a bounded number of steps, in whatever order, and when
none is left both are done (`operations_return`). The bound counts the nodes
that a clear has still to visit, and three steps for each node that an `insert`
may have to make.
-/

namespace MesquitteClient

/-- What the read loop has still to do, a node it may make counted three times. -/
def Walk.left : Walk → Nat
  | .idle => 0
  | .inserting _ _ rest => 3 * rest.length + 1
  | .removing _ rest nodesToCleanup => 3 * rest.length + 2 * nodesToCleanup.length + 2
  | .cleaning nodesToCleanup => 2 * nodesToCleanup.length + 1
  | .unlinking _ _ nodesToCleanup => 2 * nodesToCleanup.length + 2

namespace LockedTrie

open TrieNode

/-- The children that are still to visit at the guarded nodes. -/
def waiting (guards : List Guarded) : List (List String) :=
  guards.flatMap fun g => g.2.map fun token => g.1 ++ [token]

/-- What the clear has still to visit. -/
def toVisit (root : TrieNode) (guards : List Guarded) : Finset (List String) :=
  (root.paths ++ waiting guards).toFinset.filter (Due guards)

def rank (s : LockedTrie) : Nat :=
  s.walk.left + s.guards.length + 2 * (toVisit s.root s.guards).card

/-- A step of an operation or a clear that has started. -/
def onward : TrieEvent → Bool
  | .walk | .visit _ | .leave => true
  | _ => false

section

variable {root root' : TrieNode} {guards : List Guarded} {node path : List String}
  {token : String} {tokens : List String} {s s' : LockedTrie} {trie : TrieNode} {walk : Walk}

theorem mem_waiting :
    path ∈ waiting guards ↔ ∃ g ∈ guards, ∃ token ∈ g.2, g.1 ++ [token] = path := by
  simp [waiting]

theorem due_of_mem_waiting (h : path ∈ waiting guards) : Due guards path := by
  obtain ⟨g, hg, token, ht, rfl⟩ := mem_waiting.mp h
  exact ⟨g, hg, token, ht, List.prefix_refl _⟩

theorem mem_toVisit (hk : root.Keyed) :
    path ∈ toVisit root guards ↔ (root.hasNode path ∨ path ∈ waiting guards) ∧ Due guards path := by
  simp [toVisit, mem_paths hk]

theorem toVisit_subset (guards : List Guarded) (hk : root.Keyed) (hk' : root'.Keyed)
    (hn : ∀ path, root'.hasNode path → root.hasNode path) :
    toVisit root' guards ⊆ toVisit root guards := by
  intro path hp
  rw [mem_toVisit hk'] at hp
  exact (mem_toVisit hk).mpr ⟨hp.1.imp_left (hn path), hp.2⟩

/-- A new node may be one to visit. -/
theorem card_toVisit_ensureChild (guards : List Guarded) (hk : root.Keyed)
    (path : List String) (token : String) :
    (toVisit (root.modifyAt (ensureChild token) path) guards).card ≤
      (toVisit root guards).card + 1 := by
  refine (Finset.card_le_card fun path' hp => ?_).trans
    (Finset.card_insert_le (path ++ [token]) (toVisit root guards))
  rw [mem_toVisit (hk.modifyAt (fun _ hn => hn.ensureChild token) path)] at hp
  obtain ⟨hn | hw, hd⟩ := hp
  · obtain hn | rfl := of_hasNode_modifyAt_ensureChild hn
    · exact Finset.mem_insert_of_mem ((mem_toVisit hk).mpr ⟨.inl hn, hd⟩)
    · exact Finset.mem_insert_self _ _
  · exact Finset.mem_insert_of_mem ((mem_toVisit hk).mpr ⟨.inr hw, hd⟩)

/-- A child that is visited is not one to visit any more, and its children were
to be visited before. -/
theorem card_toVisit_visit (hk : root.Keyed) (hc : Chained ((node, tokens) :: guards))
    (ht : token ∈ tokens) :
    (toVisit (root.modifyAt clearSubscriptions (node ++ [token]))
      ((node ++ [token], root.childTokens (node ++ [token])) :: (node, tokens.erase token) ::
        guards)).card < (toVisit root ((node, tokens) :: guards)).card := by
  have hc' := hc.visit token (hk.nodup_childTokens (node ++ [token]))
  have hk' := hk.modifyAt (fun _ hn => hn.clearSubscriptions) (node ++ [token])
  have hmem : node ++ [token] ∈ toVisit root ((node, tokens) :: guards) := by
    have hw : node ++ [token] ∈ waiting ((node, tokens) :: guards) :=
      mem_waiting.mpr ⟨_, List.mem_cons_self, token, ht, rfl⟩
    exact (mem_toVisit hk).mpr ⟨.inr hw, due_of_mem_waiting hw⟩
  have hsubset : toVisit (root.modifyAt clearSubscriptions (node ++ [token]))
      ((node ++ [token], root.childTokens (node ++ [token])) :: (node, tokens.erase token) ::
        guards) ⊆ toVisit root ((node, tokens) :: guards) := by
    intro path hp
    obtain ⟨hp, hd⟩ := (mem_toVisit hk').mp hp
    refine (mem_toVisit hk).mpr ⟨?_, ?_⟩
    · rw [hasNode_modifyAt_clearSubscriptions] at hp
      obtain hn | hw := hp
      · exact .inl hn
      · obtain ⟨g, hg, token', ht', rfl⟩ := mem_waiting.mp hw
        rcases List.mem_cons.mp hg with rfl | hg
        · exact .inl ((mem_childTokens root _).mp ht')
        · refine .inr (mem_waiting.mpr ?_)
          rcases List.mem_cons.mp hg with rfl | hg
          · exact ⟨_, List.mem_cons_self, token', List.mem_of_mem_erase ht', rfl⟩
          · exact ⟨g, List.mem_cons_of_mem _ hg, token', ht', rfl⟩
    · by_cases hpre : node ++ [token] <+: path
      · exact due_cons.mpr (.inl ⟨token, ht, hpre⟩)
      · exact (due_visit hpre).mp hd
  refine Finset.card_lt_card ((Finset.ssubset_iff_of_subset hsubset).mpr ⟨_, hmem, fun h => ?_⟩)
  obtain ⟨-, hd⟩ := (mem_toVisit hk').mp h
  rw [due_cons, or_iff_left (hc'.not_due (List.prefix_refl _))] at hd
  obtain ⟨token', _, hp⟩ := hd
  simpa using hp.length_le

theorem toVisit_leaves : toVisit root ((node, []) :: guards) = toVisit root guards := by
  simp [toVisit, waiting, due_done]

theorem rank_lt_of_walk (hk : s.root.Keyed) (hk' : root.Keyed)
    (hn : ∀ path, root.hasNode path → s.root.hasNode path) (hw : walk.left < s.walk.left) :
    rank { s with root, walk } < s.rank := by
  have hcard := Finset.card_le_card (toVisit_subset s.guards hk hk' hn)
  simp only [rank]
  omega

/-- A step of an operation or a clear that has started brings both nearer to
their ends. -/
theorem rank_step (h : Follows s trie) (he : onward e) (hm : Moved s e s') : s'.rank < s.rank := by
  have hsame (path : List String) (hn : s.root.hasNode path) : s.root.hasNode path := hn
  cases hm with
  | insert _ | remove _ | matched _ _ | clear _ => cases he
  | @makes sub done token rest hwalk _ =>
    have hcard := card_toVisit_ensureChild s.guards h.keyed done token
    simp only [rank, hwalk, Walk.left, List.length_cons]
    omega
  | pushes hwalk _ =>
    exact rank_lt_of_walk h.keyed (h.keyed.modifyAt (fun _ hn => hn.push _) _)
      (fun _ => hasNode_of_modifyAt fun {next path} hn => by rwa [hasNode_push] at hn)
      (by simp [hwalk, Walk.left])
  | empties hwalk _ =>
    refine rank_lt_of_walk h.keyed (h.keyed.modifyAt (fun _ hn => hn.clearSubscriptions) _)
      (fun _ hn => ?_) (by simp [hwalk, Walk.left])
    rwa [hasNode_modifyAt_clearSubscriptions] at hn
  | unlinks hwalk =>
    exact rank_lt_of_walk h.keyed (h.keyed.modifyAt (fun _ hn => hn.dropChild _) _)
      (fun _ => hasNode_of_modifyAt hasNode_of_dropChild) (by simp [hwalk, Walk.left])
  | finds hwalk _ _ | misses hwalk _ _ | returns hwalk | condemns hwalk _ | keeps hwalk _ =>
    refine rank_lt_of_walk h.keyed h.keyed hsame ?_
    simp only [hwalk, Walk.left, List.length_cons]
    omega
  | visits hg ht =>
    have hcard := card_toVisit_visit h.keyed (hg ▸ h.chained) ht
    simp only [rank, hg, List.length_cons] at hcard ⊢
    omega
  | leaves hg =>
    simp only [rank, hg, toVisit_leaves, List.length_cons]
    omega

/-- When none of these steps is left, nobody is in an operation. -/
theorem idle_of_atRest (hr : Lts.AtRest step onward s) : s.walk = .idle ∧ s.guards = [] := by
  have hg : s.guards = [] := by
    cases hg : s.guards with
    | nil => rfl
    | cons g guards =>
      obtain ⟨node, tokens⟩ := g
      cases tokens with
      | nil =>
        have hstep : s.leaveStep = none := hr .leave rfl
        simp [leaveStep, hg] at hstep
      | cons token tokens =>
        have hstep : s.visitStep token = none := hr (.visit token) rfl
        simp [visitStep, hg] at hstep
  refine ⟨?_, hg⟩
  have hstep : s.walkStep = none := hr .walk rfl
  have hl (node : List String) : s.locked node = false := by simp [locked, hg]
  rw [LockedTrie.walkStep] at hstep
  cases hwalk : s.walk with
  | idle => rfl
  | inserting sub done rest => cases rest <;> simp [hwalk, hl] at hstep
  | removing done rest nodesToCleanup =>
    cases rest with
    | nil => simp [hwalk, hl] at hstep
    | cons token rest =>
      by_cases hn : s.root.hasNode (done ++ [token]) <;> simp [hwalk, hl, hn] at hstep
  | cleaning nodesToCleanup =>
    cases nodesToCleanup with
    | nil => simp [hwalk] at hstep
    | cons p rest => by_cases hrem : s.removeChild p.1 p.2 <;> simp [hwalk, hl, hrem] at hstep
  | unlinking node token rest => simp [hwalk, hl] at hstep

/-- From every state of every run: the operation and the clear that have started
take no more steps than the rank, in whatever order, and are held up only when
both are done. -/
theorem operations_return (hr : Lts.Run step Lts.anything {} h s) :
    (∀ n s', Lts.Steps step onward n s s' → n ≤ s.rank) ∧
    ∀ s', Lts.AtRest step onward s' → s'.walk = .idle ∧ s'.guards = [] := by
  obtain ⟨trie, _, hf⟩ := follows hr
  refine ⟨fun n s' => Lts.steps_le_rank_of (P := fun s => ∃ trie, Follows s trie)
    (fun hp he hs => ?_) ⟨trie, hf⟩, fun s' => idle_of_atRest⟩
  obtain ⟨trie, hf⟩ := hp
  obtain ⟨trie', _, hf'⟩ := hf.step (.of_step hs)
  exact ⟨⟨trie', hf'⟩, rank_step hf he (.of_step hs)⟩

/-- An insertion below the root, and a clear that has visited the root. -/
theorem operations_return_clear : ∃ h s, Lts.Run step Lts.anything {} h s ∧
    s.walk ≠ .idle ∧ s.guards ≠ [] ∧ (∀ n s', Lts.Steps step onward n s s' → n ≤ 7) ∧
    ∀ s', Lts.AtRest step onward s' → s'.walk = .idle ∧ s'.guards = [] := by
  obtain ⟨h, s, hr, ht⟩ := Lts.exists_run step Lts.anything {}
    [.insert ⟨"a/b", .level0, 7⟩ ["a", "b"], .walk, .clear]
    (fun _ s => s.rank = 7 && s.walk.left ≠ 0 && !s.guards.isEmpty) (by decide +kernel)
  simp only [Bool.and_eq_true, decide_eq_true_eq, Bool.not_eq_true',
    List.isEmpty_eq_false_iff] at ht
  obtain ⟨⟨hrank, hleft⟩, hg⟩ := ht
  refine ⟨h, s, hr, fun hw => hleft ?_, hg, ?_⟩
  · rw [hw, Walk.left]
  · rw [← hrank]
    exact operations_return hr

end

end LockedTrie

end MesquitteClient
