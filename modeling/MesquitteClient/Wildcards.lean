import MesquitteClient.TopicManager

/-!
# Matching by the standard

What MQTT 3.1.1 says in section 4.7 a filter matches, and what the trie
returns. The trie ends a topic before it looks for a `'#'` below, so a filter
such as `sport/#` misses its parent level (`parent_level_missed`); it misses
nothing else (`missesNone_iff`). What it returns matches level by level. It has
no rule for names that begin with `'$'`, which a filter that begins with a
wildcard matches like any other (`dollar_matched`, `mem_matchTopic_matches`).
-/

namespace MesquitteClient

open PathBag (Matches Covers AtParent)

/-- Section 4.7.1: level by level, a last `'#'` standing for the parent level
and any number of further levels. -/
def FilterCovers (filter topic : String) : Prop :=
  Covers "+" "#" (tokenizeTopic filter) (tokenizeTopic topic)

/-- The names that section 4.7.2 is about. -/
def dollarTopic (topic : String) : Bool := topic.toList.head? = some '$'

def wildcardFirst (filter : String) : Bool :=
  (tokenizeTopic filter).head? = some "+" || (tokenizeTopic filter).head? = some "#"

/-- Section 4.7.2: the filters a name that begins with `'$'` is hidden from. -/
def hides (filter topic : String) : Bool := dollarTopic topic && wildcardFirst filter

/-- Section 4.7. -/
def TopicMatches (filter topic : String) : Prop := FilterCovers filter topic ∧ ¬ hides filter topic

/-- The filter is `p/#` and the topic is matched by `p`, level by level. -/
def ParentLevel (filter topic : String) : Prop :=
  AtParent "+" "#" (tokenizeTopic filter) (tokenizeTopic topic)

namespace TopicManager

/-- Matching returns every one of these subscriptions that the topic matches,
as often as it is there. -/
def MissesNone (manager : TopicManager) (subs : List Subscription) (topic : String) : Prop :=
  ∀ sub ∈ subs, TopicMatches sub.topic topic → subs.count sub ≤ (manager.matchTopic topic).count sub

theorem Refines.count_matchTopic (h : Refines manager subs)
    (ht : ∀ level ∈ tokenizeTopic topic, level ≠ "+" ∧ level ≠ "#") (sub : Subscription) :
    (manager.matchTopic topic).count sub =
      if Matches "+" "#" (tokenizeTopic sub.topic) (tokenizeTopic topic) then subs.count sub
      else 0 := by
  rw [(h.matchTopic ht).count_eq sub]
  split
  · rename_i hm
    exact List.count_filter (decide_eq_true hm)
  · rename_i hm
    refine List.count_eq_zero.mpr fun hmem => hm ?_
    exact of_decide_eq_true (List.mem_filter.mp hmem).2

/-- For every sequence of calls and every name without wildcards that does not
begin with `'$'`: nothing that matches is missed exactly when no subscription
is stored for the parent level of a `'#'` that the name is at. -/
theorem missesNone_iff (ops : List Op) (topic : String)
    (ht : ∀ level ∈ tokenizeTopic topic, level ≠ "+" ∧ level ≠ "#") (hd : ¬ dollarTopic topic) :
    (run ops).MissesNone (runFlat ops) topic ↔
      ∀ sub ∈ runFlat ops, ¬ ParentLevel sub.topic topic := by
  have hcount := (refines_run ops).count_matchTopic ht
  constructor
  · intro hall sub hsub hp
    have hcov : TopicMatches sub.topic topic := ⟨hp.covers, by simp [hides, hd]⟩
    have hle := hall sub hsub hcov
    rw [hcount sub, if_neg fun hm => hm.not_atParent hp] at hle
    have := List.count_pos_iff.mpr hsub
    omega
  · intro hnone sub hsub hcov
    rcases PathBag.covers_iff.mp hcov.1 with hm | hp
    · exact Nat.le_of_eq ((hcount sub).trans (if_pos hm)).symm
    · exact absurd hp (hnone sub hsub)

theorem missesNone_child : (run [.add ⟨"sport/#", .level0, 1⟩]).MissesNone
    [⟨"sport/#", .level0, 1⟩] "sport/football" := by
  refine (missesNone_iff [.add ⟨"sport/#", .level0, 1⟩] "sport/football" (by decide)
    (by decide)).mpr fun sub hsub => ?_
  -- the name has as many levels as the filter, and its parent one fewer
  have htop : sub.topic = "sport/#" := by rw [List.mem_singleton.mp hsub]
  rintro ⟨parent, hp, hl⟩
  rw [htop] at hp
  have hlen := congrArg List.length hp
  have htok : (tokenizeTopic "sport/football").length = 2 ∧ (tokenizeTopic "sport/#").length = 2 := by
    decide
  rw [List.length_append, htok.2, hl.length_eq, htok.1] at hlen
  cases hlen

/-- `sport/#` is stored, and a message for `sport` is matched by nothing. -/
theorem parent_level_missed : ¬ ∀ (ops : List Op) (topic : String),
    (∀ level ∈ tokenizeTopic topic, level ≠ "+" ∧ level ≠ "#") → ¬ dollarTopic topic →
      (run ops).MissesNone (runFlat ops) topic := by
  intro hall
  have hcov : TopicMatches "sport/#" "sport" := ⟨.level (.inl rfl) .rest, by decide⟩
  have hle := hall [.add ⟨"sport/#", .level0, 1⟩] "sport" (by decide) (by decide) _
    List.mem_cons_self hcov
  exact absurd hle (by decide)

/-- What a match returns is stored, and its filter matches the topic by the
standard, but for names that the standard hides from it. -/
theorem mem_matchTopic_matches (ops : List Op) (topic : String)
    (ht : ∀ level ∈ tokenizeTopic topic, level ≠ "+" ∧ level ≠ "#")
    (hm : sub ∈ (run ops).matchTopic topic) :
    sub ∈ runFlat ops ∧
      (TopicMatches sub.topic topic ∨ hides sub.topic topic ∧ FilterCovers sub.topic topic) := by
  have hsel := ((refines_run ops).matchTopic ht).mem_iff.mp hm
  obtain ⟨hmem, hmatch⟩ := List.mem_filter.mp hsel
  have hcov : FilterCovers sub.topic topic := (of_decide_eq_true hmatch).covers
  refine ⟨hmem, ?_⟩
  by_cases hh : hides sub.topic topic
  · exact .inr ⟨hh, hcov⟩
  · exact .inl ⟨hcov, hh⟩

theorem mem_matchTopic_matches_test :
    (⟨"sport/+/news", .level0, 2⟩ : Subscription) ∈ runFlat testOps ∧
      (TopicMatches "sport/+/news" "sport/football/news" ∨
        hides "sport/+/news" "sport/football/news" ∧
          FilterCovers "sport/+/news" "sport/football/news") :=
  mem_matchTopic_matches testOps "sport/football/news" (by decide) (by decide)

/-- A client subscribed to `#` gets what is published to `$SYS`. -/
theorem dollar_matched : ¬ ∀ (ops : List Op) (topic : String) (sub : Subscription),
    (∀ level ∈ tokenizeTopic topic, level ≠ "+" ∧ level ≠ "#") →
      sub ∈ (run ops).matchTopic topic → TopicMatches sub.topic topic := by
  intro hall
  have hmatch := hall [.add ⟨"#", .level0, 1⟩] "$SYS/uptime" ⟨"#", .level0, 1⟩ (by decide) (by decide)
  exact hmatch.2 (by decide)

end TopicManager

end MesquitteClient
