import Mathlib.Algebra.Order.Field.Basic
import Mathlib.Algebra.Order.Field.Rat
import Mathlib.Data.Rat.Cast.Order
import VerseSearch.Engine
import VerseSearch.Proofs.Text.Fields

/-! # The accounts of an engine

* `Call`, `Reply`, `Engine.perform`: the calls on an engine, and what it gives back.
* `Engine.performAll`: calls one after the other.
* `Outcome.isRejected`, `Outcome.isMatched`, `Outcome.isUnmatched`, `Outcome.isBroken`: the four ways
  in which a search ends; `tally` counts them.
* `sinceReset`: the searches since the counts were last set to zero.
* `Engine.perform_counters`, `Engine.performAll_counters`: the counts are the tally of these searches
  after one call and after any number of them.
* `Engine.counts_searches_since_reset`: what the counts of an engine are at any time.
-/

namespace VerseSearch
set_option autoImplicit false

/-! ## Calls -/

/-- How a search ends. -/
abbrev Outcome := Except SearchError SearchResponse

/-- A call on an engine. -/
inductive Call where
  | search (query : Text) (maxResults : Option Int) (verbsOnly : Bool)
  | explain (query : Text) (verbsOnly : Bool)
  | compile (query : Text) (verbsOnly : Bool)
  | findEntries (source : Text) (verbsOnly : Bool)
  | entry (tag : Int)
  | verse (book : Text) (chapter verse : Int)
  | bookNames
  | stats
  | resetStats
  deriving Repr, DecidableEq

/-- What an engine gives back. -/
inductive Reply where
  | searched (outcome : Outcome)
  | compiled (outcome : Except CompileError Query.Compiled)
  | entries (outcome : Except CompileError (List Entry))
  | entry (found : Option Entry)
  | verse (found : Option IndexedVerse)
  | names (names : List Text)
  | stats (stats : EngineStats)
  | reset

namespace Engine

/-- The engine after a call, and what the call gives back. -/
def perform [Pattern.CharNames] [Text.Ranking] (e : Engine) : Call → Engine × Reply
  | .search query maxResults verbsOnly => (e.search query maxResults verbsOnly).map id .searched
  | .explain query verbsOnly => (e, .compiled (e.explain query verbsOnly))
  | .compile query verbsOnly => (e, .compiled (Query.compile e.lexicon query verbsOnly))
  | .findEntries source verbsOnly => (e, .entries (e.findEntries source verbsOnly))
  | .entry tag => (e, .entry (e.lexicon.get? tag))
  | .verse book chapter verse => (e, .verse (e.index.verse? book chapter verse))
  | .bookNames => (e, .names e.index.bookNames)
  | .stats => (e, .stats e.stats)
  | .resetStats => (e.resetStats, .reset)

/-- The engine after some calls, and what they give back, in order. -/
def performAll [Pattern.CharNames] [Text.Ranking] (e : Engine) : List Call → Engine × List Reply
  | [] => (e, [])
  | call :: rest =>
    let (next, reply) := e.perform call
    let (last, replies) := next.performAll rest
    (last, reply :: replies)

end Engine

/-! ## Outcomes -/

namespace Outcome

/-- Something is wrong with the query. -/
def isRejected : Outcome → Bool
  | .error (.compile (.query _)) => true
  | _ => false

/-- The search is ended by anything else than its query. -/
def isBroken : Outcome → Bool
  | .error (.compile (.query _)) => false
  | .error _ => true
  | .ok _ => false

def isMatched : Outcome → Bool
  | .ok response => !response.results.isEmpty
  | .error _ => false

def isUnmatched : Outcome → Bool
  | .ok response => response.results.isEmpty
  | .error _ => false

def isTruncated : Outcome → Bool
  | .ok response => response.truncated
  | .error _ => false

end Outcome

/-- The counts of some outcomes. -/
def tally (outcomes : List Outcome) : Counters where
  total := outcomes.length
  failed := outcomes.countP Outcome.isRejected
  matched := outcomes.countP Outcome.isMatched
  unmatched := outcomes.countP Outcome.isUnmatched
  truncated := outcomes.countP Outcome.isTruncated

@[simp] theorem tally_concat (outcomes : List Outcome) (o : Outcome) :
    tally (outcomes ++ [o]) = Engine.count (tally outcomes) o := by
  simp only [tally, List.length_append, List.length_singleton, List.countP_append,
    List.countP_singleton]
  match o with
  | .error (.compile (.query e)) => rfl
  | .error (.compile (.limit l)) => rfl
  | .error (.numeral e) => rfl
  | .error (.highlight e) => rfl
  | .ok response =>
    cases hresults : response.results.isEmpty <;> cases htruncated : response.truncated <;>
      simp [Engine.count, Outcome.isRejected, Outcome.isMatched, Outcome.isUnmatched,
        Outcome.isTruncated, hresults, htruncated]

/-- A search ends in one of four ways. -/
theorem countP_outcomes (outcomes : List Outcome) :
    outcomes.countP Outcome.isRejected + outcomes.countP Outcome.isMatched +
      outcomes.countP Outcome.isUnmatched + outcomes.countP Outcome.isBroken = outcomes.length := by
  induction outcomes with
  | nil => rfl
  | cons o outcomes ih =>
    simp only [List.countP_cons, List.length_cons]
    match o with
    | .error (.compile (.query e)) =>
      simp [Outcome.isRejected, Outcome.isMatched, Outcome.isUnmatched, Outcome.isBroken]
      omega
    | .error (.compile (.limit _)) | .error (.numeral _) | .error (.highlight _) =>
      simp [Outcome.isRejected, Outcome.isMatched, Outcome.isUnmatched, Outcome.isBroken]
      omega
    | .ok response =>
      cases hresults : response.results.isEmpty <;>
        simp [Outcome.isRejected, Outcome.isMatched, Outcome.isUnmatched, Outcome.isBroken, hresults] <;>
        omega

/-! ## Searches since the last reset -/

namespace Reply

def isReset : Reply → Bool
  | .reset => true
  | _ => false

/-- The outcome of a search. -/
def outcome? : Reply → Option Outcome
  | .searched outcome => some outcome
  | _ => none

end Reply

/-- The outcomes of the searches after the last reset among some replies, in order. -/
def sinceReset (replies : List Reply) : List Outcome :=
  (replies.reverse.takeWhile fun r => !r.isReset).reverse.filterMap Reply.outcome?

@[simp] theorem sinceReset_concat (replies : List Reply) (r : Reply) : sinceReset (replies ++ [r]) =
    if r.isReset then [] else sinceReset replies ++ r.outcome?.toList := by
  rw [sinceReset, List.reverse_append, List.reverse_singleton, List.singleton_append,
    List.takeWhile_cons]
  cases r.isReset with
  | true => rfl
  | false => cases houtcome : r.outcome? <;> simp [sinceReset, houtcome]

/-! ## Calls and counts -/

namespace Engine

/-- A call other than a search and a reset leaves the engine as it is. -/
theorem perform_of_lookup [Pattern.CharNames] [Text.Ranking] (e : Engine) {call : Call}
    (hsearch : ∀ query maxResults verbsOnly, call ≠ .search query maxResults verbsOnly)
    (hreset : call ≠ .resetStats) : (e.perform call).1 = e := by
  cases call with
  | search query maxResults verbsOnly => exact absurd rfl (hsearch query maxResults verbsOnly)
  | resetStats => exact absurd rfl hreset
  | _ => rfl

theorem perform_counters [Pattern.CharNames] [Text.Ranking] {e : Engine} {earlier : List Reply}
    (h : e.counters = tally (sinceReset earlier)) (call : Call) :
    (e.perform call).1.counters = tally (sinceReset (earlier ++ [(e.perform call).2])) := by
  rw [sinceReset_concat]
  cases call with
  | search query maxResults verbsOnly =>
    have hcount := tally_concat (sinceReset earlier) (e.search query maxResults verbsOnly).2
    rw [← h] at hcount
    exact hcount.symm
  | resetStats => rfl
  | _ => simpa [perform, Reply.isReset, Reply.outcome?] using h

theorem performAll_counters [Pattern.CharNames] [Text.Ranking] {e : Engine} {earlier : List Reply}
    (h : e.counters = tally (sinceReset earlier)) (calls : List Call) :
    (e.performAll calls).1.counters = tally (sinceReset (earlier ++ (e.performAll calls).2)) := by
  induction calls generalizing e earlier with
  | nil => rwa [performAll, List.append_nil]
  | cons call rest ih =>
    have hrest := ih (perform_counters h call)
    rwa [List.append_assoc] at hrest

theorem errorRate_eq (c : Counters) : c.errorRate = (c.failed : ℚ) / c.total := by
  rw [Counters.errorRate, Rat.mkRat_eq_div]
  simp

theorem errorRate_mem_unit {c : Counters} (h : c.failed ≤ c.total) :
    0 ≤ c.errorRate ∧ c.errorRate ≤ 1 := by
  rw [errorRate_eq]
  refine ⟨div_nonneg (Nat.cast_nonneg _) (Nat.cast_nonneg _), ?_⟩
  exact div_le_one_of_le₀ (Nat.cast_le.mpr h) (Nat.cast_nonneg _)

/-- At any time in the life of an engine its counts are those of the searches since the last reset: how
many there were, and how many were rejected, had results, had none and had more than were asked for.
What the first three leave of the total is the number of searches that were ended by anything else.
No other call changes the engine. -/
theorem counts_searches_since_reset [Pattern.CharNames] [Text.Ranking] {c : Corpus Text} {l : Lexicon}
    {maxResults : ℤ} {e : Engine} (he : ofCorpus c l maxResults = .ok e) (calls : List Call) :
    let now := (e.performAll calls).1
    let outcomes := sinceReset (e.performAll calls).2
    let counts := now.stats.counters
    (counts.total = outcomes.length ∧ counts.failed = outcomes.countP Outcome.isRejected ∧
      counts.matched = outcomes.countP Outcome.isMatched ∧
      counts.unmatched = outcomes.countP Outcome.isUnmatched ∧
      counts.truncated = outcomes.countP Outcome.isTruncated) ∧
    (counts.failed + counts.matched + counts.unmatched ≤ counts.total ∧
      counts.total - (counts.failed + counts.matched + counts.unmatched) =
        outcomes.countP Outcome.isBroken) ∧
    (counts.errorRate = (counts.failed : ℚ) / counts.total ∧
      (counts.total = 0 → counts.errorRate = 0) ∧ 0 ≤ counts.errorRate ∧ counts.errorRate ≤ 1) ∧
    ∀ call, (∀ query cap verbsOnly, call ≠ .search query cap verbsOnly) → call ≠ .resetStats →
      (now.perform call).1 = now := by
  intro now outcomes counts
  have hfresh : e.counters = tally (sinceReset []) := by
    obtain ⟨i, -, rfl⟩ := ok_of_map he
    rfl
  have hcounts : counts = tally outcomes := performAll_counters hfresh calls
  have hways := countP_outcomes outcomes
  have hle : counts.failed ≤ counts.total := by
    rw [hcounts]
    simp only [tally]
    omega
  refine ⟨?_, ?_, ⟨errorRate_eq counts, fun hzero => ?_, errorRate_mem_unit hle⟩,
    fun call => now.perform_of_lookup⟩
  · rw [hcounts]
    exact ⟨rfl, rfl, rfl, rfl, rfl⟩
  · rw [hcounts]
    simp only [tally]
    omega
  · rw [errorRate_eq, hzero, Nat.cast_zero, div_zero]

/-- A search before a reset, and after it a rejected one, one that exceeds a limit, one with more
results than were asked for and one without results. -/
theorem counts_searches_since_reset_of_five :
    let verses : Chapter := [[⟨['א', 'ב'], 1⟩], [⟨['א'], 2⟩]]
    let c : Corpus Text := ⟨[⟨['א'], [verses]⟩]⟩
    let calls : List Call := [.search ['א'] none false, .resetStats, .search [' '] none false,
      .search "א\x7b4294967295\x7d".toList none false, .explain ['א'] false,
      .search ['א'] (some 1) false, .search ['ג'] none false]
    ∃ e, ofCorpus c ⟨[]⟩ 10 = .ok e ∧
      (e.performAll calls).1.stats.counters = ⟨4, 1, 1, 1, 1⟩ ∧
      (sinceReset (e.performAll calls).2).countP Outcome.isBroken = 1 ∧
      0 ≤ (e.performAll calls).1.stats.counters.errorRate := by
  intro verses c calls
  have hcounts : (ofCorpus c ⟨[]⟩ 10).toOption.map
      (fun e => (e.performAll calls).1.stats.counters) = some ⟨4, 1, 1, 1, 1⟩ := by decide +kernel
  cases he : ofCorpus c ⟨[]⟩ 10 with
  | error err =>
    rw [he] at hcounts
    cases hcounts
  | ok e =>
    rw [he] at hcounts
    obtain ⟨-, ⟨-, hbroken⟩, ⟨-, -, hrate, -⟩, -⟩ := counts_searches_since_reset he calls
    have hvalue : (e.performAll calls).1.stats.counters = ⟨4, 1, 1, 1, 1⟩ := Option.some.inj hcounts
    refine ⟨e, rfl, hvalue, ?_, hrate⟩
    rw [← hbroken, hvalue]
    rfl

end Engine

end VerseSearch
