import VerseSearch.Proofs.Matching.Limits
import VerseSearch.Proofs.Search.BlockSearch

/-! # What comes of compiling a query

* `IsRead`: the texts that are read as patterns while a query is compiled.
* `resolvePieces_eq_error_iff`: the first block that is not resolved gives its error.
* `compile_cases`: a query that is not blank, by its blocks and by the text that they leave.
* `compile_outcomes`: a query compiles, or it is told what is wrong with it, or a text that is read
  exceeds a limit of the notation.
-/

namespace VerseSearch.Query
set_option autoImplicit false

/-! ## Blocks -/

section
variable [Pattern.CharNames] [Text.Ranking] (l : Lexicon) (verbsOnly : Bool) (limit : ℕ)

theorem resolveBlock_outcome (inner : Text) :
    (∃ b, resolveBlock l inner verbsOnly limit = .ok b) ∨
      ∃ e, resolveBlock l inner verbsOnly limit = .error e ∧
        (e.IsInvalidPattern ∨ e.IsNoMatchingEntries ∨
          ∃ lim, e = .limit lim ∧
            Pattern.parseAnchored (normalizeBlock inner) = .error (.limit lim)) := by
  rw [resolveBlock]
  cases hparse : Pattern.parseAnchored (normalizeBlock inner) with
  | error e =>
    right
    cases e with
    | fault f => exact ⟨_, rfl, .inl trivial⟩
    | limit lim => exact ⟨_, rfl, .inr (.inr ⟨lim, rfl, rfl⟩)⟩
  | ok p =>
    dsimp only
    split
    · exact .inr ⟨_, rfl, .inr (.inl trivial)⟩
    · exact .inl ⟨_, rfl⟩

theorem resolveBlock_of_limit {inner : Text} {lim : Pattern.Limit}
    (h : Pattern.parseAnchored (normalizeBlock inner) = .error (.limit lim)) :
    resolveBlock l inner verbsOnly limit = .error (.limit lim) := by
  rw [resolveBlock, h]
  rfl

theorem resolvePieces_of_blockError {before after : List Piece} {inner : Text}
    {done : Text × List Block} {e : CompileError}
    (hbefore : resolvePieces l verbsOnly limit before = .ok done)
    (hblock : resolveBlock l inner verbsOnly limit = .error e) :
    resolvePieces l verbsOnly limit (before ++ .block inner :: after) = .error e := by
  induction before generalizing done with
  | nil => rw [List.nil_append, resolvePieces, hblock]
  | cons piece before ih =>
    cases piece with
    | char c =>
      rw [resolvePieces] at hbefore
      obtain ⟨rest, hrest, -⟩ := ok_of_map hbefore
      rw [List.cons_append, resolvePieces, ih hrest]
      rfl
    | block other =>
      rw [resolvePieces] at hbefore
      split at hbefore
      · cases hbefore
      · next b hb =>
        obtain ⟨rest, hrest, -⟩ := ok_of_map hbefore
        rw [List.cons_append, resolvePieces, hb, ih hrest]
        rfl

/-- The first block that is not resolved gives its error. -/
theorem resolvePieces_eq_error_iff {pieces : List Piece} {e : CompileError} :
    resolvePieces l verbsOnly limit pieces = .error e ↔
      ∃ before inner after done, pieces = before ++ .block inner :: after ∧
        resolvePieces l verbsOnly limit before = .ok done ∧
        resolveBlock l inner verbsOnly limit = .error e := by
  refine ⟨fun h => ?_, ?_⟩
  · induction pieces with
    | nil => cases h
    | cons piece pieces ih =>
      cases piece with
      | char c =>
        rw [resolvePieces] at h
        obtain ⟨before, inner, after, done, rfl, hbefore, hblock⟩ := ih (error_of_map h)
        refine ⟨.char c :: before, inner, after, (c :: done.1, done.2), rfl, ?_, hblock⟩
        rw [resolvePieces, hbefore]
        rfl
      | block inner =>
        rw [resolvePieces] at h
        split at h
        · next e' hblock =>
          obtain rfl := Except.error.inj h
          exact ⟨[], inner, pieces, ([], []), rfl, rfl, hblock⟩
        · next b hb =>
          obtain ⟨before, other, after, done, rfl, hbefore, hblock⟩ := ih (error_of_map h)
          refine ⟨.block inner :: before, other, after, (b.replacement ++ done.1, b :: done.2), rfl, ?_,
            hblock⟩
          rw [resolvePieces, hb, hbefore]
          rfl
  · rintro ⟨before, inner, after, done, rfl, hbefore, hblock⟩
    exact resolvePieces_of_blockError l verbsOnly limit hbefore hblock

end

/-! ## Queries -/

/-- The query in full, and whether its blocks stand for verbs alone. -/
def expand (query : Text) (verbsOnly : Bool) : Text × Bool :=
  match expandRoot query with
  | some block => (block, true)
  | none => (query, verbsOnly)

section
variable [Pattern.CharNames] [Text.Ranking]

/-- A text that is read as a pattern while a query is compiled: the inside of a block after other blocks
that are resolved, or the query with all its blocks resolved. -/
inductive IsRead (l : Lexicon) (query : Text) (verbsOnly : Bool) (limit : ℕ) : Text → Prop
  | block {before after : List Piece} {inner : Text} {done : Text × List Block}
      (split : splitBlocks (expand query verbsOnly).1 = before ++ .block inner :: after)
      (resolved : resolvePieces l (expand query verbsOnly).2 limit before = .ok done) :
      IsRead l query verbsOnly limit ("^(?:".toList ++ normalizeBlock inner ++ ")$".toList)
  | whole {text : Text} {blocks : List Block}
      (resolved : resolvePieces l (expand query verbsOnly).2 limit
        (splitBlocks (expand query verbsOnly).1) = .ok (text, blocks))
      (visible : (normalizeSource text).isAllBlank = false) :
      IsRead l query verbsOnly limit (normalizeSource text)

theorem compile_eq {query : Text}
    (hquery : query.isAllBlank = false) (l : Lexicon) (verbsOnly : Bool)
    (limit : ℕ) : compile l query verbsOnly limit =
      match resolvePieces l (expand query verbsOnly).2 limit
        (splitBlocks (expand query verbsOnly).1) with
      | .error e => .error e
      | .ok (resolved, blocks) =>
        if (normalizeSource resolved).isAllBlank then .error (.query .empty)
        else match Pattern.parse (normalizeSource resolved) with
          | .error e => .error (e.toCompileError .invalidPattern)
          | .ok pattern => .ok ⟨normalizeSource resolved, pattern, (expand query verbsOnly).2, blocks⟩ := by
  rw [compile, hquery]
  rfl

theorem verbsOnly_of_compile {l : Lexicon} {query : Text} {verbsOnly : Bool} {limit : ℕ} {c : Compiled}
    (h : compile l query verbsOnly limit = .ok c) : c.verbsOnly = (expand query verbsOnly).2 := by
  cases hquery : query.isAllBlank with
  | true =>
    rw [compile, hquery] at h
    cases h
  | false =>
    rw [compile_eq hquery] at h
    split at h
    · cases h
    · split at h
      · cases h
      · split at h
        · cases h
        · obtain rfl := Except.ok.inj h
          rfl

/-- A query compiles or fails; it fails at a limit exactly when a text that is read does so. -/
theorem compile_cases {query : Text} (hquery : query.isAllBlank = false) (l : Lexicon)
    (verbsOnly : Bool) (limit : ℕ) :
    (∃ c, compile l query verbsOnly limit = .ok c) ∨
      ∃ e, compile l query verbsOnly limit = .error e ∧
        (e = .query .empty ∨ e.IsInvalidPattern ∨ e.IsNoMatchingEntries ∨
          ∃ lim source, e = .limit lim ∧ IsRead l query verbsOnly limit source ∧
            Pattern.parse source = .error (.limit lim)) := by
  rw [compile_eq hquery]
  cases hresolved : resolvePieces l (expand query verbsOnly).2 limit
      (splitBlocks (expand query verbsOnly).1) with
  | error e =>
    obtain ⟨before, inner, after, done, hsplit, hbefore, hblock⟩ :=
      (resolvePieces_eq_error_iff l _ limit).mp hresolved
    refine .inr ⟨e, rfl, .inr ?_⟩
    obtain ⟨b, hb⟩ | ⟨e', he, hcases⟩ := resolveBlock_outcome l (expand query verbsOnly).2 limit inner
    · exact absurd (hb.symm.trans hblock) nofun
    · obtain rfl := Except.error.inj (he.symm.trans hblock)
      obtain hinvalid | hnone | ⟨lim, hlim, hparse⟩ := hcases
      · exact .inl hinvalid
      · exact .inr (.inl hnone)
      · exact .inr (.inr ⟨lim, _, hlim, .block hsplit hbefore, hparse⟩)
  | ok result =>
    obtain ⟨text, blocks⟩ := result
    dsimp only
    cases hvisible : (normalizeSource text).isAllBlank with
    | true => exact .inr ⟨_, rfl, .inl rfl⟩
    | false =>
      cases hparse : Pattern.parse (normalizeSource text) with
      | ok p => exact .inl ⟨_, rfl⟩
      | error e =>
        cases e with
        | fault f => exact .inr ⟨_, rfl, .inr (.inl trivial)⟩
        | limit lim =>
          exact .inr ⟨_, rfl, .inr (.inr (.inr ⟨lim, _, rfl, .whole hresolved hvisible, hparse⟩))⟩

theorem compile_of_isRead {query : Text} (hquery : query.isAllBlank = false) {l : Lexicon}
    {verbsOnly : Bool} {limit : ℕ} {source : Text} (h : IsRead l query verbsOnly limit source)
    {lim : Pattern.Limit} (hparse : Pattern.parse source = .error (.limit lim)) :
    compile l query verbsOnly limit = .error (.limit lim) := by
  rw [compile_eq hquery]
  cases h with
  | block split resolved =>
    rw [split, resolvePieces_of_blockError l _ limit resolved (resolveBlock_of_limit l _ limit hparse)]
  | whole resolved visible =>
    rw [resolved]
    simp only [visible, hparse]
    rfl

theorem compile_eq_limit_iff {query : Text} (hquery : query.isAllBlank = false) (l : Lexicon)
    (verbsOnly : Bool) (limit : ℕ) {lim : Pattern.Limit} :
    compile l query verbsOnly limit = .error (.limit lim) ↔
      ∃ source, IsRead l query verbsOnly limit source ∧
        Pattern.parse source = .error (.limit lim) := by
  constructor
  · intro h
    obtain ⟨c, hc⟩ | ⟨e, he, hcases⟩ := compile_cases hquery l verbsOnly limit
    · rw [hc] at h
      cases h
    obtain rfl := Except.error.inj (he.symm.trans h)
    obtain hempty | hinvalid | hnone | ⟨_, source, heq, hread, hparse⟩ := hcases
    · cases hempty
    · exact hinvalid.elim
    · exact hnone.elim
    · obtain rfl := CompileError.limit.inj heq
      exact ⟨source, hread, hparse⟩
  · rintro ⟨source, hread, hparse⟩
    exact compile_of_isRead hquery hread hparse

end

/-- A query compiles; or it is empty, or it or a block in it is no pattern, or a block finds no entries,
and the error says so; or compiling it ends at a limit of the notation. That happens exactly if a text
that is read as a pattern meets a limit, and then the text has a number of rounds that is too large or
has too many digits, or sets the flags for both ASCII and all scripts. -/
theorem compile_outcomes [Pattern.CharNames] [Text.Ranking] (l : Lexicon) (query : Text)
    (verbsOnly : Bool) (limit : ℕ) :
    ((∃ c, compile l query verbsOnly limit = .ok c) ∨
      (∃ e, compile l query verbsOnly limit = .error e ∧
        (e = .query .empty ∨ e.IsInvalidPattern ∨ e.IsNoMatchingEntries)) ∨
      ∃ lim, compile l query verbsOnly limit = .error (.limit lim)) ∧
    (∀ lim, compile l query verbsOnly limit = .error (.limit lim) ↔
      query.isAllBlank = false ∧ ∃ source, IsRead l query verbsOnly limit source ∧
        Pattern.parse source = .error (.limit lim)) ∧
    ∀ lim, compile l query verbsOnly limit = .error (.limit lim) →
      ∃ source, IsRead l query verbsOnly limit source ∧ Pattern.Exceeds source lim := by
  cases hquery : query.isAllBlank with
  | true =>
    have hempty : compile l query verbsOnly limit = .error (.query .empty) := by
      rw [compile, hquery]
      rfl
    rw [hempty]
    exact ⟨.inr (.inl ⟨_, rfl, .inl rfl⟩), by simp, by simp⟩
  | false =>
    have hlimit : ∀ lim, compile l query verbsOnly limit = .error (.limit lim) ↔ _ := fun _ =>
      compile_eq_limit_iff hquery l verbsOnly limit
    refine ⟨?_, fun lim => (hlimit lim).trans (by simp), fun lim h => ?_⟩
    · obtain ⟨c, hc⟩ | ⟨e, he, hempty | hinvalid | hnone | ⟨lim, -, rfl, -⟩⟩ :=
        compile_cases hquery l verbsOnly limit
      · exact .inl ⟨c, hc⟩
      · exact .inr (.inl ⟨e, he, .inl hempty⟩)
      · exact .inr (.inl ⟨e, he, .inr (.inl hinvalid)⟩)
      · exact .inr (.inl ⟨e, he, .inr (.inr hnone)⟩)
      · exact .inr (.inr ⟨lim, he⟩)
    · obtain ⟨source, hread, hparse⟩ := (hlimit lim).mp h
      exact ⟨source, hread, Pattern.exceeds_of_parse hparse⟩

/-- A query of one letter with a number of rounds that is too large. -/
theorem compile_outcomes_of_many_rounds :
    let query := "א\x7b4294967295\x7d".toList
    compile ⟨[]⟩ query false 5 = .error (.limit .countTooLarge) ∧
      ∃ source, IsRead ⟨[]⟩ query false 5 source ∧ Pattern.Exceeds source .countTooLarge := by
  intro query
  have hresolved : resolvePieces ⟨[]⟩ (expand query false).2 5
      (splitBlocks (expand query false).1) = .ok (query, []) := by decide +kernel
  have hread : IsRead ⟨[]⟩ query false 5 (normalizeSource query) :=
    .whole hresolved (by decide +kernel)
  have hparse : Pattern.parse (normalizeSource query) = .error (.limit .countTooLarge) := by
    decide +kernel
  obtain ⟨-, hlimit, hexceeds⟩ := compile_outcomes ⟨[]⟩ query false 5
  have hcompile := (hlimit .countTooLarge).mpr ⟨by decide, _, hread, hparse⟩
  exact ⟨hcompile, hexceeds _ hcompile⟩

end VerseSearch.Query
