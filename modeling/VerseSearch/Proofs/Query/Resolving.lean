import VerseSearch.Proofs.Query.Rewriting

/-! # Queries and their blocks

* `Resolves`: a part of a query, the text that takes its place and the blocks in it, whatever comes
  after the part.
* `resolves_spaced`: items are resolved one by one.
* `compile_of_resolves`: a resolved query compiles if its pattern does.
-/

namespace VerseSearch.Query
set_option autoImplicit false

/-! ## Splitting -/

theorem splitBlocks_append {t : Text} (ht : '<' ∉ t) (rest : Text) :
    splitBlocks (t ++ rest) = t.map .char ++ splitBlocks rest := by
  induction t with
  | nil => rfl
  | cons c t ih =>
    obtain ⟨hc, ht⟩ := List.ne_and_not_mem_of_not_mem_cons ht
    rw [splitBlocks, List.cons_append, splitBlocksFrom]
    simp only [Ne.symm hc, if_false, List.map_cons, List.cons_append]
    exact congrArg _ (ih ht)

@[simp] theorem splitBlocksFrom_skip (skipped rest : Text) :
    splitBlocksFrom skipped.length (skipped ++ rest) = splitBlocks rest := by
  induction skipped with
  | nil => rfl
  | cons c skipped ih => exact ih

/-- The inside of a block, which holds neither a closing angle bracket nor a line feed. -/
def IsInner (p : Text) : Prop := '>' ∉ p ∧ '\n' ∉ p

theorem blockInner_append {p : Text} (hp : IsInner p) (rest : Text) :
    blockInner (p ++ '>' :: rest) = some p := by
  induction p with
  | nil => rfl
  | cons c p ih =>
    obtain ⟨hclose, hclose'⟩ := List.ne_and_not_mem_of_not_mem_cons hp.1
    obtain ⟨hbreak, hbreak'⟩ := List.ne_and_not_mem_of_not_mem_cons hp.2
    rw [List.cons_append, blockInner, if_neg hclose.symm, if_neg hbreak.symm, ih ⟨hclose', hbreak'⟩]
    rfl

theorem splitBlocks_block {p : Text} (hp : IsInner p) (rest : Text) :
    splitBlocks ('<' :: (p ++ '>' :: rest)) = .block p :: splitBlocks rest := by
  have hskip := splitBlocksFrom_skip (p ++ ['>']) rest
  rw [List.append_assoc, List.singleton_append, List.length_append, List.length_singleton] at hskip
  rw [splitBlocks, splitBlocksFrom]
  simp only [if_true, blockInner_append hp, hskip]

/-! ## Resolving -/

/-- A part of a query stands for a text with some blocks, whatever comes after it. -/
def Resolves [Pattern.CharNames] [Text.Ranking] (l : Lexicon) (verbsOnly : Bool) (limit : ℕ)
    (part resolved : Text) (blocks : List Block) : Prop :=
  ∀ rest, resolvePieces l verbsOnly limit (splitBlocks (part ++ rest)) =
    (resolvePieces l verbsOnly limit (splitBlocks rest)).map fun (t, bs) =>
      (resolved ++ t, blocks ++ bs)

section
variable {l : Lexicon} {verbsOnly : Bool} {limit : ℕ}

theorem resolves_text [Pattern.CharNames] [Text.Ranking] {t : Text} (ht : '<' ∉ t) :
    Resolves l verbsOnly limit t t [] := by
  intro rest
  rw [splitBlocks_append ht]
  induction t with
  | nil =>
    rw [List.map_nil, List.nil_append]
    cases resolvePieces l verbsOnly limit (splitBlocks rest) <;> rfl
  | cons c t ih =>
    rw [List.map_cons, List.cons_append, resolvePieces,
      ih (List.not_mem_of_not_mem_cons ht)]
    cases resolvePieces l verbsOnly limit (splitBlocks rest) <;> rfl

theorem resolves_block [Pattern.CharNames] [Text.Ranking] {p : Text} (hp : IsInner p) {b : Block}
    (hb : resolveBlock l p verbsOnly limit = .ok b) :
    Resolves l verbsOnly limit ('<' :: p ++ ['>']) b.replacement [b] := by
  intro rest
  simp only [List.cons_append, List.append_assoc, List.nil_append]
  rw [splitBlocks_block hp, resolvePieces, hb]

theorem Resolves.append [Pattern.CharNames] [Text.Ranking] {s s' t t' : Text} {bs cs : List Block}
    (hs : Resolves l verbsOnly limit s s' bs) (ht : Resolves l verbsOnly limit t t' cs) :
    Resolves l verbsOnly limit (s ++ t) (s' ++ t') (bs ++ cs) := by
  intro rest
  rw [List.append_assoc, hs, ht]
  cases resolvePieces l verbsOnly limit (splitBlocks rest) with
  | error e => rfl
  | ok result => simp [Except.map]

theorem resolves_spaced [Pattern.CharNames] [Text.Ranking] {α : Type} {text resolved : α → Text}
    {blocks : α → List Block} {items : List α}
    (h : ∀ i ∈ items, Resolves l verbsOnly limit (text i) (resolved i) (blocks i))
    (lead trail : Bool) :
    Resolves l verbsOnly limit (spaced [] lead trail (items.map text))
      (spaced [] lead trail (items.map resolved)) (items.flatMap blocks) := by
  have hspace : Resolves l verbsOnly limit [' '] [' '] [] := resolves_text (by decide)
  have hjoin : Resolves l verbsOnly limit (List.intercalate [' '] (items.map text))
      (List.intercalate [' '] (items.map resolved)) (items.flatMap blocks) := by
    induction items with
    | nil => exact resolves_text (t := []) (by decide)
    | cons i items ih =>
      cases items with
      | nil => simpa [List.intercalate] using h i (by simp)
      | cons j items =>
        have hrest := ih fun k hk => h k (by simp [List.mem_cons.mp hk])
        have hall := ((h i (by simp)).append hspace).append hrest
        rw [List.append_nil] at hall
        simpa only [List.map_cons, List.intercalate_cons_cons, List.flatMap_cons] using hall
  have hend : ∀ space : Bool, Resolves l verbsOnly limit (if space then [' '] else [])
      (if space then [' '] else []) [] := by
    intro space
    exact resolves_text (by cases space <;> decide)
  have hall := ((hend lead).append hjoin).append (hend trail)
  rwa [List.append_nil, List.nil_append] at hall

/-! ## Compiling -/

theorem expandRoot_of_head? {query : Text} (h : query.head? ≠ some '2') :
    expandRoot query = none := by
  unfold expandRoot
  split
  · exact absurd rfl h
  · rfl

/-- What becomes of a query whose blocks are resolved depends on its text. -/
theorem compile_eq_of_resolves [Pattern.CharNames] [Text.Ranking] {query resolved : Text}
    {blocks : List Block} (hquery : query.isAllBlank = false) (hroot : query.head? ≠ some '2')
    (h : Resolves l verbsOnly limit query resolved blocks)
    (hsource : (normalizeSource resolved).isAllBlank = false) :
    compile l query verbsOnly limit = match Pattern.parse (normalizeSource resolved) with
      | .error e => .error (e.toCompileError .invalidPattern)
      | .ok p => .ok ⟨normalizeSource resolved, p, verbsOnly, blocks⟩ := by
  have hpieces : resolvePieces l verbsOnly limit (splitBlocks query) = .ok (resolved, blocks) := by
    simpa [splitBlocks, splitBlocksFrom, resolvePieces, Except.map] using h []
  rw [compile, hquery, expandRoot_of_head? hroot]
  cases hparse : Pattern.parse (normalizeSource resolved) <;>
    simp only [Bool.false_eq_true, if_false, hpieces, hsource, hparse]

/-- A query whose blocks are resolved compiles to the pattern of its text. -/
theorem compile_of_resolves [Pattern.CharNames] [Text.Ranking] {query resolved : Text}
    {blocks : List Block} {p : Pattern}
    (hquery : query.isAllBlank = false) (hroot : query.head? ≠ some '2')
    (h : Resolves l verbsOnly limit query resolved blocks)
    (hsource : (normalizeSource resolved).isAllBlank = false)
    (hp : Pattern.parse (normalizeSource resolved) = .ok p) :
    compile l query verbsOnly limit = .ok ⟨normalizeSource resolved, p, verbsOnly, blocks⟩ := by
  rw [compile_eq_of_resolves hquery hroot h hsource, hp]

end

end VerseSearch.Query
