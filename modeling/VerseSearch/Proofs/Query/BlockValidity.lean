import VerseSearch.Proofs.Query.Nesting
import VerseSearch.Proofs.Query.Rewriting
import VerseSearch.Proofs.Search.BlockSearch

/-! # Blocks that are no patterns

The inside of a block is read between `^(?:` and `)$`, and is told to be no pattern if that text is none.

* `not_mem_normalizeBlock`: the pattern of a block holds no `#`, so it has no comments.
* `parseAnchored_normalizeBlock_iff`: when the inside is a pattern between the ends.
* `Repaired.reopens`, `repaired_iff_nesting`: which texts are patterns only between the ends.
* `invalid_iff_inside_invalid`: when a block, or a pattern for the lexicon, is told to be no pattern.
-/

namespace VerseSearch.Query
set_option autoImplicit false

open Pattern (FlagsFirst Reopens parseAnchored)

/-- A substitution for one character leaves none of it. -/
theorem Substitution.not_mem_apply {r : Substitution} {x : Char} (htarget : r.target = [x])
    (hafter : r.notAfter = none) (hinside : x ∉ r.inside) (houtside : x ∉ r.outside) (t : Text) :
    x ∉ r.apply t := by
  suffices h : ∀ previous inside, x ∉ r.applyFrom 0 previous inside t from h none false
  induction t with
  | nil => exact fun _ _ => List.not_mem_nil
  | cons c t ih =>
    intro previous inside
    rw [applyFrom_cons htarget hafter, List.mem_append, not_or]
    refine ⟨?_, ih _ _⟩
    split
    · cases inside with
      | false => exact houtside
      | true => exact hinside
    · next hc => exact fun hmem => hc (List.mem_singleton.mp hmem).symm

theorem not_mem_normalizeBlock (p : Text) : '#' ∉ normalizeBlock p :=
  Substitution.not_mem_apply rfl rfl (by decide) (by decide) _

theorem exists_error_iff {ε α : Type} (x : Except ε α) : (∃ e, x = .error e) ↔ ¬∃ a, x = .ok a := by
  cases x <;> simp

/-- A text that is no pattern by itself, because a parenthesis closes no group of it, and is one between the
ends, where the parenthesis closes the group around the text. -/
def Repaired [Pattern.CharNames] (t : Text) : Prop :=
  (∃ f, Pattern.parse t = .error (.fault f) ∧ f.what = .unopenedGroup) ∧
    ∃ pattern, parseAnchored t = .ok pattern

theorem parseAnchored_normalizeBlock_iff [Pattern.CharNames] (p : Text) :
    (∃ e, parseAnchored (normalizeBlock p) = .error e) ↔
    FlagsFirst (normalizeBlock p) ∨
      (∃ e, Pattern.parse (normalizeBlock p) = .error e) ∧ ¬Repaired (normalizeBlock p) := by
  by_cases hflags : FlagsFirst (normalizeBlock p)
  · obtain ⟨f, hf⟩ := Pattern.parseAnchored_of_flagsFirst hflags
    exact iff_of_true ⟨_, hf⟩ (.inl hflags)
  · rw [or_iff_right hflags]
    obtain hiff | ⟨hunopened, -⟩ := Pattern.parseAnchored_cases (not_mem_normalizeBlock p) hflags
    · rw [exists_error_iff, exists_error_iff, hiff]
      refine ⟨fun herror => ⟨herror, fun hrepaired => herror (hiff.mp hrepaired.2)⟩, And.left⟩
    · rw [exists_error_iff, Repaired, and_iff_right hunopened]
      obtain ⟨f, hf, -⟩ := hunopened
      exact (and_iff_right ⟨_, hf⟩).symm

theorem Repaired.reopens [Pattern.CharNames] {p : Text} (h : Repaired (normalizeBlock p)) : Reopens
    (normalizeBlock p) := by
  obtain ⟨⟨f, hparse, -⟩, pattern, hpattern⟩ := h
  have hflags : ¬FlagsFirst (normalizeBlock p) := fun hflags => by
    obtain ⟨f, hf⟩ := Pattern.parseAnchored_of_flagsFirst hflags
    rw [hpattern] at hf
    cases hf
  obtain hiff | ⟨-, hreopens⟩ := Pattern.parseAnchored_cases (not_mem_normalizeBlock p) hflags
  · obtain ⟨_, hok⟩ := hiff.mp ⟨pattern, hpattern⟩
    rw [hparse] at hok
    cases hok
  · exact hreopens ⟨pattern, hpattern⟩

/-- Where parentheses and bars are all that is notation, a text is repaired if one of its parentheses closes
no group, while inside a group around the text each closes one and one group is open at the end. -/
theorem repaired_iff_nesting [Pattern.CharNames] {p : Text} (hp : IsGrouped p) :
    Repaired (normalizeBlock p) ↔ nestingAfter 0 p = none ∧ nestingAfter 1 p = some 1 := by
  rw [Repaired, exists_parseAnchored_iff_nesting hp]
  refine and_congr_left fun hone => ⟨?_, parse_of_nesting_eq_none hp⟩
  rintro ⟨f, hparse, -⟩
  cases hnesting : nestingAfter 0 p with
  | none => rfl
  | some m =>
    -- what is open after the text is open after it in the group too, so the text would be a pattern
    obtain rfl : m = 0 := by simpa [hone] using nestingAfter_succ hnesting
    obtain ⟨pattern, hpattern⟩ := (exists_parse_iff_nesting hp).mpr hnesting
    rw [hparse] at hpattern
    cases hpattern

/-- A block is told to be no pattern exactly if its inside begins with flags for the whole pattern, or is no
pattern by itself and is not repaired, unless reading it ends at a limit of the notation; and so is a
pattern for the lexicon. Only an inside that opens another group after a closing parenthesis, or that a
backslash ends, is repaired. Where parentheses and bars are all that is notation, the inside is repaired
exactly if one of its parentheses closes no group, while inside a group around it each closes one and one
group is open at the end. -/
theorem invalid_iff_inside_invalid [Pattern.CharNames] [Text.Ranking] (l : Lexicon) (p : Text)
    (verbsOnly : Bool) (limit : ℕ) :
    ((∃ e, resolveBlock l p verbsOnly limit = .error e ∧ e.IsInvalidPattern) ↔
      (FlagsFirst (normalizeBlock p) ∨
        (∃ e, Pattern.parse (normalizeBlock p) = .error e) ∧ ¬Repaired (normalizeBlock p)) ∧
      ∀ lim, parseAnchored (normalizeBlock p) ≠ .error (.limit lim)) ∧
    ((∃ e, findEntries l p verbsOnly = .error e ∧ e.IsInvalidPattern) ↔
      (FlagsFirst (normalizeBlock p) ∨
        (∃ e, Pattern.parse (normalizeBlock p) = .error e) ∧ ¬Repaired (normalizeBlock p)) ∧
      ∀ lim, parseAnchored (normalizeBlock p) ≠ .error (.limit lim)) ∧
    (Repaired (normalizeBlock p) → Reopens (normalizeBlock p)) ∧
    (IsGrouped p →
      (Repaired (normalizeBlock p) ↔ nestingAfter 0 p = none ∧ nestingAfter 1 p = some 1)) := by
  rw [← parseAnchored_normalizeBlock_iff, resolveBlock, findEntries, ← and_assoc]
  refine ⟨?_, Repaired.reopens, repaired_iff_nesting⟩
  cases parseAnchored (normalizeBlock p) with
  | error e =>
    cases e with
    | fault f => simp [PatternError.toCompileError, CompileError.IsInvalidPattern]
    | limit lim => simp [PatternError.toCompileError, CompileError.IsInvalidPattern]
  | ok pattern =>
    dsimp only
    cases l.find pattern verbsOnly with
    | nil => simp [CompileError.IsInvalidPattern]
    | cons entry entries => simp

/-- The parenthesis of a first group that is not opened, and one that opens a second group, are repaired. -/
theorem invalid_iff_inside_invalid_of_closed_group :
    let p := "א)(ב".toList
    Repaired (normalizeBlock p) ∧ Reopens (normalizeBlock p) ∧
      ¬∃ e, resolveBlock ⟨[]⟩ p false 5 = .error e ∧ e.IsInvalidPattern := by
  intro p
  obtain ⟨hblock, -, hreopens, hnesting⟩ := invalid_iff_inside_invalid ⟨[]⟩ p false 5
  have hrepaired : Repaired (normalizeBlock p) := (hnesting (by decide)).mpr (by decide)
  refine ⟨hrepaired, hreopens hrepaired, fun hinvalid => ?_⟩
  obtain ⟨hflags | ⟨-, hnot⟩, -⟩ := hblock.mp hinvalid
  · obtain ⟨letters, -, -, rest, hrest⟩ := hflags
    have hhead : (normalizeBlock p).head? = some 'א' := by decide +kernel
    rw [← hrest] at hhead
    cases hhead
  · exact hnot hrepaired

/-- Flags for the whole pattern come late behind the group. -/
example : (Pattern.parse (normalizeBlock "(?i)אב".toList)).isOk = true ∧
    parseAnchored (normalizeBlock "(?i)אב".toList) = .error (.fault ⟨.lateGlobalFlags, some ⟨4, none⟩⟩) := by
  decide +kernel

end VerseSearch.Query
