import Mathlib.Data.List.Forall2
import VerseSearch.Lexicon.Basic
import VerseSearch.Proofs.Text.Fields

/-! # Tables of entries

* `sizeFor_le_iff`: a table holds the numbers of all its entries.
* `getElem?_ofEntries`: at each place stands the last entry with that number, or a sentinel.
* `getElem?_ofEntries_of_last`: of entries with one number the last one counts.
* `getElem?_ofEntries_spec`, `pairwise_tag`: places are numbers, so entries stand in the order of their numbers.
* `mem_of_mem_ofEntries`: an entry of a table is one of those given, or a sentinel.
* `Row.entry?_eq_some_iff`, `ofRows_eq_ok_iff`: the entries of rows.
-/

namespace VerseSearch
set_option autoImplicit false

theorem mapM_eq_ok_iff {α β ε : Type} {f : α → Except ε β} {xs : List α} {ys : List β} :
    xs.mapM f = .ok ys ↔ List.Forall₂ (fun x y => f x = .ok y) xs ys := by
  induction xs generalizing ys with
  | nil =>
    rw [List.forall₂_nil_left_iff, eq_comm]
    exact Iff.of_eq (Except.ok.injEq ..)
  | cons x xs ih =>
    rw [List.mapM_cons, bind_eq_ok_iff, List.forall₂_cons_left_iff]
    refine exists_congr fun y => ?_
    simp only [bind_eq_ok_iff, ih]
    constructor
    · rintro ⟨hy, rest, hrest, h⟩
      exact ⟨rest, hy, hrest, (Except.ok.inj h).symm⟩
    · rintro ⟨rest, hy, hrest, rfl⟩
      exact ⟨hy, rest, hrest, rfl⟩

theorem Category.ne_unknown : ∀ c ∈ known, c ≠ .unknown := by decide

namespace Lexicon

variable {es : List Entry} {n : ℕ} {e : Entry}

/-! ## Size -/

theorem sizeFor_le_iff {size : ℕ} : sizeFor es ≤ size ↔ ∀ e ∈ es, e.tag < size := by
  have key : ∀ es start, List.foldl (fun n (e : Entry) => max n (e.tag + 1)) start es ≤ size ↔
      start ≤ size ∧ ∀ e ∈ es, e.tag < size := by
    intro es
    induction es with
    | nil => simp
    | cons e es ih =>
      intro start
      rw [List.foldl_cons, ih, Nat.max_le, List.forall_mem_cons, and_assoc, Nat.add_one_le_iff]
  exact (key es 0).trans (and_iff_right (Nat.zero_le _))

theorem tag_lt_sizeFor (he : e ∈ es) : e.tag < sizeFor es := sizeFor_le_iff.mp (Nat.le_refl _) e he

/-! ## Places -/

theorem getElem?_ofEntries (hn : n < sizeFor es) :
    (ofEntries es).entries[n]? = some ((es.reverse.find? fun e => e.tag = n).getD (.sentinel n)) := by
  simp [ofEntries, hn]

theorem getElem?_ofEntries_eq_some (h : (ofEntries es).entries[n]? = some e) :
    n < sizeFor es ∧ (es.reverse.find? fun e => e.tag = n).getD (.sentinel n) = e := by
  have hn : n < sizeFor es := by
    simpa [ofEntries] using (List.getElem?_eq_some_iff.mp h).1
  rw [getElem?_ofEntries hn] at h
  exact ⟨hn, Option.some.inj h⟩

theorem getElem?_ofEntries_spec (h : (ofEntries es).entries[n]? = some e) :
    e.tag = n ∧ (e ∈ es ∨ e = .sentinel n) := by
  obtain ⟨-, rfl⟩ := getElem?_ofEntries_eq_some h
  cases hfound : es.reverse.find? fun e => e.tag = n with
  | none => exact ⟨rfl, .inr rfl⟩
  | some found =>
    have htag := List.find?_some hfound
    have hmem := List.mem_of_find?_eq_some hfound
    exact ⟨by simpa using htag, .inl (List.mem_reverse.mp hmem)⟩

/-- Of entries with one number the last one counts. -/
theorem getElem?_ofEntries_of_last {before after : List Entry}
    (hafter : ∀ later ∈ after, later.tag ≠ e.tag) :
    (ofEntries (before ++ e :: after)).entries[e.tag]? = some e := by
  have hnone : after.reverse.find? (fun later => later.tag = e.tag) = none :=
    List.find?_eq_none.mpr fun later hlater => by simpa using hafter later (List.mem_reverse.mp hlater)
  rw [getElem?_ofEntries (tag_lt_sizeFor (List.mem_append_right _ (List.mem_cons_self ..))),
    List.reverse_append, List.reverse_cons, List.append_assoc, List.find?_append, hnone, Option.none_or,
    List.singleton_append, List.find?_cons_of_pos (by simp), Option.getD_some]

theorem mem_of_mem_ofEntries (h : e ∈ (ofEntries es).entries) : e ∈ es ∨ e = .sentinel e.tag := by
  obtain ⟨n, hn⟩ := List.mem_iff_getElem?.mp h
  obtain ⟨rfl, he⟩ := getElem?_ofEntries_spec hn
  exact he

/-- Entries stand in the order of their numbers. -/
theorem pairwise_tag (es : List Entry) : (ofEntries es).entries.Pairwise (·.tag < ·.tag) := by
  rw [List.pairwise_iff_getElem]
  intro m n hm hn hlt
  rw [(getElem?_ofEntries_spec (List.getElem?_eq_getElem hm)).1,
    (getElem?_ofEntries_spec (List.getElem?_eq_getElem hn)).1]
  exact hlt

/-! ## Rows -/

theorem Row.entry?_eq_some_iff {row : Row} : row.entry? = .ok (some e) ↔
    ∃ tag : ℕ, row.tag = tag ∧ (row.category = .unknown ∧ e = .sentinel tag ∨
      row.category ≠ .unknown ∧ ∃ word form, Hebrew.normalize row.word = .ok word ∧
        Hebrew.searchable word = .ok form ∧ e = ⟨tag, word, row.category, form⟩) := by
  have hplace : ∀ f : ℕ → Entry, (if 0 ≤ row.tag then some (f row.tag.toNat) else none) = some e ↔
      ∃ tag : ℕ, row.tag = tag ∧ e = f tag := by
    intro f
    cases row.tag with
    | ofNat n => simp [eq_comm]
    | negSucc n => simp
  unfold Row.entry?
  by_cases hcat : row.category = .unknown
  · simp only [hcat, if_pos]
    refine (Iff.of_eq (Except.ok.injEq ..)).trans ((hplace _).trans ?_)
    simp
  · rw [if_neg hcat, bind_eq_ok_iff]
    simp only [bind_eq_ok_iff]
    constructor
    · rintro ⟨word, hword, form, hform, h⟩
      obtain ⟨tag, htag, rfl⟩ := (hplace fun tag => ⟨tag, word, row.category, form⟩).mp (Except.ok.inj h)
      exact ⟨tag, htag, .inr ⟨hcat, word, form, hword, hform, rfl⟩⟩
    · rintro ⟨tag, htag, ⟨h, -⟩ | ⟨-, word, form, hword, hform, rfl⟩⟩
      · exact absurd h hcat
      · refine ⟨word, hword, form, hform, congrArg Except.ok ?_⟩
        exact (hplace fun tag => ⟨tag, word, row.category, form⟩).mpr ⟨tag, htag, rfl⟩

theorem ofRows_eq_ok_iff {rows : List Row} {l : Lexicon} : ofRows rows = .ok l ↔
    ∃ found, List.Forall₂ (fun row e => row.entry? = .ok e) rows found ∧
      l = ofEntries (found.filterMap id) := by
  rw [ofRows, bind_eq_ok_iff]
  refine exists_congr fun found => ?_
  rw [mapM_eq_ok_iff, eq_comm (a := l)]
  exact and_congr_right fun _ => Iff.of_eq (Except.ok.injEq ..)

end Lexicon

end VerseSearch
