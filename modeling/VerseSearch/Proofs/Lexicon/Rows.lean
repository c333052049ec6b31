import VerseSearch.Proofs.Hebrew.SearchableForms
import VerseSearch.Proofs.Lexicon.Entries
import VerseSearch.Proofs.Lexicon.RowPattern

/-! # Rows that are written and read

* `Margins`: the white space around a content.
* `WrittenRow`: a row as it is written in a table.
* `Table.cells_around`: the first way to read a written cell is as its content, without white space;
  `Table.findSome?_cells` takes that way.
* `WrittenRow.readRow_text`, `WrittenRow.readLine_text`: a written row is read as it was meant.
* `Lexicon.Writes`: the lines of a table in which rows are written.
* `Lexicon.ofLines_of_writes`: the lexicon of a table is the one of its rows.
-/

namespace VerseSearch
set_option autoImplicit false

theorem Category.ofKnownName?_toName : ∀ c ∈ known, ofKnownName? c.toName = some c := by decide

/-- The name of a known category stands in a cell as it is. -/
theorem Category.toName_spec : ∀ c ∈ known, c.toName.strip = c.toName ∧ c.toName ≠ [] ∧
    '|' ∉ c.toName ∧ '\n' ∉ c.toName := by decide

namespace Lexicon

/-! ## Written rows -/

/-- White space before and after a content. -/
structure Margins where
  before : Text
  after : Text
  blank_before : ∀ c ∈ before, Text.isBlank c = true := by decide
  blank_after : ∀ c ∈ after, Text.isBlank c = true := by decide

/-- A content between its margins. -/
def Margins.around (m : Margins) (t : Text) : Text := m.before ++ t ++ m.after

/-- A row of a table with a known category, a number that is not too great, and a word that normalizes to
one that is not empty. The cell of the word without points and the number of the linked page are not
read. -/
structure WrittenRow where
  word : Text
  plain : Text
  category : Category
  tag : ℕ
  page : Text
  normalized : Text
  aroundWord : Margins
  aroundPlain : Margins
  aroundCategory : Margins
  aroundTag : Margins
  aroundLink : Margins
  bar_notMem_word : '|' ∉ word := by decide
  break_notMem_word : '\n' ∉ word := by decide
  strip_word : word.strip = word := by decide
  normalize_word : Hebrew.normalize word = .ok normalized
  normalized_ne_nil : normalized ≠ [] := by decide
  bar_notMem_plain : '|' ∉ plain := by decide
  break_notMem_plain : '\n' ∉ plain := by decide
  notBlank_plain : plain.isAllBlank = false := by decide
  known : category ∈ Category.known := by decide
  tag_le : tag ≤ 65535 := by decide
  page_ne_nil : page ≠ [] := by decide
  isDigit_page : ∀ c ∈ page, Text.isDigit c = true := by decide

namespace WrittenRow

/-- The link in the last cell. -/
def link (w : WrittenRow) : Text :=
  ['['] ++ w.aroundTag.around (Text.ofNat w.tag) ++ "](https://biblehub.com/hebrew/".toList ++ w.page ++
    ".htm)".toList

/-- The line of the row. -/
def text (w : WrittenRow) : Text :=
  ['|'] ++ w.aroundWord.around w.word ++ ['|'] ++ w.aroundPlain.around w.plain ++ ['|'] ++
    w.aroundCategory.around w.category.toName ++ ['|'] ++ w.aroundLink.around w.link ++ ['|']

/-- What the row says. -/
def toRow (w : WrittenRow) : Row := ⟨w.word, w.category, w.tag⟩

/-- The entry of the row, whose searchable form has the letters of the normalized word. -/
def entry (w : WrittenRow) : Entry :=
  ⟨w.tag, w.normalized, w.category, Hebrew.regularize (Hebrew.keepLetters w.normalized)⟩

end WrittenRow

/-! ## Reading cells -/

namespace Table

theorem leads_eq_cons (t : Text) : ∃ more, leads t = t.stripLeft :: more := by
  induction t with
  | nil => exact ⟨[], rfl⟩
  | cons c t ih =>
    rw [leads, Text.stripLeft]
    split
    · next hc =>
      obtain ⟨more, hmore⟩ := ih
      exact ⟨more ++ [c :: t], by rw [hmore, List.dropWhile_cons_of_pos hc]; rfl⟩
    · next hc => exact ⟨[], by rw [List.dropWhile_cons_of_neg hc]⟩

theorem stripLeft_append {a t : Text} (ha : ∀ c ∈ a, Text.isBlank c = true)
    (ht : ∀ c ∈ t.head?, Text.isBlank c = false) : (a ++ t).stripLeft = t := by
  rw [Text.stripLeft, List.dropWhile_append_of_pos ha]
  cases t with
  | nil => rfl
  | cons c t => rw [List.dropWhile_cons_of_neg (by simp [ht c rfl])]

theorem isPrefixOf?_stripLeft {a u : Text} (ha : ∀ c ∈ a, Text.isBlank c = true) (hne : u ≠ [])
    (hu : ∀ c ∈ u.head?, Text.isBlank c = false) (t : Text) :
    List.isPrefixOf? u (a ++ (u ++ t)).stripLeft = some t := by
  rw [stripLeft_append ha (by rwa [List.head?_append_of_ne_nil _ hne])]
  exact List.isPrefixOf?_eq_some_iff_append_eq.mpr rfl

theorem afterBar?_bar {b : Text} (hb : ∀ c ∈ b, Text.isBlank c = true) (rest : Text) :
    afterBar? (b ++ '|' :: rest) = some rest := by
  rw [afterBar?_eq]
  exact isPrefixOf?_stripLeft hb (by decide) (by decide) rest

/-- No cell ends within its content. -/
theorem afterBar?_content {u : Text} (hne : u ≠ []) (hbar : '|' ∉ u)
    (hlast : ∀ c ∈ u.getLast?, Text.isBlank c = false) (t : Text) : afterBar? (u ++ t) = none := by
  -- the content does not end with white space, so something of it is left after the white space is dropped
  have hdrop : u.dropWhile Text.isBlank ≠ [] := fun hnil => by
    have hblank := List.dropWhile_eq_nil_iff.mp hnil _ (List.getLast_mem hne)
    rw [hlast _ (List.getLast?_eq_some_getLast hne)] at hblank
    cases hblank
  rw [afterBar?, List.dropWhile_append, if_neg (by simpa using hdrop)]
  split
  · next rest heq =>
    obtain ⟨v, hv⟩ := (List.append_eq_cons_iff.mp heq).resolve_left fun h => hdrop h.1
    have hmem : '|' ∈ u.dropWhile Text.isBlank := hv.1 ▸ List.mem_cons_self ..
    exact absurd ((List.dropWhile_suffix _).subset hmem) hbar
  · rfl

/-- The first end of a cell is the one of its content. -/
theorem cellsFrom_content {u b : Text} (hne : u ≠ []) (hbar : '|' ∉ u) (hbreak : '\n' ∉ u)
    (hlast : ∀ c ∈ u.getLast?, Text.isBlank c = false) (hb : ∀ c ∈ b, Text.isBlank c = true)
    (cell rest : Text) :
    ∃ more, cellsFrom cell (u ++ (b ++ '|' :: rest)) = (cell.reverse ++ u, rest) :: more := by
  induction u generalizing cell with
  | nil => exact absurd rfl hne
  | cons c u ih =>
    obtain ⟨hc, hbreak⟩ := List.ne_and_not_mem_of_not_mem_cons hbreak
    obtain ⟨-, hbar⟩ := List.ne_and_not_mem_of_not_mem_cons hbar
    rw [List.cons_append, cellsFrom, if_neg hc.symm]
    cases u with
    | nil =>
      rw [List.nil_append, afterBar?_bar hb]
      exact ⟨_, by rw [List.reverse_cons]⟩
    | cons d u =>
      obtain ⟨more, hmore⟩ := ih (by simp) hbar hbreak (by simpa using hlast) (c :: cell)
      rw [afterBar?_content (by simp) hbar (by simpa using hlast), hmore]
      exact ⟨more, by simp⟩

/-- The first way to read a cell is as its content. -/
theorem cells_around {t : Text} (hne : t.strip ≠ []) (hbar : '|' ∉ t) (hbreak : '\n' ∉ t) (m : Margins)
    (rest : Text) : ∃ more, cells (m.around t ++ '|' :: rest) = (t.strip, rest) :: more := by
  obtain ⟨a, b, ht, ha, hb, hhead, hlast⟩ := Text.strip_spec t
  have hsub : ∀ c ∈ t.strip, c ∈ t := fun c hc => by
    rw [ht]
    exact List.mem_append_left _ (List.mem_append_right _ hc)
  -- white space at the ends of the content counts as margin
  have hline : m.around t ++ '|' :: rest =
      (m.before ++ a) ++ (t.strip ++ ((b ++ m.after) ++ '|' :: rest)) := by
    rw [Margins.around]
    conv_lhs => rw [ht]
    simp only [List.append_assoc]
  obtain ⟨ways, hways⟩ := leads_eq_cons (m.around t ++ '|' :: rest)
  rw [hline, stripLeft_append (List.forall_mem_append.mpr ⟨m.blank_before, ha⟩)
    (by rwa [List.head?_append_of_ne_nil _ hne])] at hways
  obtain ⟨more, hcell⟩ := cellsFrom_content hne (fun h => hbar (hsub _ h)) (fun h => hbreak (hsub _ h))
    hlast (List.forall_mem_append.mpr ⟨hb, m.blank_after⟩) [] rest
  rw [cells, hline, hways, List.flatMap_cons, hcell]
  exact ⟨_, rfl⟩

theorem findSome?_cells {β : Type} {f : Text × Text → Option β} {t : Text} (hne : t.strip ≠ [])
    (hbar : '|' ∉ t) (hbreak : '\n' ∉ t) (m : Margins) {rest : Text} {b : β}
    (h : f (t.strip, rest) = some b) : (cells (m.around t ++ '|' :: rest)).findSome? f = some b := by
  obtain ⟨more, hmore⟩ := cells_around hne hbar hbreak m rest
  rw [hmore, List.findSome?_cons, h]

/-! ## Reading the link -/

theorem readDigits?_append {u : Text} (hne : u ≠ []) (hu : ∀ c ∈ u, Text.isDigit c = true) {t : Text}
    (ht : ∀ c ∈ t.head?, Text.isDigit c = false) : readDigits? (u ++ t) = some (u, t) := by
  have hrest : t.takeWhile Text.isDigit = [] ∧ t.dropWhile Text.isDigit = t := by
    cases t with
    | nil => exact ⟨rfl, rfl⟩
    | cons c t => simp [ht c rfl]
  rw [readDigits?_eq, List.takeWhile_append_of_pos hu, List.dropWhile_append_of_pos hu, hrest.1, hrest.2,
    List.append_nil, if_neg (by simpa using hne)]

end Table

namespace WrittenRow

variable (w : WrittenRow)

/-- The digits of a link are the ones of the number of its row. -/
theorem readLink_link : Table.readLink (w.aroundLink.around w.link ++ ['|']) = some (Text.ofNat w.tag) := by
  have htext : w.aroundLink.around w.link ++ ['|'] = w.aroundLink.before ++ (['['] ++ (w.aroundTag.before ++
      (Text.ofNat w.tag ++ (w.aroundTag.after ++ (Table.linkStart ++ (w.page ++ (Table.linkEnd ++
        (w.aroundLink.after ++ ['|'])))))))) := by
    simp only [Margins.around, link, List.append_assoc]
    rfl
  have hdigits : ∀ c ∈ (Text.ofNat w.tag).head?, Text.isBlank c = false := fun c hc =>
    Text.isBlank_of_mem_ofNat c (List.mem_of_head? hc)
  have hmargin : ∀ t : Text, ∀ c ∈ (w.aroundTag.after ++ (Table.linkStart ++ t)).head?,
      Text.isDigit c = false := by
    intro t c hc
    rw [List.head?_append, Option.mem_def, Option.or_eq_some_iff] at hc
    obtain hc | ⟨-, hc⟩ := hc
    · exact Text.isDigit_of_isBlank (w.aroundTag.blank_after c (List.mem_of_head? hc))
    · obtain rfl : ']' = c := Option.some.inj hc
      decide
  have hpage : ∀ t : Text, ∀ c ∈ (Table.linkEnd ++ t).head?, Text.isDigit c = false := by
    rintro t c ⟨⟩
    decide
  rw [htext, Table.readLink_eq,
    Table.isPrefixOf?_stripLeft w.aroundLink.blank_before (by decide) (by decide),
    Option.bind_some, Table.stripLeft_append w.aroundTag.blank_before
      (by rwa [List.head?_append_of_ne_nil _ (Text.ofNat_ne_nil w.tag)]),
    Table.readDigits?_append (Text.ofNat_ne_nil w.tag) Text.isDigit_of_mem_ofNat (hmargin _), Option.bind_some,
    Table.isPrefixOf?_stripLeft w.aroundTag.blank_after (by decide) (by decide), Option.bind_some,
    Table.readDigits?_append w.page_ne_nil w.isDigit_page (hpage _), Option.bind_some,
    List.isPrefixOf?_eq_some_iff_append_eq.mpr rfl, Option.bind_some,
    Table.stripLeft_append w.aroundLink.blank_after (by decide), if_pos rfl]

/-- A written row is read cell by cell. -/
theorem readRow_text : Table.readRow w.text = some (w.word, w.category.toName, Text.ofNat w.tag) := by
  have hword : w.word.strip ≠ [] := by
    rw [w.strip_word]
    intro hnil
    have hempty : Hebrew.normalize [] = .ok [] := Hebrew.normalize_of_plain (by simp)
    have hok := w.normalize_word
    rw [hnil, hempty] at hok
    exact w.normalized_ne_nil (Except.ok.inj hok).symm
  obtain ⟨hname, hnamed, hbar, hbreak⟩ := Category.toName_spec w.category w.known
  have htext : w.text = [] ++ '|' :: (w.aroundWord.around w.word ++ '|' :: (w.aroundPlain.around w.plain ++
      '|' :: (w.aroundCategory.around w.category.toName ++ '|' :: (w.aroundLink.around w.link ++ ['|'])))) := by
    simp only [text, List.append_assoc, List.cons_append, List.nil_append]
  rw [htext, Table.readRow_eq, Table.afterBar?_bar (by simp), Option.bind_some]
  refine Table.findSome?_cells hword w.bar_notMem_word w.break_notMem_word _ ?_
  refine Table.findSome?_cells (Text.strip_ne_nil w.notBlank_plain) w.bar_notMem_plain
    w.break_notMem_plain _ ?_
  refine Table.findSome?_cells (hname.symm ▸ hnamed) hbar hbreak _ ?_
  rw [w.readLink_link, w.strip_word, hname, Option.map_some]

/-! ## Entries of written rows -/

theorem searchable_normalized :
    Hebrew.searchable w.normalized = .ok (Hebrew.regularize (Hebrew.keepLetters w.normalized)) :=
  Hebrew.searchable_of_normalize (Hebrew.normalize_of_normalize w.normalize_word)

theorem readLine_text (number : ℕ) : Table.readLine number w.text = .ok (some w.entry) := by
  have hread : Text.readNat (Text.ofNat w.tag) = .ok w.tag :=
    Text.readNat_ofNat (Text.lt_of_lt_fiveDigits (Nat.lt_of_le_of_lt w.tag_le (by decide)))
  have hle : ¬ Table.maxTag < w.tag := Nat.not_lt.mpr w.tag_le
  have hentry : Table.entryOf number w.text w.word w.category.toName (Text.ofNat w.tag) = .ok w.entry := by
    simp only [Table.entryOf, Category.ofKnownName?_toName w.category w.known, hread, if_neg hle,
      w.normalize_word, List.isEmpty_eq_false_iff.mpr w.normalized_ne_nil, w.searchable_normalized,
      Bool.false_eq_true, if_false, entry]
  rw [Table.readLine, w.readRow_text]
  simp only [hentry, Except.map]

theorem entry?_toRow : w.toRow.entry? = .ok (some w.entry) :=
  Row.entry?_eq_some_iff.mpr ⟨w.tag, rfl, .inr ⟨Category.ne_unknown _ w.known, w.normalized, _,
    w.normalize_word, w.searchable_normalized, rfl⟩⟩

theorem dropLineEnd_text {ending : Text} (h : ∀ c ∈ ending, c = '\r' ∨ c = '\n') :
    Text.dropLineEnd (w.text ++ ending) = w.text := by
  rw [Text.dropLineEnd, Text.dropRightWhile_append_of_pos (by simpa using h), text]
  exact Text.dropRightWhile_append (by decide) (by decide) _

end WrittenRow

/-! ## Tables -/

/-- The lines of a table in which rows are written, each with any line ends after it, among lines that
the pattern of rows does not match. -/
inductive Writes [Pattern.CharNames] : List Text → List WrittenRow → Prop
  | nil : Writes [] []
  | row {lines : List Text} {rows : List WrittenRow} (w : WrittenRow) {ending : Text}
      (hending : ∀ c ∈ ending, c = '\r' ∨ c = '\n') (hrest : Writes lines rows) :
      Writes ((w.text ++ ending) :: lines) (w :: rows)
  | other {lines : List Text} {rows : List WrittenRow} {line : Text}
      (hline : ¬ Table.MatchesRow (Text.dropLineEnd line)) (hrest : Writes lines rows) :
      Writes (line :: lines) rows

/-- The entries of the rows that are written in some lines are read in order, after those already read. -/
theorem readLines_of_writes [Pattern.CharNames] {lines : List Text} {rows : List WrittenRow}
    (h : Writes lines rows) (number : ℕ) (done : List Entry) :
    Table.readLines number done lines = .ok (done.reverse ++ rows.map (·.entry)) := by
  induction h generalizing number done with
  | nil => rw [Table.readLines, List.map_nil, List.append_nil]
  -- what is done grows with each row, so the hypothesis is for any number and any entries done
  | row w hending _ ih =>
    rw [Table.readLines, w.dropLineEnd_text hending, w.readLine_text]
    simp only [ih, List.reverse_cons, List.append_assoc, List.singleton_append, List.map_cons]
  | other hline _ ih =>
    rw [Table.readLines, Table.readLine_of_not_matchesRow hline]
    exact ih _ _

theorem ofRows_toRow (rows : List WrittenRow) :
    ofRows (rows.map (·.toRow)) = .ok (ofEntries (rows.map (·.entry))) := by
  refine ofRows_eq_ok_iff.mpr ⟨rows.map fun w => some w.entry, ?_, ?_⟩
  · rw [List.forall₂_map_left_iff, List.forall₂_map_right_iff]
    exact List.forall₂_same.mpr fun w _ => w.entry?_toRow
  · simp [List.filterMap_map]

/-- The lexicon of a table is the one of the rows that are written in it, and of rows with one number the
last one counts. -/
theorem ofLines_of_writes [Pattern.CharNames] {lines : List Text} {rows : List WrittenRow}
    (h : Writes lines rows) :
    ∃ l, ofLines lines = .ok l ∧ ofRows (rows.map (·.toRow)) = .ok l ∧
      ∀ before w after, rows = before ++ w :: after → (∀ later ∈ after, later.tag ≠ w.tag) →
        l.get? w.tag = some w.entry := by
  refine ⟨ofEntries (rows.map (·.entry)), ?_, ofRows_toRow rows, ?_⟩
  · rw [ofLines, readLines_of_writes h]
    rfl
  · rintro before w after rfl hafter
    rw [List.map_append, List.map_cons]
    refine getElem?_ofEntries_of_last (e := w.entry) fun later hlater => ?_
    obtain ⟨v, hv, rfl⟩ := List.mem_map.mp hlater
    exact hafter v hv

/-- A row with one blank on either side of each content. -/
def fatherRow : WrittenRow where
  word := "אָב".toList
  plain := "אב".toList
  category := .noun
  tag := 1
  page := "1".toList
  normalized := "אָב".toList
  aroundWord := { before := [' '], after := [' '] }
  aroundPlain := { before := [' '], after := [' '] }
  aroundCategory := { before := [' '], after := [' '] }
  aroundTag := { before := [' '], after := [' '] }
  aroundLink := { before := [' '], after := [' '] }
  normalize_word := by decide +kernel

/-- Another row with the same number, whose word ends with a maqaf. -/
def roadRow : WrittenRow where
  word := "דֶּרֶךְ־".toList
  plain := "- -".toList
  category := .properName
  tag := 1
  page := "01870".toList
  normalized := "דֶּרֶךְ".toList
  aroundWord := { before := [], after := [' ', ' '] }
  aroundPlain := { before := [' '], after := [] }
  aroundCategory := { before := [], after := [] }
  aroundTag := { before := [], after := [' '] }
  aroundLink := { before := [], after := [' '] }
  normalize_word := by decide +kernel

theorem ofLines_of_father_road :
    let lines := ["| Word | Plain | Type | Link |\n".toList,
      "| אָב | אב | Noun | [ 1 ](https://biblehub.com/hebrew/1.htm) |\n".toList,
      "|דֶּרֶךְ־  | - -|Name|[1 ](https://biblehub.com/hebrew/01870.htm) |\r\n".toList]
    Writes lines [fatherRow, roadRow] ∧ ∃ l, ofLines lines = .ok l ∧
      ofRows [⟨"אָב".toList, .noun, 1⟩, ⟨"דֶּרֶךְ־".toList, .properName, 1⟩] = .ok l ∧
      l.get? 1 = some ⟨1, "דֶּרֶךְ".toList, .properName, "דרכ".toList⟩ := by
  intro lines
  have hheader : ¬ Table.MatchesRow (Text.dropLineEnd "| Word | Plain | Type | Link |\n".toList) :=
    (Table.readRow_eq_none_iff (by decide +kernel)).mp (by decide +kernel)
  have hlines : lines = ["| Word | Plain | Type | Link |\n".toList, fatherRow.text ++ ['\n'],
      roadRow.text ++ ['\r', '\n']] := by decide +kernel
  have hwrites : Writes lines [fatherRow, roadRow] := by
    rw [hlines]
    exact .other hheader (.row fatherRow (by decide) (.row roadRow (by decide) .nil))
  have hentry : roadRow.entry = ⟨1, "דֶּרֶךְ".toList, .properName, "דרכ".toList⟩ := by decide +kernel
  obtain ⟨l, hread, hrows, hlast⟩ := ofLines_of_writes hwrites
  exact ⟨hwrites, l, hread, hrows, hentry ▸ hlast [fatherRow] roadRow [] rfl (by simp)⟩

end Lexicon

end VerseSearch
