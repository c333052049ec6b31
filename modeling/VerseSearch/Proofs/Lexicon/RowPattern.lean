import VerseSearch.Lexicon.Table
import VerseSearch.Proofs.Matching.Names
import VerseSearch.Proofs.Matching.Ways
import VerseSearch.Proofs.Text.Fields

/-! # The pattern of a row

The rows of a table are told by a pattern with three groups. Reading a row by its cells gives what these
groups hold.

* `parse_rowSource`: the pattern as a node.
* `yields_cell`, `yields_link`: the cells of a row and its link, each followed by what comes after it.
* `heldAtStart_rowNode`: a line matches the pattern exactly if it is read as a row, and the groups hold
  its word, its category and the digits of its number.
* `MatchesRow`: the pattern matches a line; a line that it does not match has no entry.
-/

namespace VerseSearch.Lexicon.Table
set_option autoImplicit false

open Pattern (CharSet Node Yields Continuation longest shortest oneMore)

/-! ## The pattern -/

/-- The pattern of a row. -/
def rowSource : Text :=
  ("^\\s*\\|\\s*(.+?)\\s*\\|\\s*.+?\\s*\\|\\s*(.+?)\\s*\\|" ++
    "\\s*\\[\\s*(\\d+)\\s*]\\(https://biblehub\\.com/hebrew/\\d+\\.htm\\)\\s*\\|$").toList

def blankSet : CharSet := { items := [.category .blank false] }

def digitSet : CharSet := { items := [.category .digit false] }

/-- All characters but the line feed. -/
def lineSet : CharSet := { items := [.code 10], negated := true }

def blanks : Node := .loop .greedy 0 none (.one blankSet)

def number : Node := .loop .greedy 1 none (.one digitSet)

def content : Node := .loop .lazy 1 none (.one lineSet)

def textNodes (u : Text) : List Node := u.map fun c => .one (.single c)

/-- A cell and the bar after it. -/
def cellNodes (n : Node) : List Node := [blanks] ++ ([n] ++ ([blanks] ++ textNodes ['|']))

def linkNodes : List Node :=
  [blanks] ++ (textNodes ['['] ++ ([blanks] ++ ([.group 3 (.seq [number])] ++ ([blanks] ++
    (textNodes linkStart ++ ([number] ++ (textNodes linkEnd ++ ([blanks] ++
      (textNodes ['|'] ++ [.anchor .lastLineEnd])))))))))

def rowNode : Node :=
  .cat (.anchor .textStart) (.seq ([blanks] ++ (textNodes ['|'] ++ (cellNodes (.group 1 (.seq [content])) ++
    (cellNodes content ++ (cellNodes (.group 2 (.seq [content])) ++ linkNodes))))))

theorem parse_rowSource [Pattern.CharNames] : Pattern.parse rowSource = .ok ⟨rowNode⟩ :=
  Pattern.parse_of_namesNone (by decide +kernel) (by decide +kernel)

@[simp] theorem accepts_blankSet : blankSet.accepts = Text.isBlank := by
  funext c
  simp [CharSet.accepts, CharSet.itemAccepts, Pattern.Category.accepts, blankSet]

@[simp] theorem accepts_digitSet : digitSet.accepts = Text.isDigit := by
  funext c
  simp [CharSet.accepts, CharSet.itemAccepts, Pattern.Category.accepts, digitSet]

@[simp] theorem accepts_lineSet (c : Char) : lineSet.accepts c = true ↔ c ≠ '\n' := by
  have hcode : [c.toNat].contains 10 = true ↔ c = '\n' := by
    rw [List.contains_iff_mem, List.mem_singleton, eq_comm]
    exact Char.toNat_inj (d := '\n')
  simp only [CharSet.accepts, CharSet.itemAccepts, CharSet.variants, lineSet, List.any_cons, List.any_nil,
    Bool.or_false, Bool.false_eq_true, if_false, bne_iff_ne]
  exact not_congr hcode

/-! ## Taking as much as there is -/

section
variable {β : Type} {p : Char → Bool}

/-- If nothing comes of leaving a character that could be taken, as many as there are are taken. -/
theorem findSome?_longest {G : Text → Text → Option β}
    (hG : ∀ u c t, p c = true → G u (c :: t) = none) (t : Text) :
    (longest p t).findSome? (fun x => G x.1 x.2) = G (t.takeWhile p) (t.dropWhile p) := by
  induction t generalizing G with
  | nil => simp [longest]
  | cons c t ih =>
    rw [longest]
    cases hc : p c with
    | true =>
      have hrest := ih (G := fun u => G (c :: u)) fun u d t hd => hG (c :: u) d t hd
      simp only [if_true, List.findSome?_append, List.findSome?_map, Function.comp_def]
      rw [hrest, List.takeWhile_cons_of_pos hc, List.dropWhile_cons_of_pos hc, List.findSome?_singleton,
        hG [] c t hc, Option.or_none]
    | false => simp [hc]

theorem findSome?_oneMore {G : Text → Text → Option β}
    (hG : ∀ u c t, p c = true → G u (c :: t) = none) (t : Text) :
    (oneMore p (longest p) t).findSome? (fun x => G x.1 x.2) =
      if (t.takeWhile p).isEmpty then none else G (t.takeWhile p) (t.dropWhile p) := by
  cases t with
  | nil => rfl
  | cons c t =>
    rw [oneMore]
    cases hc : p c with
    | true =>
      have hrest := findSome?_longest (G := fun u => G (c :: u)) (fun u d t hd => hG (c :: u) d t hd) t
      simp only [if_true, List.findSome?_map, Function.comp_def]
      rw [hrest, List.takeWhile_cons_of_pos hc, List.dropWhile_cons_of_pos hc]
      rfl
    | false => simp [hc]

end

theorem readDigits?_eq (t : Text) : readDigits? t = if (t.takeWhile Text.isDigit).isEmpty then none
    else some (t.takeWhile Text.isDigit, t.dropWhile Text.isDigit) := rfl

/-! ## Parts of the pattern -/

section
variable {text : Text} {k : Continuation} {F : (ℕ → Option Text) → Text → Option (ℕ → Option Text)}
  (h : Yields text k F)
include h

theorem yields_text (u : Text) : Yields text ((Node.seq (textNodes u)).run text.toArray k)
    fun held rest => (List.isPrefixOf? u rest).bind (F held) := by
  refine ((Pattern.takes_text u).yields h).congr fun held rest => ?_
  rw [Pattern.exactly]
  cases List.isPrefixOf? u rest <;> simp

theorem yields_blanks (hF : ∀ held c t, Text.isBlank c = true → F held (c :: t) = none) :
    Yields text ((Node.seq [blanks]).run text.toArray k) fun held rest => F held rest.stripLeft := by
  have hyields := (Pattern.takes_greedy blankSet).seq_singleton.yields h
  rw [accepts_blankSet] at hyields
  exact hyields.congr fun held rest =>
    findSome?_longest (G := fun _ => F held) (fun _ c t hc => hF held c t hc) rest

omit h in
theorem findSome?_number (G : Text → Text → Option (ℕ → Option Text))
    (hG : ∀ u c t, Text.isDigit c = true → G u (c :: t) = none) (t : Text) :
    (oneMore Text.isDigit (longest Text.isDigit) t).findSome? (fun x => G x.1 x.2) =
      (readDigits? t).bind fun x => G x.1 x.2 := by
  rw [findSome?_oneMore hG, readDigits?_eq]
  split <;> rfl

theorem yields_number (hF : ∀ held c t, Text.isDigit c = true → F held (c :: t) = none) :
    Yields text ((Node.seq [number]).run text.toArray k) fun held rest =>
      (readDigits? rest).bind fun x => F held x.2 := by
  have hyields := (Pattern.takes_plus digitSet).seq_singleton.yields h
  rw [accepts_digitSet] at hyields
  exact hyields.congr fun held => findSome?_number (fun _ => F held) fun _ => hF held

theorem yields_numberGroup (index : ℕ)
    (hF : ∀ held c t, Text.isDigit c = true → F held (c :: t) = none) :
    Yields text ((Node.seq [.group index (.seq [number])]).run text.toArray k) fun held rest =>
      (readDigits? rest).bind fun x => F (Function.update held index (some x.1)) x.2 := by
  have hyields := (Pattern.takes_plus digitSet).seq_singleton.yields_group h index
  rw [accepts_digitSet] at hyields
  exact hyields.congr fun held =>
    findSome?_number (fun u => F (Function.update held index (some u))) fun _ => hF _

end

/-! ## Cells -/

theorem leads_eq (t : Text) : leads t = (longest Text.isBlank t).map (·.2) := by
  induction t with
  | nil => rfl
  | cons c t ih =>
    rw [leads, longest]
    split <;> simp [ih, Function.comp_def]

theorem findSome?_flatMap {α β γ : Type} (xs : List α) (f : α → List β) (g : β → Option γ) :
    (xs.flatMap f).findSome? g = xs.findSome? fun x => (f x).findSome? g := by
  induction xs with
  | nil => rfl
  | cons x xs ih =>
    rw [List.flatMap_cons, List.findSome?_append, ih, List.findSome?_cons]
    cases (f x).findSome? g <;> rfl

/-- A cell ends before white space and a bar, the first place first. -/
theorem findSome?_cellsFrom {β : Type} (f : Text × Text → Option β) (cell t : Text) :
    (cellsFrom cell t).findSome? f =
      (oneMore lineSet.accepts (shortest lineSet.accepts) t).findSome? fun x =>
        (afterBar? x.2).bind fun after => f (cell.reverse ++ x.1, after) := by
  induction t generalizing cell with
  | nil => rfl
  | cons c t ih =>
    rw [cellsFrom, oneMore]
    by_cases hc : c = '\n'
    · have hnot : lineSet.accepts c = false := Bool.eq_false_iff.mpr (by simp [hc])
      rw [if_pos hc, hnot]
      rfl
    · rw [if_neg hc, if_pos ((accepts_lineSet c).mpr hc), Pattern.shortest_eq]
      simp only [List.map_cons, List.findSome?_cons, List.findSome?_map, Function.comp_def]
      cases hbar : afterBar? t with
      | none => simp [ih]
      | some after => simp [ih, List.findSome?_cons]

/-- A text does not begin with a character of a class if the beginning sought is not one. -/
theorem isPrefixOf?_of_class {p : Char → Bool} {u : Text} {d : Char} (hu : u.head? = some d)
    (hd : p d = false) {c : Char} (hc : p c = true) (t : Text) :
    List.isPrefixOf? u (c :: t) = none := by
  cases u with
  | nil => cases hu
  | cons e u =>
    obtain rfl := Option.some.inj hu
    refine if_neg fun heq => ?_
    obtain rfl := beq_iff_eq.mp heq
    rw [hc] at hd
    cases hd

theorem afterBar?_eq (t : Text) : afterBar? t = List.isPrefixOf? ['|'] t.stripLeft := by
  rw [afterBar?, Text.stripLeft]
  rcases t.dropWhile Text.isBlank with _ | ⟨c, rest⟩
  · rfl
  · by_cases hc : c = '|'
    · simp [hc, List.isPrefixOf?]
    · simp [List.isPrefixOf?, hc, Ne.symm hc]

section
variable {text : Text} {k : Continuation} {F : (ℕ → Option Text) → Text → Option (ℕ → Option Text)}
  (h : Yields text k F)
include h

/-- A cell whose content is held somehow, and the bar after it. -/
theorem yields_cell {n : Node} (hold : (ℕ → Option Text) → Text → ℕ → Option Text)
    (hn : ∀ {k F}, Yields text k F → Yields text (n.run text.toArray k) fun held rest =>
      (oneMore lineSet.accepts (shortest lineSet.accepts) rest).findSome? fun x =>
        F (hold held x.1) x.2) :
    Yields text ((Node.seq (cellNodes n)).run text.toArray k) fun held rest =>
      (cells rest).findSome? fun x => F (hold held x.1) x.2 := by
  have hend := (yields_blanks (yields_text h ['|']) fun held c t hc => by
    rw [isPrefixOf?_of_class rfl (by decide) hc, Option.bind_none]).congr fun held rest =>
      congrArg (·.bind (F held)) (afterBar?_eq rest).symm
  have hcell := (Pattern.takes_greedy blankSet).seq_singleton.yields (hn hend)
  rw [accepts_blankSet] at hcell
  rw [cellNodes, Pattern.run_seq_append, Pattern.run_seq_append, Pattern.run_seq_append]
  refine hcell.congr fun held rest => ?_
  rw [cells, findSome?_flatMap, leads_eq, List.findSome?_map]
  exact Pattern.findSome?_congr fun x _ =>
    (findSome?_cellsFrom (fun y => F (hold held y.1) y.2) [] x.2).symm

theorem yields_cellGroup (index : ℕ) :
    Yields text ((Node.seq (cellNodes (.group index (.seq [content])))).run text.toArray k)
      fun held rest => (cells rest).findSome? fun x => F (Function.update held index (some x.1)) x.2 :=
  yields_cell h (fun held u => Function.update held index (some u)) fun h =>
    (Pattern.takes_lazyPlus lineSet).seq_singleton.yields_group h index

theorem yields_cellSkipped : Yields text ((Node.seq (cellNodes content)).run text.toArray k)
    fun held rest => (cells rest).findSome? fun x => F held x.2 :=
  yields_cell h (fun held _ => held) fun h => (Pattern.takes_lazyPlus lineSet).yields h

end

/-! ## The link -/

theorem bind_if_nil {β : Type} (t : Text) (b : β) :
    ((List.isPrefixOf? ['|'] t).bind fun rest => if rest = [] then some b else none) =
      if t = ['|'] then some b else none := by
  rcases t with _ | ⟨c, t⟩
  · rfl
  · by_cases hc : c = '|'
    · simp [hc, List.isPrefixOf?]
    · simp [List.isPrefixOf?, hc, Ne.symm hc]

theorem head?_link : linkStart.head? = some ']' ∧ linkEnd.head? = some '.' := by decide

theorem readLink_eq (t : Text) : readLink t =
    (List.isPrefixOf? ['['] t.stripLeft).bind fun inner : Text =>
      (readDigits? inner.stripLeft).bind fun digits =>
        (List.isPrefixOf? linkStart digits.2.stripLeft).bind fun page =>
          (readDigits? page).bind fun x => (List.isPrefixOf? linkEnd x.2).bind fun rest : Text =>
            if rest.stripLeft = ['|'] then some digits.1 else none := rfl

/-- The link that ends a row, in a text with no line feed at its end. -/
theorem yields_link {text : Text} (hlast : text.getLast? ≠ some '\n') :
    Yields text ((Node.seq linkNodes).run text.toArray some) fun held rest =>
      (readLink rest).map fun digits => Function.update held 3 (some digits) := by
  have hend := (yields_text ((Pattern.yields_some text).lastLineEnd hlast) ['|']).congr fun held rest =>
    bind_if_nil rest held
  have hbar := yields_blanks hend fun held c t hc => if_neg fun heq => by
    obtain ⟨rfl, -⟩ := List.cons.inj heq
    exact absurd hc (by decide)
  have hpage := yields_number (yields_text hbar linkEnd) fun held c t hc => by
    rw [isPrefixOf?_of_class head?_link.2 (by decide) hc, Option.bind_none]
  have hstart := yields_blanks (yields_text hpage linkStart) fun held c t hc => by
    rw [isPrefixOf?_of_class head?_link.1 (by decide) hc, Option.bind_none]
  have hdigits := yields_numberGroup hstart 3 fun held c t hc => by
    rw [Text.stripLeft, List.dropWhile_cons_of_neg (by simp [Text.isBlank_of_isDigit hc]),
      isPrefixOf?_of_class head?_link.1 (by decide) hc, Option.bind_none]
  have hinner := yields_blanks hdigits fun held c t hc => by
    rw [readDigits?_eq, List.takeWhile_cons_of_neg (by simp [Text.isDigit_of_isBlank hc])]
    rfl
  have hopen := yields_blanks (yields_text hinner ['[']) fun held c t hc => by
    rw [isPrefixOf?_of_class rfl (by decide) hc, Option.bind_none]
  simp only [linkNodes, Pattern.run_seq_append]
  refine hopen.congr fun held rest => ?_
  simp only [readLink_eq, Option.map_bind, Function.comp_def, Option.map_if]

/-! ## Rows -/

theorem readRow_eq (line : Text) : readRow line = (afterBar? line).bind fun start =>
    (cells start).findSome? fun x => (cells x.2).findSome? fun y => (cells y.2).findSome? fun z =>
      (readLink z.2).map fun digits => (x.1, z.1, digits) := by
  rw [readRow, afterBar?]
  split <;> rfl

/-- A line matches the pattern of rows exactly if it is read as a row, and the groups hold what is read. -/
theorem heldAtStart_rowNode {line : Text} (hlast : line.getLast? ≠ some '\n') :
    (Pattern.heldAtStart ⟨rowNode⟩ line).map (fun held => (held 1, held 2, held 3)) =
      (readRow line).map fun row => (some row.1, some row.2.1, some row.2.2) := by
  have hcells := yields_cellGroup (yields_cellSkipped (yields_cellGroup (yields_link hlast) 2)) 1
  have hrow := yields_blanks (yields_text hcells ['|']) fun held c t hc => by
    rw [isPrefixOf?_of_class rfl (by decide) hc, Option.bind_none]
  have hrun := hrow [] line { pos := 0 } rfl rfl
  simp only [← Pattern.run_seq_append] at hrun
  have hstart : Pattern.heldAtStart ⟨rowNode⟩ line = _ := hrun
  rw [hstart, readRow_eq, ← afterBar?_eq]
  simp only [Option.map_bind, Function.comp_def, List.map_findSome?, Option.map_map]
  rfl

/-- The pattern of rows matches at the start of a line. -/
def MatchesRow [Pattern.CharNames] (line : Text) : Prop :=
  ∃ p held, Pattern.parse rowSource = .ok p ∧ Pattern.heldAtStart p line = some held

theorem readRow_eq_none_iff [Pattern.CharNames] {line : Text} (hlast : line.getLast? ≠ some '\n') :
    readRow line = none ↔ ¬ MatchesRow line := by
  have hread := heldAtStart_rowNode hlast
  have hmatches : MatchesRow line ↔ ∃ held, Pattern.heldAtStart ⟨rowNode⟩ line = some held := by
    simp [MatchesRow, parse_rowSource]
  rw [hmatches]
  cases hheld : Pattern.heldAtStart ⟨rowNode⟩ line with
  | none => simpa [hheld, eq_comm] using hread
  | some held =>
    cases hrow : readRow line with
    | none => simp [hheld, hrow] at hread
    | some row => simp

theorem dropLineEnd_getLast? (line : Text) : (Text.dropLineEnd line).getLast? ≠ some '\n' := fun hlast =>
  absurd (Text.of_getLast?_dropRightWhile hlast) (by decide)

theorem readLine_of_not_matchesRow [Pattern.CharNames] {line : Text}
    (h : ¬ MatchesRow (Text.dropLineEnd line)) (number : ℕ) :
    readLine number (Text.dropLineEnd line) = .ok none := by
  rw [readLine, (readRow_eq_none_iff (dropLineEnd_getLast? line)).mpr h]

end VerseSearch.Lexicon.Table
