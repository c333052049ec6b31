import VerseSearch.Proofs.Matching.Denotation

/-! # From the text of a pattern to its language

A text that is put together from characters, bracket expressions, loops and groups is read piece by
piece, and the language of the pattern is put together in the same way.

* `Reading.Calm`: the states in which no mode is on and nothing is owed to the end of the text.
* `ReadsOne`: a text that adds one part to the current branch, whatever comes after it.
* `ReadsAs`: a text that adds parts to the current branch, unless a sign of an appetite comes next.
* `ReadsChoice`: a text that fills a new group with branches.
* `parse_of_readsAs`: a text that is read as a language is a pattern for that language.
* `parse_of_readItems_error`: a text that begins with a bracket expression that is wrong is none.
-/

namespace VerseSearch.Pattern
set_option autoImplicit false

open Computability

/-! ## States -/

/-- No mode is on, and nothing has been read that is checked only at the end. -/
structure Reading.Calm (r : Reading) : Prop where
  modes : r.modes = {}
  wanted : r.wanted = []
  loose : r.loose = false
  asciiFlag : r.asciiFlag = false
  unicodeFlag : r.unicodeFlag = false

/-- A later state of the same branch, with some parts added in front. -/
structure Reading.Adds (r r' : Reading) (pieces : List Piece) : Prop where
  calm : r'.Calm
  outer : r'.outer = r.outer
  frame : r'.frame = { r.frame with pieces := pieces ++ r.frame.pieces }

/-- A later state of the same group, in which the branches from the current one on are known. -/
structure Reading.Fills (r r' : Reading) (branches : List Node) : Prop where
  calm : r'.Calm
  outer : r'.outer = r.outer
  opener : r'.frame.opener = r.frame.opener
  outerModes : r'.frame.outerModes = r.frame.outerModes
  branches : (r'.frame.branch :: r'.frame.branches).reverse = r.frame.branches.reverse ++ branches

/-- The groups that do nothing but hold branches, with or without a number. -/
def Opener.IsGroup (opener : Opener) : Prop := opener = .plain ∨ ∃ index, opener = .capture index

/-- The text does not begin with a sign of the appetite of a loop. -/
def NoAppetite (rest : List Char) : Prop := ∀ c ∈ rest.head?, c ≠ '?' ∧ c ≠ '+'

theorem NoAppetite.cons {c : Char} (h : c ≠ '?' ∧ c ≠ '+') (rest : Text) :
    NoAppetite (c :: rest) := by
  rintro d hd
  obtain rfl : c = d := by simpa using hd
  exact h

theorem NoAppetite.append {s t : Text} (hs : NoAppetite s) (ht : NoAppetite t) :
    NoAppetite (s ++ t) := by
  cases s with
  | nil => exact ht
  | cons c s => exact hs

theorem Reading.Adds.refl {r : Reading} (h : r.Calm) : r.Adds r [] := ⟨h, rfl, rfl⟩

theorem Reading.Adds.trans {r r' r'' : Reading} {ps qs : List Piece} (h : r.Adds r' ps)
    (h' : r'.Adds r'' qs) : r.Adds r'' (qs ++ ps) := by
  refine ⟨h'.calm, h'.outer.trans h.outer, ?_⟩
  rw [h'.frame, h.frame]
  simp only [List.append_assoc]

theorem Reading.adds_push {r : Reading} (h : r.Calm) (node : Node) (kind : PieceKind) :
    r.Adds (r.push node kind) [⟨node, kind⟩] :=
  ⟨⟨h.modes, h.wanted, h.loose, h.asciiFlag, h.unicodeFlag⟩, rfl, rfl⟩

theorem Reading.Calm.setNode {r : Reading} (h : r.Calm) (negated : Bool) (items : List SetItem) :
    r.setNode negated items = .one { items, negated } := by
  rw [Reading.setNode, h.modes]

/-! ## Steps -/

theorem Reading.run_of_step [CharNames] {r r' : Reading} {pos count : ℕ} {c : Char} {rest : List Char}
    (h : r.step pos c rest = .ok (r', count)) :
    r.run pos (c :: rest) = r'.run (pos + 1 + count) (rest.drop count) := by
  rw [run, h]

/-- The characters that mean something in a pattern. -/
def signs : Text := ['|', ')', '(', '[', '\\', '.', '^', '$', '*', '+', '?', '\x7b']

namespace Reading.Calm
variable [CharNames] {r : Reading} (h : r.Calm) (pos : ℕ)
include h

theorem step_char {c : Char} (hc : c ∉ signs) (rest : List Char) :
    r.step pos c rest = .ok (r.pushChar c, 0) := by
  unfold Reading.step
  simp only [h.modes, Bool.false_and, Bool.false_eq_true, if_false]
  split <;> first | rfl | exact absurd (by decide) hc

theorem step_digit (rest : List Char) :
    r.step pos '\\' ('d' :: rest) = .ok (r.pushSet false [.category .digit false], 1) := by
  unfold Reading.step
  simp only [h.modes, Bool.false_and, Bool.false_eq_true, if_false]
  rfl

theorem step_set (rest : List Char) :
    r.step pos '[' rest = (readBracket pos rest).map fun (negated, items, count) =>
      (r.pushSet negated items, count) := by
  unfold Reading.step
  simp only [h.modes, Bool.false_and, Bool.false_eq_true, if_false]

/-- The signs of loops without a bound, each with its least number of rounds. -/
theorem step_loop {c : Char} {least : ℕ} (hc : (c, least) ∈ [('*', 0), ('+', 1)])
    (rest : List Char) : r.step pos c rest = r.repeatLast pos (pos + 1) least none rest := by
  simp only [List.mem_cons, Prod.mk.injEq, List.not_mem_nil, or_false] at hc
  unfold Reading.step
  obtain ⟨rfl, rfl⟩ | ⟨rfl, rfl⟩ := hc <;>
    simp only [h.modes, Bool.false_and, Bool.false_eq_true, if_false]

theorem step_bar (rest : List Char) : r.step pos '|' rest = (r.nextBranch pos).map (·, 0) := by
  unfold Reading.step
  simp only [h.modes, Bool.false_and, Bool.false_eq_true, if_false]

theorem step_close (rest : List Char) : r.step pos ')' rest = (r.close pos).map (·, 0) := by
  unfold Reading.step
  simp only [h.modes, Bool.false_and, Bool.false_eq_true, if_false]

theorem step_open {rest : List Char} (hrest : rest.head? ≠ some '?') :
    r.step pos '(' rest = (r.openCapture pos none).map (·, 0) := by
  unfold Reading.step
  simp only [h.modes, Bool.false_and, Bool.false_eq_true, if_false]
  split
  · exact absurd rfl hrest
  · rfl

theorem step_openPlain (rest : List Char) :
    r.step pos '(' ('?' :: ':' :: rest) = .ok (r.openFrame .plain pos {}, 2) := by
  unfold Reading.step
  simp only [h.modes, Bool.false_and, Bool.false_eq_true, if_false]
  rw [stepExtension, h.modes]

end Reading.Calm

/-! ## Bracket expressions -/

/-- The signs that mean something inside brackets. -/
def setSigns : Text := ['^', '-', '\\', ']']

section
variable [CharNames]

theorem readItems_close {items : List SetItem} (h : items ≠ []) (start pos : ℕ) (rest : List Char) :
    readItems start pos items (']' :: rest) = .ok (items.reverse, pos + 1) := by
  rw [readItems]
  simp [h]

theorem readSetItem_code {c : Char} (hc : c ∉ setSigns) (pos : ℕ) (rest : List Char) :
    readSetItem pos (c :: rest) = .ok (.code c.toNat, 1) := by
  unfold readSetItem
  split
  · next heq =>
    obtain ⟨rfl, -⟩ := List.cons.inj heq
    exact absurd (by decide) hc
  · next heq =>
    obtain ⟨rfl, -⟩ := List.cons.inj heq
    rfl
  · next heq => cases heq

theorem readItems_code {c : Char} {rest : List Char} (hc : c ∉ setSigns)
    (hrest : rest.head? ≠ some '-') (start pos : ℕ) (items : List SetItem) :
    readItems start pos items (c :: rest) = readItems start (pos + 1) (.code c.toNat :: items) rest := by
  have hclose : c ≠ ']' := fun h => hc (h ▸ by decide)
  rw [readItems]
  simp only [hclose, decide_false, Bool.false_and, Bool.false_eq_true, if_false,
    readSetItem_code hc, Nat.sub_self, List.drop_zero]
  split
  · exact absurd rfl hrest
  · exact absurd rfl hrest
  · exact absurd rfl hrest
  · rfl

theorem readItems_range {a b : Char} (ha : a ∉ setSigns) (hb : b ∉ setSigns)
    (hle : a.toNat ≤ b.toNat) (start pos : ℕ) (items : List SetItem) (rest : List Char) :
    readItems start pos items (a :: '-' :: b :: rest) =
      readItems start (pos + 3) (.range a.toNat b.toNat :: items) rest := by
  have hclose : a ≠ ']' := fun h => ha (h ▸ by decide)
  have hb' : b ≠ ']' := fun h => hb (h ▸ by decide)
  have hrange : ∀ lo hi after, rangeOf lo hi after (.code a.toNat) (.code b.toNat) =
      .ok (.range a.toNat b.toNat) := by
    intro lo hi after
    rw [rangeOf, if_neg (Nat.not_lt.mpr hle)]
  rw [readItems]
  simp only [hclose, decide_false, Bool.false_and, Bool.false_eq_true, if_false,
    readSetItem_code ha, Nat.sub_self, List.drop_zero]
  split
  · next heq => simp at heq
  · next heq => exact absurd (List.cons.inj (List.cons.inj heq).2).1 hb'
  · next that _ _ heq =>
    obtain rfl : b :: rest = that := by simpa using heq
    simp only [readSetItem_code hb, hrange]
    rfl
  · next hother => exact absurd rfl (hother _)

theorem readItems_badRange {a b : Char} (ha : a ∉ setSigns) (hb : b ∉ setSigns)
    (hlt : b.toNat < a.toNat) (start pos : ℕ) (items : List SetItem) (rest : List Char) :
    readItems start pos items (a :: '-' :: b :: rest) = fail (.badRange [a] [b]) pos (pos + 3) := by
  have hclose : a ≠ ']' := fun h => ha (h ▸ by decide)
  have hb' : b ≠ ']' := fun h => hb (h ▸ by decide)
  have hrange : ∀ lo hi after, rangeOf lo hi after (.code a.toNat) (.code b.toNat) =
      fail (.badRange lo hi) (after - (lo.length + 1 + hi.length)) after := by
    intro lo hi after
    rw [rangeOf, if_pos hlt]
  have htoken : ∀ c, c ∉ setSigns → ∀ rest, token (c :: rest) = [c] := by
    intro c hc rest
    unfold token
    split
    · next heq => exact absurd ((List.cons.inj heq).1 ▸ hc) (by decide)
    · next heq => rw [(List.cons.inj heq).1]
    · next heq => cases heq
  rw [readItems]
  simp only [hclose, decide_false, Bool.false_and, Bool.false_eq_true, if_false,
    readSetItem_code ha, Nat.sub_self, List.drop_zero]
  split
  · next heq => simp at heq
  · next heq => exact absurd (List.cons.inj (List.cons.inj heq).2).1 hb'
  · next that _ _ heq =>
    obtain rfl : b :: rest = that := by simpa using heq
    simp only [readSetItem_code hb, hrange, htoken a ha, htoken b hb]
    rfl
  · next hother => exact absurd rfl (hother _)

theorem readItems_codes {cs : Text} (hcs : ∀ c ∈ cs, c ∉ setSigns) (start pos : ℕ)
    (items : List SetItem) (hne : items ≠ [] ∨ cs ≠ []) (rest : List Char) :
    readItems start pos items (cs ++ ']' :: rest) =
      .ok (items.reverse ++ cs.map fun c => .code c.toNat, pos + cs.length + 1) := by
  induction cs generalizing pos items with
  | nil =>
    rw [List.nil_append, readItems_close (by simpa using hne)]
    simp
  | cons c cs ih =>
    have hhead : (cs ++ ']' :: rest).head? ≠ some '-' := by
      cases cs with
      | nil => simp
      | cons d cs =>
        have hd := hcs d (by simp)
        rintro h
        obtain rfl : d = '-' := by simpa using h
        exact hd (by decide)
    rw [List.cons_append, readItems_code (hcs c (by simp)) hhead,
      ih (fun d hd => hcs d (by simp [hd])) _ _ (.inl (by simp))]
    simp [Nat.add_right_comm, Nat.add_assoc]

end

/-! ## Texts and the languages they are read as -/

section
variable [CharNames]

/-- The text adds one part to the current branch, whatever comes after it. -/
def ReadsOne (source : Text) (L : Language Char) : Prop :=
  ∀ (r : Reading) (pos : ℕ) (rest : Text), r.Calm → ∃ r' node,
    r.run pos (source ++ rest) = r'.run (pos + source.length) rest ∧
      r.Adds r' [⟨node, .other⟩] ∧ node.Denotes L

/-- The text adds parts to the current branch, unless a sign of an appetite comes after it. -/
def ReadsAs (source : Text) (L : Language Char) : Prop :=
  ∀ (r : Reading) (pos : ℕ) (rest : Text), r.Calm → NoAppetite rest → ∃ r' pieces,
    r.run pos (source ++ rest) = r'.run (pos + source.length) rest ∧
      r.Adds r' pieces ∧ (Node.seq (pieces.reverse.map (·.node))).Denotes L

/-- The text fills a new group with branches, unless a sign of an appetite comes after it. -/
def ReadsChoice (source : Text) (Ls : List (Language Char)) : Prop :=
  ∀ (r : Reading) (pos : ℕ) (rest : Text), r.Calm → r.frame.pieces = [] → r.frame.opener.IsGroup →
    NoAppetite rest → ∃ r' branches,
      r.run pos (source ++ rest) = r'.run (pos + source.length) rest ∧
        r.Fills r' branches ∧ List.Forall₂ Node.Denotes branches Ls

/-! ## Single characters -/

theorem readsOne_char {c : Char} (hc : c ∉ signs) : ReadsOne [c] {[c]} := by
  intro r pos rest hr
  refine ⟨r.pushChar c, _, Reading.run_of_step (hr.step_char pos hc rest), Reading.adds_push hr _ _, ?_⟩
  rw [hr.setNode, ← CharSet.language_single]
  exact .one _

theorem readsOne_digit : ReadsOne ['\\', 'd'] (oneWith fun c => Text.isDigit c = true) := by
  intro r pos rest hr
  refine ⟨_, _, Reading.run_of_step (hr.step_digit pos rest), Reading.adds_push hr _ _, ?_⟩
  rw [hr.setNode]
  have h : ∀ c, ({ items := [.category .digit false] } : CharSet).accepts c = Text.isDigit c := by
    intro c
    simp [CharSet.accepts, CharSet.itemAccepts, Category.accepts]
  refine ⟨trivial, fun before u after => ?_⟩
  simp only [Node.Matches, h]
  rfl

theorem readsOne_items {cs : Text} {items : List SetItem} (hhead : cs.head? ≠ some '^')
    (h : ∀ start pos rest, readItems start pos [] (cs ++ ']' :: rest) =
      .ok (items, pos + cs.length + 1)) :
    ReadsOne ('[' :: cs ++ [']']) ({ items } : CharSet).language := by
  intro r pos rest hr
  have hbracket : readBracket pos (cs ++ ']' :: rest) = .ok (false, items, cs.length + 1) := by
    unfold readBracket
    split
    · next heq =>
      cases cs with
      | nil => simp at heq
      | cons c cs => exact absurd (congrArg some (List.cons.inj heq).1) hhead
    · rw [h]
      simp only [Except.map]
      congr 3
      omega
  have hstep := hr.step_set pos (cs ++ ']' :: rest)
  rw [hbracket] at hstep
  refine ⟨r.pushSet false items, _, ?_, Reading.adds_push hr _ _, ?_⟩
  · rw [List.append_assoc, List.cons_append, List.cons_append, List.nil_append,
      Reading.run_of_step hstep]
    simp [Nat.add_assoc, Nat.add_comm 1]
  · rw [hr.setNode]
    exact .one _

theorem readsOne_set (cs : Text) (hne : cs ≠ []) (hcs : ∀ c ∈ cs, c ∉ setSigns) :
    ReadsOne ('[' :: cs ++ [']']) (oneOf cs) := by
  have hhead : cs.head? ≠ some '^' := fun h => hcs '^' (List.mem_of_head? h) (by decide)
  have h := readsOne_items hhead fun start pos rest =>
    readItems_codes hcs start pos [] (.inr hne) rest
  rw [List.reverse_nil, List.nil_append] at h
  rwa [CharSet.language_codes] at h

/-! ## Parts in a row -/

theorem ReadsOne.readsAs {source : Text} {L : Language Char} (h : ReadsOne source L) :
    ReadsAs source L := by
  intro r pos rest hr _
  obtain ⟨r', node, hrun, hadds, hnode⟩ := h r pos rest hr
  exact ⟨r', _, hrun, hadds, hnode.seq_singleton⟩

theorem readsAs_nil : ReadsAs [] 1 := fun r _ _ hr _ => ⟨r, [], rfl, .refl hr, .empty⟩

theorem ReadsAs.append {s t : Text} {L M : Language Char} (hs : ReadsAs s L) (ht : ReadsAs t M)
    (hhead : NoAppetite t) : ReadsAs (s ++ t) (L * M) := by
  intro r pos rest hr hrest
  have hnext : NoAppetite (t ++ rest) := by
    cases t with
    | nil => exact hrest
    | cons c t => exact hhead
  obtain ⟨r₁, ps, hrun₁, hadds₁, hnode₁⟩ := hs r pos (t ++ rest) hr hnext
  obtain ⟨r₂, qs, hrun₂, hadds₂, hnode₂⟩ := ht r₁ (pos + s.length) rest hadds₁.calm hrest
  refine ⟨r₂, qs ++ ps, ?_, hadds₁.trans hadds₂, ?_⟩
  · rw [List.append_assoc, hrun₁, hrun₂, List.length_append, Nat.add_assoc]
  · rw [List.reverse_append, List.map_append]
    exact hnode₁.seq_append hnode₂

theorem readsAs_flatMap {f : Char → Text} {L : Char → Language Char} {t : Text}
    (h : ∀ c ∈ t, ReadsAs (f c) (L c)) (hhead : ∀ c ∈ t, NoAppetite (f c)) :
    ReadsAs (t.flatMap f) (t.map L).prod ∧ NoAppetite (t.flatMap f) := by
  induction t with
  | nil => exact ⟨readsAs_nil, by simp [NoAppetite]⟩
  | cons c t ih =>
    obtain ⟨hrest, hnext⟩ := ih (fun d hd => h d (by simp [hd])) fun d hd => hhead d (by simp [hd])
    rw [List.flatMap_cons, List.map_cons, List.prod_cons]
    exact ⟨(h c (by simp)).append hrest hnext, (hhead c (by simp)).append hnext⟩

theorem readsAs_text {t : Text} (h : ∀ c ∈ t, c ∉ signs) : ReadsAs t {t} ∧ NoAppetite t := by
  have hhead : ∀ c ∈ t, NoAppetite [c] := fun c hc => by
    refine .cons ⟨?_, ?_⟩ []
    · rintro rfl
      exact h '?' hc (by decide)
    · rintro rfl
      exact h '+' hc (by decide)
  have hprod : ∀ t : Text, (t.map fun c => ({[c]} : Language Char)).prod = {t} := by
    intro t
    induction t with
    | nil => rfl
    | cons c t ih =>
      rw [List.map_cons, List.prod_cons, ih]
      exact Set.image2_singleton
  have hreads := readsAs_flatMap (fun c hc => (readsOne_char (h c hc)).readsAs) hhead
  rwa [List.flatMap_singleton', hprod] at hreads

end

/-! ## Loops -/

theorem repeatLast_greedy {r r' : Reading} {node : Node} (h : r.Adds r' [⟨node, .other⟩])
    (least pos after : ℕ) {rest : Text} (hrest : NoAppetite rest) :
    ∃ r'', r'.repeatLast pos after least none rest = .ok (r'', 0) ∧
      r.Adds r'' [⟨.loop .greedy least none node, .loop⟩] := by
  have hpieces : r'.frame.pieces = ⟨node, .other⟩ :: r.frame.pieces := by
    rw [h.frame]
    rfl
  refine ⟨{ r' with
    frame := { r'.frame with pieces := ⟨.loop .greedy least none node, .loop⟩ :: r.frame.pieces }
    firstLoop := some (r'.firstLoop.getD .greedy) }, ?_,
    ⟨h.calm.modes, h.calm.wanted, h.calm.loose, h.calm.asciiFlag, h.calm.unicodeFlag⟩, h.outer, ?_⟩
  · unfold Reading.repeatLast
    simp only [hpieces]
    split
    · exact absurd rfl (hrest '?' rfl).1
    · exact absurd rfl (hrest '+' rfl).2
    · rfl
  · simp only [h.frame]
    rfl

section
variable [CharNames]

theorem readsAs_repeat {sign : Char} {least : ℕ} (hsign : (sign, least) ∈ [('*', 0), ('+', 1)])
    {source : Text} {L M : Language Char} (h : ReadsOne source L)
    (hloop : ∀ {n : Node}, n.Denotes L → (Node.loop .greedy least none n).Denotes M) :
    ReadsAs (source ++ [sign]) M := by
  intro r pos rest hr hrest
  obtain ⟨r₁, node, hrun, hadds, hnode⟩ := h r pos (sign :: rest) hr
  obtain ⟨r₂, hrepeat, hadds₂⟩ :=
    repeatLast_greedy hadds least (pos + source.length) (pos + source.length + 1) hrest
  refine ⟨r₂, _, ?_, hadds₂, (hloop hnode).seq_singleton⟩
  rw [← hadds.calm.step_loop _ hsign] at hrepeat
  rw [List.append_assoc, List.singleton_append, hrun, Reading.run_of_step hrepeat]
  simp [Nat.add_assoc]

theorem ReadsOne.star {source : Text} {L : Language Char} (h : ReadsOne source L) :
    ReadsAs (source ++ ['*']) L∗ :=
  readsAs_repeat (by simp) h .star

theorem ReadsOne.plus {source : Text} {L : Language Char} (h : ReadsOne source L) :
    ReadsAs (source ++ ['+']) (L * L∗) :=
  readsAs_repeat (by simp) h .plus

/-! ## Branches and groups -/

theorem ReadsAs.readsChoice {source : Text} {L : Language Char} (h : ReadsAs source L) :
    ReadsChoice source [L] := by
  intro r pos rest hr hpieces _ hrest
  obtain ⟨r', pieces, hrun, hadds, hnode⟩ := h r pos rest hr hrest
  refine ⟨r', [r'.frame.branch], hrun, ⟨hadds.calm, hadds.outer, ?_, ?_, ?_⟩, .cons ?_ .nil⟩
  · rw [hadds.frame]
  · rw [hadds.frame]
  · rw [List.reverse_cons, hadds.frame]
  · rw [Frame.branch, hadds.frame]
    simpa only [hpieces, List.append_nil] using hnode

end

theorem Reading.nextBranch_of_isGroup {r : Reading} (h : r.frame.opener.IsGroup) (pos : ℕ) :
    r.nextBranch pos = .ok { r with
      frame := { r.frame with branches := r.frame.branch :: r.frame.branches, pieces := [] } } := by
  unfold nextBranch
  obtain h | ⟨index, h⟩ := h <;> rw [h]

theorem ReadsAs.bar [CharNames] {s t : Text} {L : Language Char} {Ls : List (Language Char)}
    (hs : ReadsAs s L) (ht : ReadsChoice t Ls) : ReadsChoice (s ++ '|' :: t) (L :: Ls) := by
  intro r pos rest hr hpieces hgroup hrest
  obtain ⟨r₁, branches₁, hrun₁, hfills₁, hnodes₁⟩ :=
    hs.readsChoice r pos ('|' :: (t ++ rest)) hr hpieces hgroup (.cons (by decide) _)
  have hgroup₁ : r₁.frame.opener.IsGroup := hfills₁.opener ▸ hgroup
  have hstep := hfills₁.calm.step_bar (pos + s.length) (t ++ rest)
  rw [Reading.nextBranch_of_isGroup hgroup₁] at hstep
  obtain ⟨r₂, branches₂, hrun₂, hfills₂, hnodes₂⟩ := ht
    { r₁ with frame :=
      { r₁.frame with branches := r₁.frame.branch :: r₁.frame.branches, pieces := [] } }
    (pos + s.length + 1) rest
    ⟨hfills₁.calm.modes, hfills₁.calm.wanted, hfills₁.calm.loose, hfills₁.calm.asciiFlag,
      hfills₁.calm.unicodeFlag⟩ rfl hgroup₁ hrest
  refine ⟨r₂, branches₁ ++ branches₂, ?_, ⟨hfills₂.calm, hfills₂.outer.trans hfills₁.outer,
    hfills₂.opener.trans hfills₁.opener, hfills₂.outerModes.trans hfills₁.outerModes, ?_⟩,
    List.rel_append hnodes₁ hnodes₂⟩
  · rw [List.append_assoc, List.cons_append, hrun₁, Reading.run_of_step hstep, List.drop_zero,
      Nat.add_zero, hrun₂, List.length_append, List.length_cons]
    congr 1
    omega
  · rw [hfills₂.branches, hfills₁.branches, List.append_assoc]

/-- Texts with bars between them are read as their languages, one branch for each. -/
theorem readsChoice_intercalate [CharNames] {ts : List Text} {Ls : List (Language Char)} (hne : ts ≠ [])
    (h : List.Forall₂ ReadsAs ts Ls) : ReadsChoice (List.intercalate ['|'] ts) Ls := by
  induction h with
  | nil => exact absurd rfl hne
  | cons ht hrest ih =>
    cases hrest with
    | nil =>
      rw [List.intercalate_singleton]
      exact ht.readsChoice
    | cons hu hrest =>
      rw [List.intercalate_cons_cons, List.append_assoc, List.singleton_append]
      exact ht.bar (ih (by simp))

/-- A closing parenthesis adds the branches that fill a group to the branch around it. -/
theorem Reading.Fills.close {r r₁ r₂ : Reading} {branches : List Node}
    (hgroup : r₁.frame.opener.IsGroup) (hbranches : r₁.frame.branches = [])
    (hmodes : r₁.frame.outerModes = {}) (houter : r₁.outer = r.frame :: r.outer)
    (h : r₁.Fills r₂ branches) (pos : ℕ) :
    ∃ r₃ node, r₂.close pos = .ok r₃ ∧ r.Adds r₃ [⟨node, .other⟩] ∧
      ∀ L, (Node.choice branches).Denotes L → node.Denotes L := by
  have hnode : r₂.frame.node = .choice branches := by
    rw [Frame.node, h.branches, hbranches, List.reverse_nil, List.nil_append]
  have hcalm : ∀ widths node, ({ r₂ with widths := widths }.leave r.frame r.outer node).Calm :=
    fun _ _ => ⟨h.outerModes.trans hmodes, h.calm.wanted, h.calm.loose, h.calm.asciiFlag,
      h.calm.unicodeFlag⟩
  rw [← h.opener] at hgroup
  unfold Reading.close
  rw [h.outer, houter]
  obtain hopener | ⟨index, hopener⟩ := hgroup
  · refine ⟨r₂.leave r.frame r.outer r₂.frame.node, r₂.frame.node, by rw [hopener],
      ⟨hcalm r₂.widths _, rfl, rfl⟩, fun L hL => ?_⟩
    rwa [hnode]
  · let widths := (index, r₂.frame.node.width r₂.groupWidth) :: r₂.widths
    refine ⟨{ r₂ with widths }.leave r.frame r.outer (.group index r₂.frame.node),
      .group index r₂.frame.node, by rw [hopener]; rfl, ⟨hcalm _ _, rfl, rfl⟩, fun L hL => ?_⟩
    rw [hnode]
    exact hL.group index

section
variable [CharNames]

/-- A group is read as one part if its opening takes what follows as its branches. -/
theorem readsOne_group (opening : Text) {body : Text} {Ls : List (Language Char)}
    (h : ReadsChoice body Ls)
    (hne : Ls ≠ [])
    (hopen : ∀ (r : Reading) (pos : ℕ) (rest : Text), r.Calm → ∃ r₁ : Reading, r₁.Calm ∧
      r₁.frame.opener.IsGroup ∧ r₁.frame.pieces = [] ∧ r₁.frame.branches = [] ∧
      r₁.frame.outerModes = {} ∧ r₁.outer = r.frame :: r.outer ∧
      r.run pos (opening ++ (body ++ ')' :: rest)) =
        r₁.run (pos + opening.length) (body ++ ')' :: rest)) :
    ReadsOne (opening ++ (body ++ [')'])) Ls.sum := by
  intro r pos rest hr
  obtain ⟨r₁, hcalm, hgroup, hpieces, hbranches, hmodes, houter, hrun₁⟩ := hopen r pos rest hr
  obtain ⟨r₂, branches, hrun₂, hfills, hnodes⟩ :=
    h r₁ (pos + opening.length) (')' :: rest) hcalm hpieces hgroup (.cons (by decide) _)
  have hbranchesne : branches ≠ [] := by
    rintro rfl
    exact hne (List.forall₂_nil_left_iff.mp hnodes)
  obtain ⟨r₃, node, hclose, hadds, hnode⟩ :=
    hfills.close hgroup hbranches hmodes houter (pos + opening.length + body.length)
  have hstep := hfills.calm.step_close (pos + opening.length + body.length) rest
  rw [hclose] at hstep
  refine ⟨r₃, node, ?_, hadds, hnode _ (.choice hnodes hbranchesne)⟩
  rw [List.append_assoc, List.append_assoc, List.singleton_append, hrun₁, hrun₂,
    Reading.run_of_step hstep]
  simp [Nat.add_assoc]

theorem ReadsChoice.capture {body : Text} {Ls : List (Language Char)} (h : ReadsChoice body Ls)
    (hne : Ls ≠ []) (hhead : body.head? ≠ some '?') : ReadsOne ('(' :: (body ++ [')'])) Ls.sum := by
  refine readsOne_group ['('] h hne fun r pos rest hr => ?_
  have hnext : (body ++ ')' :: rest).head? ≠ some '?' := by
    cases body with
    | nil => simp
    | cons c body => exact hhead
  have hstep := hr.step_open pos hnext
  refine ⟨_, ?_, .inr ⟨_, rfl⟩, rfl, rfl, ?_, rfl, Reading.run_of_step hstep⟩
  · exact ⟨hr.modes, hr.wanted, hr.loose, hr.asciiFlag, hr.unicodeFlag⟩
  · exact hr.modes

theorem ReadsChoice.plain {body : Text} {Ls : List (Language Char)} (h : ReadsChoice body Ls)
    (hne : Ls ≠ []) : ReadsOne ('(' :: '?' :: ':' :: (body ++ [')'])) Ls.sum := by
  refine readsOne_group ['(', '?', ':'] h hne fun r pos rest hr => ?_
  have hstep := hr.step_openPlain pos (body ++ ')' :: rest)
  refine ⟨_, ?_, .inl rfl, rfl, rfl, ?_, rfl, Reading.run_of_step hstep⟩
  · exact ⟨rfl, hr.wanted, hr.loose, hr.asciiFlag, hr.unicodeFlag⟩
  · exact hr.modes

end

/-! ## Whole patterns -/

theorem splitFinalBackslash_of_getLast? {cs : Text} (h : cs.getLast? ≠ some '\\') :
    splitFinalBackslash cs = (cs, false) := by
  fun_induction splitFinalBackslash cs with
  | case1 => rfl
  | case2 => exact absurd rfl h
  | case3 c rest cs found heq ih =>
    have hrest : rest.getLast? ≠ some '\\' := by
      cases rest with
      | nil => simp
      | cons d rest => simpa [List.getLast?_cons_cons] using h
    rw [heq] at ih
    obtain ⟨rfl, rfl⟩ := Prod.mk.inj (ih hrest)
    rfl
  | case4 c rest hfinal hescape cs found heq ih =>
    have hrest : rest.getLast? ≠ some '\\' := by
      cases rest with
      | nil => simp
      | cons d rest => simpa [List.getLast?_cons_cons] using h
    rw [heq] at ih
    obtain ⟨rfl, rfl⟩ := Prod.mk.inj (ih hrest)
    rfl

/-- A text that adds parts to the pattern, and owes nothing at its end, is the pattern of these parts. -/
theorem parse_of_adds [CharNames] {source : Text} {r : Reading} {pieces : List Piece}
    (hrun : ({} : Reading).run 0 source = r.run source.length []) (hadds : ({} : Reading).Adds r pieces)
    (hlast : source.getLast? ≠ some '\\') :
    Pattern.parse source = .ok ⟨.seq (pieces.reverse.map (·.node))⟩ := by
  rw [Reading.run] at hrun
  have hframe : r.frame.node = .seq (pieces.reverse.map (·.node)) := by
    rw [hadds.frame]
    simp [Frame.node, Frame.branch, Node.choice]
  have hfinish : r.finish source.length = .ok (.seq (pieces.reverse.map (·.node))) := by
    rw [Reading.finish, hadds.outer, hadds.calm.asciiFlag, hadds.calm.wanted, hframe]
    rfl
  have hbody : parseBody source = .ok (r, .seq (pieces.reverse.map (·.node))) := by
    simp only [parseBody, hrun, bind, Except.bind, hfinish]
    rfl
  rw [Pattern.parse, splitFinalBackslash_of_getLast? hlast]
  simp only [hbody, hadds.calm.modes, hadds.calm.loose]
  rfl

theorem Reading.calm_start : ({} : Reading).Calm := ⟨rfl, rfl, rfl, rfl, rfl⟩

/-- A text that is read as a language is a pattern for that language. -/
theorem parse_of_readsAs [CharNames] {source : Text} {L : Language Char} (h : ReadsAs source L)
    (hlast : source.getLast? ≠ some '\\') :
    ∃ p, Pattern.parse source = .ok p ∧ p.node.Denotes L := by
  obtain ⟨r, pieces, hrun, hadds, hnode⟩ := h {} 0 [] Reading.calm_start (by simp [NoAppetite])
  rw [List.append_nil, Nat.zero_add] at hrun
  exact ⟨_, parse_of_adds hrun hadds hlast, hnode⟩

/-- A text that is wrong in the bracket expression with which it begins is no pattern. -/
theorem parse_of_readItems_error [CharNames] {cs : Text} {what : Problem} {offset noticed : ℕ}
    (hhead : cs.head? ≠ some '^') (hlast : cs.getLast? ≠ some '\\')
    (h : readItems 0 1 [] cs = fail what offset noticed) :
    Pattern.parse ('[' :: cs) = .error (.fault ⟨what, some (.of ('[' :: cs) offset)⟩) := by
  have hbracket : readBracket 0 cs = .error ⟨.problem what offset, noticed⟩ := by
    unfold readBracket
    split
    · exact absurd rfl hhead
    · rw [Nat.zero_add, h]
      rfl
  have hstep := Reading.calm_start.step_set 0 cs
  rw [hbracket] at hstep
  have hrun : ({} : Reading).run 0 ('[' :: cs) = .error ⟨.problem what offset, noticed⟩ := by
    rw [Reading.run, hstep]
    rfl
  have hbody : parseBody ('[' :: cs) = .error ⟨.problem what offset, noticed⟩ := by
    simp only [parseBody, hrun, bind, Except.bind]
  have hsplit : splitFinalBackslash ('[' :: cs) = ('[' :: cs, false) := by
    refine splitFinalBackslash_of_getLast? ?_
    cases cs with
    | nil => decide
    | cons c cs => rwa [List.getLast?_cons_cons]
  rw [Pattern.parse, hsplit]
  simp only [hbody, Bool.false_and, Bool.false_eq_true, if_false]
  rfl

end VerseSearch.Pattern
