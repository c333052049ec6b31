import VerseSearch.Proofs.Matching.Agreement

/-! # Reading the parts of a pattern before a tail

No part of a pattern that ends in a text takes notice of the tail after the text, and a part that the end of
the text cuts off is not completed by the tail, a name that ends with a parenthesis apart.

* `readName_tail`: names, which the parenthesis of the tail may end.
* `readNamedEscape_tail`, `readCodeEscape_tail`, `readSetEscape_tail`: escapes.
* `readBracket_tail`: bracket expressions.
* `readFlags_tail`: flags, which the parenthesis of the tail may make flags for the whole pattern.
* `readCounts_tail`: numbers of rounds.
-/

namespace VerseSearch.Pattern
set_option autoImplicit false

section
variable {tail : List Char} (ht : IsTail tail) (pos pos' : ℕ)
include ht

/-! ## Names -/

omit ht in
/-- A name in a whole text ends at a terminator, whatever comes after that, or goes on to what comes after
the text. -/
theorem takeName_append (terminator : Char) {cs : List Char} (h : Whole cs) :
    (∃ name, takeName terminator cs = (name, true) ∧ Ends cs (name.length + 1) ∧
      ∀ more, takeName terminator (cs ++ more) = (name, true)) ∨
    takeName terminator cs = (cs, false) ∧ ∀ more, takeName terminator (cs ++ more) =
      (cs ++ (takeName terminator more).1, (takeName terminator more).2) := by
  induction h with
  | nil => exact .inr ⟨rfl, fun more => rfl⟩
  | escape c h ih =>
    obtain ⟨name, hname, hends, happend⟩ | ⟨hname, happend⟩ := ih
    · refine .inl ⟨'\\' :: c :: name, ?_, .cons (.cons hends), fun more => ?_⟩
      · rw [takeName, hname]
      · rw [List.cons_append, List.cons_append, takeName, happend]
    · refine .inr ⟨?_, fun more => ?_⟩
      · rw [takeName, hname]
      · rw [List.cons_append, List.cons_append, takeName, happend]
        rfl
  | @char c cs hc h ih =>
    have hcons : ∀ rest, takeName terminator (c :: rest) = if c = terminator then ([], true)
        else (c :: (takeName terminator rest).1, (takeName terminator rest).2) := fun rest => by
      rw [takeName]
      exact fun _ _ heq => absurd heq hc
    by_cases heq : c = terminator
    · exact .inl ⟨[], by rw [hcons, if_pos heq], .cons (.zero h), fun more => by
        rw [List.cons_append, hcons, if_pos heq]⟩
    · obtain ⟨name, hname, hends, happend⟩ | ⟨hname, happend⟩ := ih
      · refine .inl ⟨c :: name, ?_, .cons hends, fun more => ?_⟩
        · rw [hcons, if_neg heq, hname]
        · rw [List.cons_append, hcons, if_neg heq, happend]
      · refine .inr ⟨?_, fun more => ?_⟩
        · rw [hcons, if_neg heq, hname]
        · rw [List.cons_append, hcons, if_neg heq, happend]
          rfl

/-- A name that the end of a text cuts off is completed by the parenthesis of the tail, if by anything. -/
theorem readName_tail (kind : String) {terminator : Char} (hterm : terminator ≠ '$')
    {cs : List Char} (h : Whole cs) : Agrees (fun x y => x = y ∧ Ends cs (x.length + 1))
      (fun name => terminator = ')' ∧ tail = [')', '$'] ∧ name = cs)
      (readName kind terminator pos cs) (readName kind terminator pos' (cs ++ tail)) := by
  obtain ⟨name, hname, hends, happend⟩ | ⟨hname, happend⟩ := takeName_append terminator h
  · rw [readName, readName, hname, happend]
    cases name with
    | nil => exact .fail
    | cons c name => exact .ok ⟨rfl, hends⟩
  · have htail : takeName terminator tail = ([], true) ∧ terminator = ')' ∧ tail = [')', '$'] ∨
        (takeName terminator tail).2 = false := by
      cases ht with
      | closing =>
        by_cases hclose : terminator = ')'
        · subst hclose
          exact .inl ⟨by decide, rfl, rfl⟩
        · exact .inr (by simp [takeName, Ne.symm hclose, hterm.symm])
      | escaped => exact .inr (by simp [takeName, hterm.symm])
    have hright : Meets (fun name => terminator = ')' ∧ tail = [')', '$'] ∧ name = cs) (fun _ => False)
        (readName kind terminator pos' (cs ++ tail)) := by
      rw [readName, happend]
      obtain ⟨htail, hclose⟩ | htail := htail
      · rw [htail, List.append_nil]
        cases cs with
        | nil => exact .fail
        | cons c cs => exact .ok ⟨hclose.1, hclose.2, rfl⟩
      · rw [htail]
        split
        · exact .fail
        · exact .fail
        · exact .fail
        · next heq => cases congrArg Prod.snd heq
    rw [readName, hname]
    cases cs with
    | nil => exact .problem hright
    | cons c cs => exact .problem hright

/-! ## Escapes -/

theorem readHexEscape_tail {letter : Char} (width : ℕ) {rest : List Char} (h : Whole rest) :
    Agrees (fun x y => x = y ∧ Ends (letter :: rest) x.2) (fun _ => False)
      (readHexEscape pos letter width rest) (readHexEscape pos' letter width (rest ++ tail)) := by
  have hends := ends_takeAtMost (p := isHexDigit) (by decide) h width
  have hle : (takeAtMost width isHexDigit rest).length ≤ width :=
    ((List.takeWhile_prefix _).length_le).trans (List.length_take_le _ _)
  unfold readHexEscape
  rw [takeAtMost_tail ht (by decide)]
  dsimp only
  split
  · exact .fail
  · next hlt =>
    split
    · exact .fail
    · rw [Nat.le_antisymm hle (Nat.le_of_not_lt hlt)] at hends
      exact .ok ⟨rfl, Nat.add_comm 1 width ▸ hends.cons⟩

/-- The name of a character ends at a brace, which the tail does not have. -/
theorem readNamedEscape_tail [CharNames] {rest : List Char} (h : Whole rest) :
    Agrees (fun x y => x = y ∧ Ends ('N' :: rest) x.2) (fun _ => False)
      (readNamedEscape pos rest) (readNamedEscape pos' (rest ++ tail)) := by
  by_cases hhead : rest.head? = some '\x7b'
  · obtain ⟨cs, rfl⟩ := List.head?_eq_some_iff.mp hhead
    have hbrace : '\x7d' ≠ '$' := by decide
    have hname := readName_tail ht (pos + 3) (pos' + 3) "character name" hbrace (h.of_cons (by decide))
    simp only [List.cons_append, readNamedEscape]
    generalize readName _ _ (pos + 3) cs = x, readName _ _ (pos' + 3) (cs ++ tail) = y at hname
    cases hname with
    | ok h =>
      obtain ⟨rfl, hends⟩ := h
      dsimp only
      split
      · refine .ok ⟨rfl, ?_⟩
        rw [Nat.add_comm 3]
        exact hends.cons.cons
      · exact .fail
    | problem h =>
      cases y with
      | error e => exact .problem h.error
      | ok name => exact absurd h.1 (by decide)
    | limit => exact .limit
  · have hbrace : ∀ {cs : List Char} (pos : ℕ), cs.head? ≠ some '\x7b' →
        readNamedEscape pos cs = fail .missingBrace (pos + 2) (pos + 2) := fun {cs} pos hcs => by
      unfold readNamedEscape
      split
      · exact absurd rfl hcs
      · rfl
    rw [hbrace pos hhead, hbrace pos' (ht.head?_append_ne (by decide) hhead)]
    exact .fail

theorem readCodeEscape_tail [CharNames] (letter : Char) {rest : List Char} (h : Whole rest) :
    Option.Rel (Agrees (fun x y => x = y ∧ Ends (letter :: rest) x.2) (fun _ => False))
      (readCodeEscape pos letter rest) (readCodeEscape pos' letter (rest ++ tail)) := by
  unfold readCodeEscape
  split
  · exact .some (readHexEscape_tail ht pos pos' 2 h)
  · exact .some (readHexEscape_tail ht pos pos' 4 h)
  · exact .some (readHexEscape_tail ht pos pos' 8 h)
  · exact .some (readNamedEscape_tail ht pos pos' h)
  · exact .none

theorem readSetEscape_tail [CharNames] (letter : Char) {rest : List Char} (h : Whole rest) :
    Agrees (fun x y => x = y ∧ Ends (letter :: rest) x.2) (fun _ => False)
      (readSetEscape pos letter rest) (readSetEscape pos' letter (rest ++ tail)) := by
  have hone : Ends (letter :: rest) 1 := .cons (.zero h)
  have hcode := readCodeEscape_tail ht pos pos' letter h
  unfold readSetEscape
  generalize readCodeEscape pos letter rest = x, readCodeEscape pos' letter (rest ++ tail) = y at hcode
  cases controlEscape? letter with
  | some n => exact .ok ⟨rfl, hone⟩
  | none =>
    cases categoryEscape? letter with
    | some item => exact .ok ⟨rfl, hone⟩
    | none =>
      cases hcode with
      | @some x y hagrees =>
        cases hagrees with
        | ok h =>
          obtain ⟨rfl, hends⟩ := h
          exact .ok ⟨rfl, hends⟩
        | problem h =>
          cases y with
          | error e => exact .problem h.error
          | ok x => exact h.elim
        | limit => exact .limit
      | none =>
        rw [takeAtMost_tail ht (by decide)]
        dsimp only
        split
        · exact .ok ⟨rfl, hone⟩
        · split
          · split
            · exact .fail
            · exact .ok ⟨rfl, (ends_takeAtMost (by decide) h 2).cons⟩
          · split
            · exact .fail
            · exact .ok ⟨rfl, hone⟩

/-! ## Bracket expressions -/

theorem readSetItem_tail [CharNames] {cs : List Char} (h : Whole cs) (hne : cs ≠ []) :
    Agrees (fun x y => x = y ∧ 0 < x.2 ∧ Ends cs x.2) (fun _ => False)
      (readSetItem pos cs) (readSetItem pos' (cs ++ tail)) := by
  cases h with
  | nil => exact absurd rfl hne
  | escape c h =>
    refine .map ((readSetEscape_tail ht pos pos' c h).mono ?_ fun _ => id)
    rintro ⟨item, count⟩ y ⟨rfl, hends⟩
    dsimp only
    rw [Nat.add_comm]
    exact ⟨rfl, Nat.succ_pos _, hends.cons⟩
  | @char c cs hc h =>
    have hplain : ∀ rest pos, readSetItem pos (c :: rest) = .ok (.code c.toNat, 1) := fun rest pos => by
      rw [readSetItem]
      exact fun _ _ heq => absurd heq hc
    rw [List.cons_append, hplain, hplain]
    exact .ok ⟨rfl, Nat.one_pos, .cons (.zero h)⟩

omit ht in
theorem rangeOf_agrees (lo hi lo' hi' : Text) (after after' : ℕ) (a b : SetItem) :
    Agrees (· = ·) (fun _ => False) (rangeOf lo hi after a b) (rangeOf lo' hi' after' a b) := by
  unfold rangeOf
  split
  · split
    · exact .fail
    · exact .ok rfl
  · exact .fail

end

section
variable [CharNames] {start pos : ℕ} {items : List SetItem} {c : Char} {rest : List Char}
  {lo : SetItem} {count : ℕ}
  (hopen : ¬(c = ']' && !items.isEmpty) = true) (hitem : readSetItem pos (c :: rest) = .ok (lo, count))
include hopen hitem

/-- An item that no hyphen follows. -/
theorem readItems_single (hhyphen : (rest.drop (count - 1)).head? ≠ some '-') :
    readItems start pos items (c :: rest) =
      readItems start (pos + count) (lo :: items) (rest.drop (count - 1)) := by
  rw [readItems, if_neg hopen, hitem]
  dsimp only
  split
  · next hdrop => exact absurd (by rw [hdrop]; rfl) hhyphen
  · next hdrop => exact absurd (by rw [hdrop]; rfl) hhyphen
  · next hdrop => exact absurd (by rw [hdrop]; rfl) hhyphen
  · rfl

/-- An item that a hyphen follows, but no closing bracket after that. -/
theorem readItems_of_hyphen {that : List Char} (hdrop : rest.drop (count - 1) = '-' :: that) (hne : that ≠ [])
    (hclose : that.head? ≠ some ']') : readItems start pos items (c :: rest) =
      match readSetItem (pos + count + 1) that with
      | .error e => .error e
      | .ok (hi, more) =>
        match rangeOf (token (c :: rest)) (token that) (pos + count + 1 + more) lo hi with
        | .error e => .error e
        | .ok range => readItems start (pos + count + 1 + more) (range :: items) (rest.drop (count + more)) := by
  rw [readItems, if_neg hopen, hitem]
  simp only [hdrop]
  split
  · next heq =>
    cases heq
    exact absurd rfl hne
  · next heq =>
    cases heq
    exact absurd rfl hclose
  · next heq =>
    cases heq
    rfl
  · next hnot => exact absurd rfl (hnot that)

end

/-- Without a closing bracket there are no items. -/
theorem readItems_of_not_mem [CharNames] (start pos : ℕ) (items : List SetItem) {cs : List Char}
    (h : ']' ∉ cs) :
    Meets (fun _ => False) (fun _ => False) (readItems start pos items cs) := by
  fun_induction readItems start pos items cs with
  | case1 | case4 => exact .fail
  | case2 pos items c rest hc =>
    rw [Bool.and_eq_true, decide_eq_true_eq] at hc
    exact absurd (hc.1 ▸ List.mem_cons_self ..) h
  | case3 pos items c rest _ e he => exact (he ▸ readSetItem_meets pos (c :: rest)).error
  | case5 pos items c rest _ lo count _ _ hdrop =>
    have hmem : ']' ∈ rest.drop (count - 1) := by simp [hdrop]
    exact absurd (List.mem_cons_of_mem _ (List.mem_of_mem_drop hmem)) h
  | case6 pos items c rest _ lo count _ that _ _ _ e he =>
    exact (he ▸ readSetItem_meets (pos + count + 1) that).error
  | case7 pos items c rest _ lo count _ that _ _ _ hi more _ after e he =>
    exact (he ▸ rangeOf_meets _ _ after lo hi).error
  | case8 _ _ _ _ _ _ _ _ _ _ _ _ _ _ _ _ _ _ ih | case9 _ _ _ _ _ _ _ _ _ _ _ ih =>
    exact ih fun hmem => h (List.mem_cons_of_mem _ (List.mem_of_mem_drop hmem))

section
variable {tail : List Char} (ht : IsTail tail) (pos pos' : ℕ)
include ht

/-- A hyphen at the end of a text makes a range with the tail, if anything. -/
theorem readItems_hyphen [CharNames] {start : ℕ} {items : List SetItem} {c : Char} {rest : List Char}
    {lo : SetItem} {count : ℕ} (hopen : ¬(c = ']' && !items.isEmpty) = true)
    (hitem : readSetItem pos (c :: rest) = .ok (lo, count)) (hcount : 0 < count)
    (hdrop : rest.drop (count - 1) = '-' :: tail) :
    Meets (fun _ => False) (fun _ => False) (readItems start pos items (c :: rest)) := by
  have hnot : ']' ∉ tail := by cases ht <;> decide
  obtain ⟨d, more, htail, hd⟩ := ht.exists_cons
  have hhead : tail.head? ≠ some ']' := fun hhead => hnot (List.mem_of_head? hhead)
  rw [readItems_of_hyphen hopen hitem hdrop (by simp [htail]) hhead]
  have hsecond := readSetItem_meets (Q := fun _ => False) (pos + count + 1) tail
  split
  · next e he => exact (he ▸ hsecond).error
  · next hi more _ =>
    have hrange := rangeOf_meets (Q := fun _ => False) (token (c :: rest)) (token tail)
      (pos + count + 1 + more) lo hi
    split
    · next e he => exact (he ▸ hrange).error
    · refine readItems_of_not_mem _ _ _ fun hmem => hnot ?_
      have hrest : rest.drop (count + more) = tail.drop more := by
        rw [show count + more = (count - 1) + (more + 1) by omega, ← List.drop_drop, hdrop, List.drop_succ_cons]
      rw [hrest] at hmem
      exact List.mem_of_mem_drop hmem

/-- What comes after an item is what comes after it before the tail. -/
theorem readSetItem_next [CharNames] {c : Char} {rest : List Char} {lo : SetItem} {count : ℕ}
    (h : Whole (c :: rest)) (hread : readSetItem pos (c :: rest) = .ok (lo, count)) :
    readSetItem pos' (c :: (rest ++ tail)) = .ok (lo, count) ∧ 0 < count ∧ Ends (c :: rest) count ∧
      (c :: rest).drop count = rest.drop (count - 1) ∧
      (rest ++ tail).drop (count - 1) = rest.drop (count - 1) ++ tail := by
  have hitem := readSetItem_tail ht pos pos' h (List.cons_ne_nil _ _)
  rw [hread] at hitem
  obtain ⟨y, hitem, rfl, hcount, hends⟩ := hitem.ok_left
  obtain ⟨n, rfl⟩ := Nat.exists_eq_succ_of_ne_zero hcount.ne'
  exact ⟨hitem, hcount, hends, rfl, List.drop_append_of_le_length (Nat.le_of_succ_le_succ hends.1)⟩

theorem readItems_range_next [CharNames] {items : List SetItem} {c : Char} {rest that : List Char}
    {lo : SetItem} {count : ℕ} (h : Whole (c :: rest)) (hopen : ¬(c = ']' && !items.isEmpty) = true)
    (hread : readSetItem pos (c :: rest) = .ok (lo, count)) (hdrop : rest.drop (count - 1) = '-' :: that)
    (hne : that ≠ []) (hclose : ∀ more, that ≠ ']' :: more) (start : ℕ) :
    Ends (c :: rest) (count + 1) ∧ (c :: rest).drop (count + 1) = that ∧
      readItems start pos' items (c :: rest ++ tail) =
        match readSetItem (pos' + count + 1) (that ++ tail) with
        | .error e => .error e
        | .ok (hi, more) =>
          match rangeOf (token (c :: (rest ++ tail))) (token (that ++ tail)) (pos' + count + 1 + more) lo hi with
          | .error e => .error e
          | .ok range =>
            readItems start (pos' + count + 1 + more) (range :: items) ((rest ++ tail).drop (count + more)) := by
  obtain ⟨hitem, -, hends, hdropped, hnext⟩ := readSetItem_next ht pos pos' h hread
  rw [hdrop] at hdropped hnext
  obtain ⟨hone, hthat⟩ := hends.succ hdropped (by decide)
  obtain ⟨d, more, rfl⟩ := List.exists_cons_of_ne_nil hne
  refine ⟨hone, hthat, readItems_of_hyphen hopen hitem hnext (List.cons_ne_nil _ _) fun hhead => ?_⟩
  exact hclose more (by rw [Option.some.inj hhead])

theorem readItems_tail [CharNames] (start start' : ℕ) (items : List SetItem) {cs : List Char}
    (h : Whole cs) :
    Agrees (fun x y => x.1 = y.1 ∧ SamePlace cs pos pos' x.2 y.2) (fun _ => False)
      (readItems start pos items cs) (readItems start' pos' items (cs ++ tail)) := by
  fun_induction readItems start pos items cs generalizing pos' with
  | case1 pos items => exact .problem (readItems_of_not_mem _ _ _ (by cases ht <;> decide))
  | case2 pos items c rest hc =>
    rw [List.cons_append, readItems, if_pos hc]
    rw [Bool.and_eq_true, decide_eq_true_eq] at hc
    exact .ok ⟨rfl, .of_ends (.cons (.zero (h.of_cons (by rw [hc.1]; decide))))⟩
  | case3 pos items c rest hopen e he =>
    have hitem := readSetItem_tail ht pos pos' h (List.cons_ne_nil _ _)
    rw [he] at hitem
    obtain ⟨e', he', hagrees⟩ := hitem.error
    rw [List.cons_append, readItems, if_neg hopen, ← List.cons_append, he']
    exact hagrees
  | case4 pos items c rest hopen lo count hread hdrop =>
    obtain ⟨hitem, hcount, -, -, hnext⟩ := readSetItem_next ht pos pos' h hread
    rw [hdrop] at hnext
    exact .problem (readItems_hyphen ht pos' hopen hitem hcount hnext)
  | case5 pos items c rest hopen lo count hread left hdrop =>
    obtain ⟨hitem, -, hends, hdropped, hnext⟩ := readSetItem_next ht pos pos' h hread
    rw [hdrop] at hdropped hnext
    obtain ⟨hone, hclose⟩ := hends.succ hdropped (by decide)
    obtain ⟨htwo, -⟩ := hone.succ hclose (by decide)
    rw [List.cons_append, readItems, if_neg hopen, hitem]
    simp only [hnext, List.cons_append]
    exact .ok ⟨rfl, .of_ends htwo⟩
  | case6 pos items c rest hopen lo count hread that hne hclose hdrop e he =>
    obtain ⟨hends, rfl, hrange⟩ := readItems_range_next ht pos pos' h hopen hread hdrop hne hclose start'
    have hsecond := readSetItem_tail ht (pos + count + 1) (pos' + count + 1) hends.2 hne
    rw [he] at hsecond
    obtain ⟨e', he', hagrees⟩ := hsecond.error
    rw [hrange, he']
    exact hagrees
  | case7 pos items c rest hopen lo count hread that hne hclose hdrop hi more hsecond after e he =>
    obtain ⟨hends, rfl, hrange⟩ := readItems_range_next ht pos pos' h hopen hread hdrop hne hclose start'
    have hitem := readSetItem_tail ht (pos + count + 1) (pos' + count + 1) hends.2 hne
    rw [hsecond] at hitem
    obtain ⟨_, hitem, rfl, -, -⟩ := hitem.ok_left
    have hagrees := he ▸ rangeOf_agrees _ _ (token (c :: (rest ++ tail)))
      (token ((c :: rest).drop (count + 1) ++ tail)) after (pos' + count + 1 + more) lo hi
    obtain ⟨e', he', hagrees⟩ := hagrees.error
    rw [hrange, hitem]
    simp only [he']
    exact hagrees
  | case8 pos items c rest hopen lo count hread that hne hclose hdrop hi more hsecond after range hranged ih =>
    obtain ⟨hends, rfl, hrange⟩ := readItems_range_next ht pos pos' h hopen hread hdrop hne hclose start'
    have hitem := readSetItem_tail ht (pos + count + 1) (pos' + count + 1) hends.2 hne
    rw [hsecond] at hitem
    obtain ⟨_, hitem, rfl, -, hmore⟩ := hitem.ok_left
    have hagrees := hranged ▸ rangeOf_agrees _ _ (token (c :: (rest ++ tail)))
      (token ((c :: rest).drop (count + 1) ++ tail)) after (pos' + count + 1 + more) lo hi
    obtain ⟨_, hranged, rfl⟩ := hagrees.ok_left
    have hboth : Ends (c :: rest) (count + more + 1) := by
      rw [Nat.add_right_comm]
      exact hends.add hmore
    have hright : (rest ++ tail).drop (count + more) = rest.drop (count + more) ++ tail :=
      List.drop_append_of_le_length (Nat.le_of_succ_le_succ hboth.1)
    rw [hrange, hitem]
    simp only [hranged, hright]
    refine (ih _ hboth.2).mono (fun x y hxy => ⟨hxy.1, .add hboth ?_⟩) fun _ => id
    rw [show pos + (count + more + 1) = after by omega,
      show pos' + (count + more + 1) = pos' + count + 1 + more by omega]
    exact hxy.2
  | case9 pos items c rest hopen lo count hread _ _ hhyphen ih =>
    obtain ⟨hitem, -, hends, hdropped, hnext⟩ := readSetItem_next ht pos pos' h hread
    have hhead : ((rest ++ tail).drop (count - 1)).head? ≠ some '-' := by
      rw [hnext]
      refine ht.head?_append_ne (by decide) fun hhead => ?_
      obtain ⟨left, hleft⟩ := List.head?_eq_some_iff.mp hhead
      exact hhyphen left hleft
    rw [List.cons_append, readItems_single hopen hitem hhead, hnext]
    exact (ih _ (hdropped ▸ hends.2)).mono (fun x y hxy => ⟨hxy.1, .add hends (hdropped ▸ hxy.2)⟩) fun _ => id

omit ht in
theorem readBracket_of_head?_ne [CharNames] {cs : List Char} (h : cs.head? ≠ some '^') :
    readBracket pos cs =
    (readItems pos (pos + 1) [] cs).map fun (items, after) => (false, items, after - pos - 1) := by
  unfold readBracket
  split
  · exact absurd rfl h
  · rfl

theorem readBracket_tail [CharNames] {cs : List Char} (h : Whole cs) :
    Agrees (fun x y => x = y ∧ Ends cs x.2.2) (fun _ => False)
      (readBracket pos cs) (readBracket pos' (cs ++ tail)) := by
  by_cases hhead : cs.head? = some '^'
  · obtain ⟨rest, rfl⟩ : ∃ rest, cs = '^' :: rest := List.head?_eq_some_iff.mp hhead
    refine .map ((readItems_tail ht (pos + 2) (pos' + 2) pos pos' [] (h.of_cons (by decide))).mono ?_ fun _ => id)
    rintro ⟨items, after⟩ ⟨items', after'⟩ ⟨rfl, count, hcount, rfl, rfl⟩
    dsimp only
    rw [show pos + 2 + count - pos - 1 = count + 1 by omega,
      show pos' + 2 + count - pos' - 1 = count + 1 by omega]
    exact ⟨rfl, hcount.cons⟩
  · have hhead' := ht.head?_append_ne (by decide) hhead
    rw [readBracket_of_head?_ne pos hhead, readBracket_of_head?_ne pos' hhead']
    refine .map ((readItems_tail ht (pos + 1) (pos' + 1) pos pos' [] h).mono ?_ fun _ => id)
    rintro ⟨items, after⟩ ⟨items', after'⟩ ⟨rfl, count, hcount, rfl, rfl⟩
    dsimp only
    rw [show pos + 1 + count - pos - 1 = count by omega, show pos' + 1 + count - pos' - 1 = count by omega]
    exact ⟨rfl, hcount⟩

/-! ## Group names -/

theorem readGroupName_tail {terminator : Char} (hterm : terminator ≠ '$')
    {cs : List Char} (h : Whole cs) : Agrees (fun x y => x = y ∧ Ends cs (x.length + 1))
      (fun name => terminator = ')' ∧ tail = [')', '$'] ∧ name = cs)
      (readGroupName terminator pos cs) (readGroupName terminator pos' (cs ++ tail)) := by
  unfold readGroupName
  refine (readName_tail ht pos pos' "group name" hterm h).bind ?_ fun name hname => ?_
  · rintro name _ ⟨rfl, hends⟩
    split
    · exact .ok ⟨rfl, hends⟩
    · exact .fail
  · split
    · exact .ok hname
    · exact .fail

/-! ## Flags -/

/-- Flags that the end of a text cuts off are flags for the whole pattern before the tail. -/
theorem readFlagsOn_tail (on : List Char) {cs : List Char} (h : Whole cs) :
    Agrees (fun x y => x.1 = y.1 ∧ x.2.1 = y.2.1 ∧ SamePlace cs pos pos' x.2.2 y.2.2)
      (fun y => y.2.1 = ')') (readFlagsOn pos on cs) (readFlagsOn pos' on (cs ++ tail)) := by
  induction cs generalizing pos pos' on with
  | nil =>
    cases ht with
    | closing => exact .problem (.ok rfl)
    | escaped => exact .problem .fail
  | cons c cs ih =>
    rw [List.cons_append, readFlagsOn, readFlagsOn]
    split
    · next hc =>
      have hwhole : Whole cs := h.of_cons fun heq => absurd (heq ▸ hc) (by decide)
      split
      · exact .fail
      · split
        · exact .fail
        · refine (ih (pos + 1) (pos' + 1) (c :: on) hwhole).mono ?_ fun _ => id
          exact fun x y h => ⟨h.1, h.2.1, h.2.2.cons⟩
    · split
      · next hc =>
        have hwhole : Whole cs := h.of_cons fun heq => absurd (heq ▸ hc) (by decide)
        exact .ok ⟨rfl, rfl, .of_ends (.cons (.zero hwhole))⟩
      · exact .fail

theorem readFlagsOff_tail (off : List Char) {cs : List Char} (h : Whole cs) :
    Agrees (fun x y => x.1 = y.1 ∧ SamePlace cs pos pos' x.2 y.2) (fun _ => False)
      (readFlagsOff pos off cs) (readFlagsOff pos' off (cs ++ tail)) := by
  induction cs generalizing pos pos' off with
  | nil => cases ht <;> exact .problem .fail
  | cons c cs ih =>
    rw [List.cons_append, readFlagsOff, readFlagsOff]
    split
    · next hc =>
      have hwhole : Whole cs := h.of_cons fun heq => absurd (heq ▸ hc) (by decide)
      split
      · exact .fail
      · refine (ih (pos + 1) (pos' + 1) (c :: off) hwhole).mono ?_ fun _ => id
        exact fun x y h => ⟨h.1, h.2.cons⟩
    · split
      · next hc =>
        rw [Bool.and_eq_true, decide_eq_true_eq] at hc
        have hwhole : Whole cs := h.of_cons (by rw [hc.1]; decide)
        exact .ok ⟨rfl, .of_ends (.cons (.zero hwhole))⟩
      · exact .fail

theorem readFlags_tail {cs : List Char} (h : Whole cs) :
    Agrees (fun x y => x.1 = y.1 ∧ (x.1.isGlobal = false → 't' ∉ x.1.on) ∧ SamePlace cs pos pos' x.2 y.2)
      (fun y => y.1.isGlobal = true) (readFlags pos cs) (readFlags pos' (cs ++ tail)) := by
  unfold readFlags
  refine (readFlagsOn_tail ht pos pos' [] h).bind ?_ ?_
  · rintro ⟨on, sign, after⟩ ⟨_, _, after'⟩ ⟨rfl, rfl, count, hends, rfl, rfl⟩
    dsimp only
    split
    · exact .ok ⟨rfl, nofun, .of_ends hends⟩
    refine .guard Iff.rfl fun htemplate => ?_
    split
    · exact .ok ⟨rfl, fun _ => htemplate, .of_ends hends⟩
    rw [Nat.add_sub_cancel_left, Nat.add_sub_cancel_left, hends.drop_append]
    refine (readFlagsOff_tail ht _ _ [] hends.2).bind ?_ nofun
    rintro ⟨off, final⟩ ⟨_, final'⟩ ⟨rfl, hfinal⟩
    refine .guard Iff.rfl fun _ => .guard Iff.rfl fun _ => ?_
    exact .ok ⟨rfl, fun _ => htemplate, .add hends hfinal⟩
  · rintro ⟨on, sign, after⟩ hsign
    dsimp only at hsign ⊢
    rw [if_pos hsign]
    exact .ok rfl

/-! ## Counts -/

omit ht in
theorem readRounds_agrees (digits : Text) (noticed noticed' : ℕ) :
    Agrees (· = ·) (fun _ => False) (readRounds digits noticed) (readRounds digits noticed') := by
  unfold readRounds
  split
  · exact .ok rfl
  · split
    · split
      · exact .limit
      · exact .ok rfl
    · exact .limit

/-- The rounds that two texts of digits give before a closing brace. -/
def closeCounts (pos : ℕ) (low high : Text) (written : ℕ) :
    List Char → Except Failure (Option (ℕ × Option ℕ × ℕ))
  | '\x7d' :: _ =>
    if written = 0 then .ok none
    else do
      let noticed := pos + 2 + written
      let least ← readRounds low noticed
      let most ← readRounds high noticed
      match most with
      | some most =>
        if most < least.getD 0 then fail .reversedCounts (pos + 1) noticed
      | none => pure ()
      return some (least.getD 0, most, written + 1)
  | _ => .ok none

omit ht in
theorem readCounts_comma {rest more : List Char} (h : rest.dropWhile Char.isDigit = ',' :: more) :
    readCounts pos rest = closeCounts pos (rest.takeWhile Char.isDigit) (more.takeWhile Char.isDigit)
      ((rest.takeWhile Char.isDigit).length + 1 + (more.takeWhile Char.isDigit).length)
      (more.dropWhile Char.isDigit) := by
  unfold readCounts
  simp only [h]
  rfl

omit ht in
theorem readCounts_of_not_comma {rest : List Char} (h : ∀ more, rest.dropWhile Char.isDigit ≠ ',' :: more) :
    readCounts pos rest = closeCounts pos (rest.takeWhile Char.isDigit) (rest.takeWhile Char.isDigit)
      (rest.takeWhile Char.isDigit).length (rest.dropWhile Char.isDigit) := by
  unfold readCounts
  extract_lets low
  split
  next high written after hparts =>
  split at hparts
  · next more hmore => exact absurd hmore (h more)
  · obtain ⟨rfl, rfl, rfl⟩ : low = high ∧ _ ∧ _ := by simpa only [Prod.mk.injEq] using hparts
    rfl

/-- The tail holds no closing brace. -/
theorem closeCounts_tail {rest after : List Char} {written : ℕ} (hends : Ends rest written)
    (hafter : rest.drop written = after) (low high : Text) :
    Agrees (fun x y => x = y ∧ ∀ bounds ∈ x, Ends rest bounds.2.2) (fun _ => False)
      (closeCounts pos low high written after) (closeCounts pos' low high written (after ++ tail)) := by
  cases after with
  | nil => cases ht <;> exact .ok ⟨rfl, nofun⟩
  | cons c more =>
    by_cases hc : c = '\x7d'
    · subst hc
      rw [List.cons_append, closeCounts, closeCounts]
      split
      · exact .ok ⟨rfl, nofun⟩
      refine (readRounds_agrees low _ _).bind ?_ nofun
      rintro least _ rfl
      refine (readRounds_agrees high _ _).bind ?_ nofun
      rintro most _ rfl
      have hcount : ∀ bounds ∈ some (least.getD 0, most, written + 1), Ends rest bounds.2.2 := by
        rintro _ ⟨⟩
        exact (hends.succ hafter (by decide)).1
      cases most with
      | none => exact .ok ⟨rfl, hcount⟩
      | some most => exact .guard Iff.rfl fun _ => .ok ⟨rfl, hcount⟩
    · have hopen : ∀ more pos, closeCounts pos low high written (c :: more) = .ok none := fun more pos => by
        rw [closeCounts]
        exact fun _ heq => hc (List.cons.inj heq).1
      rw [List.cons_append, hopen, hopen]
      exact .ok ⟨rfl, nofun⟩

theorem readCounts_tail {rest : List Char} (h : Whole rest) :
    Agrees (fun x y => x = y ∧ ∀ bounds ∈ x, Ends rest bounds.2.2) (fun _ => False)
      (readCounts pos rest) (readCounts pos' (rest ++ tail)) := by
  obtain ⟨hlow, hafter⟩ := ends_takeWhile (p := Char.isDigit) (by decide) h
  have htake := takeWhile_tail ht (p := Char.isDigit) (by decide)
  have hdrop := dropWhile_tail ht (p := Char.isDigit) (by decide)
  by_cases hcomma : ∃ more, rest.dropWhile Char.isDigit = ',' :: more
  · obtain ⟨more, hmore⟩ := hcomma
    obtain ⟨hcomma, hrest⟩ := hlow.succ (hafter.trans hmore) (by decide)
    obtain ⟨hhigh, hafter⟩ := ends_takeWhile (p := Char.isDigit) (by decide) (hrest ▸ hcomma.2 : Whole more)
    have hmore' : (rest ++ tail).dropWhile Char.isDigit = ',' :: (more ++ tail) := by
      rw [hdrop, hmore, List.cons_append]
    rw [readCounts_comma pos hmore, readCounts_comma pos' hmore', htake, htake, hdrop]
    exact closeCounts_tail ht pos pos' (hcomma.add (hrest.symm ▸ hhigh))
      (List.drop_drop.symm.trans (by rw [hrest, hafter])) _ _
  · have hnot : ∀ more, rest.dropWhile Char.isDigit ≠ ',' :: more := fun more hmore => hcomma ⟨more, hmore⟩
    have hnot' : ∀ more, (rest ++ tail).dropWhile Char.isDigit ≠ ',' :: more := fun more hmore => by
      rw [hdrop] at hmore
      refine ht.head?_append_ne (c := ',') (by decide) (fun hhead => ?_) (by rw [hmore]; rfl)
      obtain ⟨left, hleft⟩ := List.head?_eq_some_iff.mp hhead
      exact hnot left hleft
    rw [readCounts_of_not_comma pos hnot, readCounts_of_not_comma pos' hnot', htake, hdrop]
    exact closeCounts_tail ht pos pos' hlow hafter _ _

end

end VerseSearch.Pattern
