import VerseSearch.Pattern.Parser
import VerseSearch.Proofs.Text.Fields

/-! # The limits of the notation

* `Exceeds`: what a text has that exceeds a limit.
* `Meets`: a reading with a postcondition that stops at a limit only for a reason.
* `Reading.step_meets`, `Reading.run_meets`: one step and all steps.
* `exceeds_of_parse`: a text is no pattern for a limit only if it exceeds that limit.
-/

namespace VerseSearch.Pattern
set_option autoImplicit false

/-! ## What exceeds a limit -/

/-- Digits between braces, where they are a number of rounds. -/
def CountsRounds (source digits : Text) : Prop :=
  digits ≠ [] ∧ (∀ c ∈ digits, c.isDigit = true) ∧
    ∃ written, '\x7b' :: written ++ ['\x7d'] <:+: source ∧
      (written = digits ∨ ∃ other, (∀ c ∈ other, c.isDigit = true) ∧
        (written = digits ++ ',' :: other ∨ written = other ++ ',' :: digits))

/-- A group of flags for the whole pattern, with a given flag among them. -/
def SetsFlag (source : Text) (flag : Char) : Prop :=
  ∃ letters, flag ∈ letters ∧ (∀ c ∈ letters, isFlag c = true) ∧
    '(' :: '?' :: letters ++ [')'] <:+: source

/-- The text has what exceeds a limit. -/
inductive Exceeds (source : Text) : Limit → Prop
  | countTooLarge {digits : Text} {n : ℕ} (written : CountsRounds source digits)
      (value : Text.readNat digits = .ok n) (large : roundLimit ≤ n) : Exceeds source .countTooLarge
  | countTooLong {digits : Text} (written : CountsRounds source digits)
      (long : Text.maxIntegerDigits < digits.length) : Exceeds source (.countTooLong digits.length)
  | asciiAndUnicode (ascii : SetsFlag source 'a') (unicode : SetsFlag source 'u') :
      Exceeds source .asciiAndUnicode

theorem CountsRounds.mono {s t digits : Text} (h : CountsRounds s digits) (hst : s <:+: t) :
    CountsRounds t digits := by
  obtain ⟨hne, hdigits, written, hwritten, hcases⟩ := h
  exact ⟨hne, hdigits, written, hwritten.trans hst, hcases⟩

theorem SetsFlag.mono {s t : Text} {flag : Char} (h : SetsFlag s flag) (hst : s <:+: t) :
    SetsFlag t flag := by
  obtain ⟨letters, hmem, hletters, hgroup⟩ := h
  exact ⟨letters, hmem, hletters, hgroup.trans hst⟩

theorem Exceeds.mono {s t : Text} {lim : Limit} (h : Exceeds s lim) (hst : s <:+: t) :
    Exceeds t lim := by
  cases h with
  | countTooLarge written value large => exact .countTooLarge (written.mono hst) value large
  | countTooLong written long => exact .countTooLong (written.mono hst) long
  | asciiAndUnicode ascii unicode => exact .asciiAndUnicode (ascii.mono hst) (unicode.mono hst)

/-! ## Postconditions -/

/-- The reading ends with something that has a property, with a problem, or at a limit that has a
property. -/
def Meets {α : Type} (P : α → Prop) (Q : Limit → Prop) : Except Failure α → Prop
  | .ok a => P a
  | .error ⟨.problem .., _⟩ => True
  | .error ⟨.limit lim, _⟩ => Q lim

namespace Meets

variable {α β : Type} {P : α → Prop} {R : β → Prop} {Q : Limit → Prop}

theorem ok {a : α} (h : P a) : Meets P Q (.ok a) := h

theorem fail {what : Problem} {offset noticed : ℕ} : Meets P Q (fail what offset noticed) := trivial

theorem error {e : Failure} (h : Meets P Q (.error e)) : Meets R Q (.error e) := by
  match e, h with
  | ⟨.problem .., _⟩, _ => trivial
  | ⟨.limit lim, _⟩, h => exact h

theorem bind {x : Except Failure α} {f : α → Except Failure β} (hx : Meets P Q x)
    (hf : ∀ a, P a → Meets R Q (f a)) : Meets R Q (x >>= f) := by
  cases x with
  | error e => exact .error hx
  | ok a => exact hf a hx

theorem map {x : Except Failure α} {f : α → β} (hx : Meets (fun a => R (f a)) Q x) :
    Meets R Q (x.map f) := by
  cases x with
  | error e => exact .error hx
  | ok a => exact hx

/-- A check that refuses some cases before the reading goes on. -/
theorem guard {c : Prop} [Decidable c] {what : Problem} {offset noticed : ℕ} {γ : Type}
    {f : γ → Except Failure α} {x : Except Failure α} (hx : ¬c → Meets P Q x) :
    Meets P Q (if c then Pattern.fail what offset noticed >>= f else x) := by
  split
  · exact fail
  · next hc => exact hx hc

theorem mono {P' : α → Prop} {Q' : Limit → Prop} {x : Except Failure α} (hx : Meets P Q x)
    (hP : ∀ a, P a → P' a) (hQ : ∀ lim, Q lim → Q' lim) : Meets P' Q' x := by
  match x, hx with
  | .ok a, hx => exact hP a hx
  | .error ⟨.problem .., _⟩, _ => trivial
  | .error ⟨.limit lim, _⟩, hx => exact hQ lim hx

end Meets

/-! ## Readers -/

section
variable {Q : Limit → Prop} (pos : ℕ)

theorem readHexEscape_meets (letter : Char) (width : ℕ) (rest : List Char) :
    Meets (fun _ => True) Q (readHexEscape pos letter width rest) := by
  unfold readHexEscape
  dsimp only
  split
  · exact .fail
  · split
    · exact .fail
    · exact .ok trivial

theorem readName_meets (kind : String) (terminator : Char) (cs : List Char) :
    Meets (fun _ => True) Q (readName kind terminator pos cs) := by
  unfold readName
  split
  · exact .fail
  · exact .fail
  · exact .fail
  · exact .ok trivial

theorem readNamedEscape_meets [CharNames] (rest : List Char) :
    Meets (fun _ => True) Q (readNamedEscape pos rest) := by
  unfold readNamedEscape
  split
  · next cs =>
    have hname := readName_meets (Q := Q) (pos + 3) "character name" '\x7d' cs
    cases hread : readName "character name" '\x7d' (pos + 3) cs with
    | error e => exact .error (hread ▸ hname)
    | ok name =>
      dsimp only
      split
      · exact .ok trivial
      · exact .fail
  · exact .fail

theorem readCodeEscape_meets [CharNames] {letter : Char} {rest : List Char} {x : Except Failure (ℕ × ℕ)}
    (h : readCodeEscape pos letter rest = some x) : Meets (fun _ => True) Q x := by
  unfold readCodeEscape at h
  split at h
  · exact Option.some.inj h ▸ readHexEscape_meets pos _ _ _
  · exact Option.some.inj h ▸ readHexEscape_meets pos _ _ _
  · exact Option.some.inj h ▸ readHexEscape_meets pos _ _ _
  · exact Option.some.inj h ▸ readNamedEscape_meets pos rest
  · cases h

theorem readSetEscape_meets [CharNames] (letter : Char) (rest : List Char) :
    Meets (fun _ => True) Q (readSetEscape pos letter rest) := by
  unfold readSetEscape
  split
  · exact .ok trivial
  · exact .ok trivial
  · next e hread => exact .error (readCodeEscape_meets pos hread)
  · exact .ok trivial
  · split
    · exact .ok trivial
    · split
      · dsimp only
        split
        · exact .fail
        · exact .ok trivial
      · split
        · exact .fail
        · exact .ok trivial

theorem readSetItem_meets [CharNames] (cs : List Char) : Meets (fun _ => True) Q
    (readSetItem pos cs) := by
  unfold readSetItem
  split
  · exact .map (readSetEscape_meets _ _ _)
  · exact .ok trivial
  · exact .ok trivial

theorem rangeOf_meets (lo hi : Text) (after : ℕ) (a b : SetItem) :
    Meets (fun _ => True) Q (rangeOf lo hi after a b) := by
  unfold rangeOf
  split
  · split
    · exact .fail
    · exact .ok trivial
  · exact .fail

theorem readItems_meets [CharNames] (start : ℕ) (items : List SetItem) (cs : List Char) :
    Meets (fun _ => True) Q (readItems start pos items cs) := by
  fun_induction readItems start pos items cs with
  | case1 | case4 => exact .fail
  | case2 | case5 => exact .ok trivial
  | case3 pos items c rest _ e he => exact .error (he ▸ readSetItem_meets pos (c :: rest))
  | case6 pos items c rest _ lo count _ that _ _ _ e he =>
    exact .error (he ▸ readSetItem_meets (pos + count + 1) that)
  | case7 pos items c rest _ lo count _ that _ _ _ hi more _ after e he =>
    exact .error (he ▸ rangeOf_meets _ _ after lo hi)
  | case8 _ _ _ _ _ _ _ _ _ _ _ _ _ _ _ _ _ _ ih | case9 _ _ _ _ _ _ _ _ _ _ _ ih => exact ih

theorem readBracket_meets [CharNames] (cs : List Char) : Meets (fun _ => True) Q
    (readBracket pos cs) := by
  unfold readBracket
  split
  · exact .map (readItems_meets _ _ _ _)
  · exact .map (readItems_meets _ _ _ _)

theorem readGroupName_meets (terminator : Char) (cs : List Char) :
    Meets (fun _ => True) Q (readGroupName terminator pos cs) := by
  unfold readGroupName
  refine (readName_meets _ _ _ _).bind fun name _ => ?_
  split
  · exact .ok trivial
  · exact .fail

theorem checkLimit_meets (r : Reading) (index after : ℕ) :
    Meets (fun _ => True) Q (r.checkLimit index after) := by
  unfold Reading.checkLimit
  split
  · exact .ok trivial
  · split
    · exact .fail
    · split
      · exact .fail
      · exact .ok trivial

/-- The letters of a flag group are flags, and a sign ends them. -/
theorem readFlagsOn_meets (on cs : List Char) :
    Meets (fun (all, sign, _) => ∃ letters rest, cs = letters ++ sign :: rest ∧
      all = letters.reverse ++ on ∧ ∀ c ∈ letters, isFlag c = true) Q (readFlagsOn pos on cs) := by
  induction cs generalizing pos on with
  | nil => exact .fail
  | cons c cs ih =>
    rw [readFlagsOn]
    split
    · next hc =>
      split
      · exact .fail
      · split
        · exact .fail
        · refine (ih (pos + 1) (c :: on)).mono ?_ fun _ h => h
          rintro ⟨all, sign, after⟩ ⟨letters, rest, rfl, rfl, hletters⟩
          exact ⟨c :: letters, rest, rfl, by simp, List.forall_mem_cons.mpr ⟨hc, hletters⟩⟩
    · split
      · exact .ok ⟨[], cs, rfl, rfl, nofun⟩
      · exact .fail

theorem readFlagsOff_meets (off cs : List Char) :
    Meets (fun _ => True) Q (readFlagsOff pos off cs) := by
  induction cs generalizing pos off with
  | nil => exact .fail
  | cons c cs ih =>
    rw [readFlagsOff]
    split
    · split
      · exact .fail
      · exact ih _ _
    · split
      · exact .ok trivial
      · exact .fail

/-- A flag group for the whole pattern consists of its letters and a closing parenthesis. -/
theorem readFlags_meets (cs : List Char) :
    Meets (fun (flags, _) => flags.isGlobal = true → ∃ letters rest, cs = letters ++ ')' :: rest ∧
      flags.on = letters.reverse ∧ ∀ c ∈ letters, isFlag c = true) Q (readFlags pos cs) := by
  unfold readFlags
  refine (readFlagsOn_meets pos [] cs).bind ?_
  rintro ⟨on, sign, after⟩ ⟨letters, rest, rfl, rfl, hletters⟩
  dsimp only
  split
  · next hsign =>
    subst hsign
    exact .ok fun _ => ⟨letters, rest, rfl, by simp, hletters⟩
  · refine .guard fun _ => ?_
    split
    · exact .ok nofun
    · refine (readFlagsOff_meets _ _ _).bind fun (off, final) _ => ?_
      exact .guard fun _ => .guard fun _ => .ok nofun

end

/-! ## Counts -/

theorem readRounds_meets {source digits : Text} (h : digits ≠ [] → CountsRounds source digits)
    (noticed : ℕ) : Meets (fun _ => True) (Exceeds source) (readRounds digits noticed) := by
  unfold readRounds
  split
  · exact .ok trivial
  · next hempty =>
    have hwritten := h fun hnil => hempty (by rw [hnil]; rfl)
    split
    · next n hn =>
      split
      · next hlarge => exact Exceeds.countTooLarge hwritten hn hlarge
      · exact .ok trivial
    · next e he =>
      have hdigits := fun c hc => Text.mem_digits_of_isDigit (hwritten.2.1 c hc)
      exact Exceeds.countTooLong hwritten (Text.lt_length_of_readNat hwritten.1 hdigits he)

theorem readBounds_meets {source low high : Text} (hlow : low ≠ [] → CountsRounds source low)
    (hhigh : high ≠ [] → CountsRounds source high) (pos noticed count : ℕ) :
    Meets (fun _ => True) (Exceeds source) (do
      let least ← readRounds low noticed
      let most ← readRounds high noticed
      match most with
      | some most =>
        if most < least.getD 0 then fail .reversedCounts (pos + 1) noticed
      | none => pure ()
      return some (least.getD 0, most, count)) := by
  refine (readRounds_meets hlow noticed).bind fun least _ => ?_
  refine (readRounds_meets hhigh noticed).bind fun most _ => ?_
  cases most with
  | none => exact .ok trivial
  | some most => exact .guard fun _ => .ok trivial

/-- Numbers of rounds stand between braces, with a comma after the first of two. -/
theorem readCounts_meets (pos : ℕ) (rest : List Char) :
    Meets (fun _ => True) (Exceeds ('\x7b' :: rest)) (readCounts pos rest) := by
  have hdigits : ∀ cs : List Char, ∀ c ∈ cs.takeWhile Char.isDigit, c.isDigit = true := fun cs =>
    List.all_eq_true.mp List.all_takeWhile
  have hrest := List.takeWhile_append_dropWhile (p := Char.isDigit) (l := rest)
  unfold readCounts
  extract_lets low
  split
  next high written after hparts =>
  split
  · next tail =>
    split
    · exact .ok trivial
    · split at hparts
      · next more hmore =>
        obtain ⟨rfl, rfl, htail⟩ : more.takeWhile Char.isDigit = high ∧ _ ∧ _ := by
          simpa only [Prod.mk.injEq] using hparts
        have hwritten : '\x7b' :: (low ++ ',' :: more.takeWhile Char.isDigit) ++ ['\x7d'] <:+:
            '\x7b' :: rest := by
          have hhigh : more.takeWhile Char.isDigit ++ '\x7d' :: tail = more := by
            rw [← htail, List.takeWhile_append_dropWhile]
          rw [hmore, ← hhigh] at hrest
          refine ⟨[], tail, ?_⟩
          rw [← hrest]
          simp [low]
        exact readBounds_meets
          (fun hne => ⟨hne, hdigits rest, _, hwritten, .inr ⟨_, hdigits more, .inl rfl⟩⟩)
          (fun hne => ⟨hne, hdigits more, _, hwritten, .inr ⟨_, hdigits rest, .inr rfl⟩⟩) _ _ _
      · obtain ⟨rfl, rfl, htail⟩ : low = high ∧ _ ∧ _ := by
          simpa only [Prod.mk.injEq] using hparts
        have hwritten : '\x7b' :: low ++ ['\x7d'] <:+: '\x7b' :: rest := by
          refine ⟨[], tail, ?_⟩
          rw [← hrest, htail]
          simp [low]
        have hlow : low ≠ [] → CountsRounds ('\x7b' :: rest) low := fun hne =>
          ⟨hne, hdigits rest, low, hwritten, .inl rfl⟩
        exact readBounds_meets hlow hlow _ _ _
  · exact .ok trivial

/-! ## States -/

/-- The flags that were set for the whole pattern are set in the text. -/
def Reading.Marked (source : Text) (r : Reading) : Prop :=
  (r.asciiFlag = true → SetsFlag source 'a') ∧ (r.unicodeFlag = true → SetsFlag source 'u')

namespace Reading.Marked

variable {source : Text} {r : Reading} {Q : Limit → Prop} (hr : r.Marked source) (pos : ℕ)
include hr

theorem backref_meets (index after : ℕ) :
    Meets (Reading.Marked source) Q (r.backref index pos after) := by
  unfold Reading.backref
  split
  · split
    · exact .fail
    · exact .map ((checkLimit_meets r index after).mono (fun _ _ => hr) fun _ h => h)
  · exact .fail

theorem stepNumber_meets (first : Char) (rest : List Char) :
    Meets (fun x => x.1.Marked source) Q (r.stepNumber pos first rest) := by
  unfold Reading.stepNumber
  split
  · split
    · split
      · split
        · dsimp only
          split
          · exact .fail
          · exact .ok hr
        · exact .map (hr.backref_meets _ _ _)
      · exact .map (hr.backref_meets _ _ _)
    · exact .map (hr.backref_meets _ _ _)
  · exact .map (hr.backref_meets _ _ _)

theorem stepEscape_meets [CharNames] (letter : Char) (rest : List Char) :
    Meets (fun x => x.1.Marked source) Q (r.stepEscape pos letter rest) := by
  unfold Reading.stepEscape
  split
  · exact .ok hr
  · exact .ok hr
  · exact .ok hr
  · next e hread => exact .error (readCodeEscape_meets pos hread)
  · exact .ok hr
  · split
    · exact .ok hr
    · split
      · exact hr.stepNumber_meets _ _ _
      · split
        · exact .fail
        · exact .ok hr

theorem repeatLast_meets (after least : ℕ) (most : Option ℕ) (rest : List Char) :
    Meets (fun x => x.1.Marked source) Q (r.repeatLast pos after least most rest) := by
  unfold Reading.repeatLast
  split
  · exact .fail
  · split
    · exact .fail
    · exact .fail
    · exact .ok hr

theorem openCapture_meets (name : Option (Text × ℕ)) :
    Meets (Reading.Marked source) Q (r.openCapture pos name) := by
  unfold Reading.openCapture
  dsimp only
  split
  · exact .ok hr
  · split
    · exact .fail
    · exact .ok hr

theorem readCondition_meets (cs : List Char) :
    Meets (fun x => x.1.Marked source) Q (r.readCondition pos cs) := by
  unfold Reading.readCondition
  refine (readName_meets _ _ _ _).bind fun name _ => ?_
  extract_lets after
  split
  · split
    · exact .fail
    · exact (checkLimit_meets _ _ _).bind fun _ _ => .ok hr
  · split
    · next index _ =>
      refine .guard fun _ => .guard fun _ => (checkLimit_meets _ _ _).bind fun _ _ => .ok ?_
      split
      · exact hr
      · exact hr
    · exact .fail

theorem stepNamed_meets (rest : List Char) :
    Meets (fun x => x.1.Marked source) Q (r.stepNamed pos rest) := by
  unfold Reading.stepNamed
  split
  · refine (readGroupName_meets _ _ _).bind fun name _ => ?_
    exact (hr.openCapture_meets _ _).bind fun r' hr' => .ok hr'
  · refine (readGroupName_meets _ _ _).bind fun name _ => ?_
    extract_lets after
    split
    · exact .fail
    · exact .guard fun _ => (checkLimit_meets _ _ _).bind fun _ _ => .ok hr
  · exact .fail
  · exact .fail

theorem stepFlags_meets {cs : List Char} (hcs : '(' :: '?' :: cs <:+: source) :
    Meets (fun x => x.1.Marked source) Q (r.stepFlags pos cs) := by
  unfold Reading.stepFlags
  refine (readFlags_meets _ cs).bind ?_
  rintro ⟨flags, after⟩ hflags
  dsimp only
  split
  · next hglobal =>
    obtain ⟨letters, rest, rfl, hon, hletters⟩ := hflags hglobal
    have hset : ∀ flag ∈ flags.on, SetsFlag source flag := fun flag hflag => by
      rw [hon, List.mem_reverse] at hflag
      have hgroup : '(' :: '?' :: letters ++ [')'] <:+: '(' :: '?' :: (letters ++ ')' :: rest) :=
        ⟨[], rest, by simp⟩
      exact ⟨letters, hflag, hletters, hgroup.trans hcs⟩
    refine .guard fun _ => .ok ⟨fun h => ?_, fun h => ?_⟩
    · obtain h | h := (Bool.or_eq_true _ _).mp h
      · exact hr.1 h
      · exact hset 'a' (of_decide_eq_true h)
    · obtain h | h := (Bool.or_eq_true _ _).mp h
      · exact hr.2 h
      · exact hset 'u' (of_decide_eq_true h)
  · exact .ok hr

theorem openLook (behind negated : Bool) : (r.openLook pos behind negated).Marked source := by
  unfold Reading.openLook
  dsimp only
  split
  · exact hr
  · exact hr

theorem stepExtension_meets {rest : List Char} (hrest : '(' :: '?' :: rest <:+: source) :
    Meets (fun x => x.1.Marked source) Q (r.stepExtension pos rest) := by
  unfold Reading.stepExtension
  split
  · exact .fail
  · exact hr.stepNamed_meets _ _
  · exact .ok hr
  · split
    · exact .ok hr
    · exact .fail
  · exact .ok (hr.openLook _ _ _)
  · exact .ok (hr.openLook _ _ _)
  · exact .ok (hr.openLook _ _ _)
  · exact .ok (hr.openLook _ _ _)
  · exact .fail
  · exact .fail
  · exact (hr.readCondition_meets _ _).bind fun _ hr' => .ok hr'
  · exact .ok hr
  · split
    · exact hr.stepFlags_meets _ hrest
    · exact .fail

theorem nextBranch_meets : Meets (Reading.Marked source) Q (r.nextBranch pos) := by
  unfold Reading.nextBranch
  split
  · exact .ok hr
  · exact .fail
  · exact .ok hr

theorem exceeds (h : (r.asciiFlag && r.unicodeFlag) = true) : Exceeds source .asciiAndUnicode := by
  obtain ⟨ha, hu⟩ := (Bool.and_eq_true _ _).mp h
  exact .asciiAndUnicode (hr.1 ha) (hr.2 hu)

theorem close_meets : Meets (Reading.Marked source) (Exceeds source) (r.close pos) := by
  unfold Reading.close
  split
  · split
    · next hflags => exact hr.exceeds hflags
    · exact .fail
  · split
    · exact .fail
    all_goals exact .ok hr

/-- One step sets no flags but those in the text, and exceeds no limit but with the text that it
reads. -/
theorem step_meets [CharNames] {c : Char} {rest : List Char} (hrest : c :: rest <:+: source) :
    Meets (fun x => x.1.Marked source) (Exceeds source) (r.step pos c rest) := by
  unfold Reading.step
  split
  · exact .ok hr
  split
  · exact .ok hr
  split
  · exact .map (hr.nextBranch_meets pos)
  · exact .map (hr.close_meets pos)
  · split
    · exact hr.stepExtension_meets pos hrest
    · exact .map (hr.openCapture_meets pos none)
  · exact .map ((readBracket_meets pos rest).mono (fun _ _ => hr) fun _ h => h)
  · split
    · exact hr.stepEscape_meets pos _ _
    · exact .fail
  · exact .ok hr
  · exact .ok hr
  · exact .ok hr
  · exact hr.repeatLast_meets pos _ _ _ _
  · exact hr.repeatLast_meets pos _ _ _ _
  · exact hr.repeatLast_meets pos _ _ _ _
  · have hcounts := (readCounts_meets pos rest).mono (fun _ h => h) fun _ h => h.mono hrest
    split
    · next e he => exact .error (he ▸ hcounts)
    · exact .ok hr
    · exact .map (hr.repeatLast_meets pos _ _ _ _)
  · exact .ok hr

end Reading.Marked

/-! ## Whole texts -/

-- By induction on the steps: what is left of the text stays a part of the source.
theorem Reading.Marked.run_meets [CharNames] {source : Text} {r : Reading} (hr : r.Marked source)
    (pos : ℕ) {cs : List Char} (hcs : cs <:+: source) :
    Meets (Reading.Marked source) (Exceeds source) (r.run pos cs) := by
  fun_induction Reading.run r pos cs with
  | case1 => exact .ok hr
  | case2 r pos c rest e he => exact .error (he ▸ hr.step_meets pos hcs)
  | case3 r pos c rest next count hnext ih =>
    have hstep := hr.step_meets pos hcs
    rw [hnext] at hstep
    have hrest : rest.drop count <:+ c :: rest := (List.drop_suffix _ _).trans (List.suffix_cons _ _)
    exact ih hstep (hrest.isInfix.trans hcs)

theorem Reading.Marked.finish_meets {source : Text} {r : Reading} (hr : r.Marked source)
    (length : ℕ) : Meets (fun _ => True) (Exceeds source) (r.finish length) := by
  unfold Reading.finish
  split
  · exact .fail
  · split
    · next hflags => exact hr.exceeds hflags
    · split
      · exact .fail
      · exact .ok trivial

theorem parseBody_meets [CharNames] (body : Text) : Meets (fun _ => True) (Exceeds body)
    (parseBody body) := by
  have hstart : ({} : Reading).Marked body := ⟨nofun, nofun⟩
  unfold parseBody
  refine (hstart.run_meets 0 List.infix_rfl).bind fun r hr => ?_
  exact (hr.finish_meets body.length).bind fun _ _ => .ok trivial

theorem splitFinalBackslash_prefix (source : Text) : (splitFinalBackslash source).1 <+: source := by
  fun_induction splitFinalBackslash source with
  | case1 | case2 => exact List.nil_prefix
  | case3 c rest cs found hsplit ih =>
    rw [hsplit] at ih
    exact List.prefix_cons_iff.mpr (.inr ⟨_, rfl, List.prefix_cons_iff.mpr (.inr ⟨_, rfl, ih⟩)⟩)
  | case4 c rest _ _ cs found hsplit ih =>
    rw [hsplit] at ih
    exact List.prefix_cons_iff.mpr (.inr ⟨_, rfl, ih⟩)

@[simp] theorem FailureCause.toError_eq_limit_iff {source : Text} {cause : FailureCause} {lim : Limit} :
    cause.toError source = .limit lim ↔ cause = .limit lim := by
  cases cause <;> simp [toError]

/-- A text is no pattern for a limit only if it has what exceeds the limit. -/
theorem exceeds_of_parse [CharNames] {source : Text} {lim : Limit}
    (h : parse source = .error (.limit lim)) :
    Exceeds source lim := by
  have hprefix := splitFinalBackslash_prefix source
  rw [parse] at h
  cases hsplit : splitFinalBackslash source with
  | mk body backslash =>
    rw [hsplit] at h hprefix
    have hbody := parseBody_meets body
    dsimp only at h
    split at h
    · next e he =>
      have hcause := FailureCause.toError_eq_limit_iff.mp (Except.error.inj h)
      -- a backslash at the end of the text is a problem and no limit
      split at hcause
      · cases hcause
      · obtain ⟨cause, noticed⟩ := e
        obtain rfl : cause = .limit lim := hcause
        rw [he] at hbody
        exact Exceeds.mono hbody hprefix.isInfix
    · split at h
      · cases h
      · split at h
        · cases h
        · split at h <;> cases h

end VerseSearch.Pattern
