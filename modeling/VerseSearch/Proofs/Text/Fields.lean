import Mathlib.Data.List.TakeWhile
import Mathlib.Data.Nat.Notation
import Mathlib.Tactic.IntervalCases
import VerseSearch.Text.Digit

/-! # Fields that are written and read

* `Text.digits`: the digits that numbers are written with.
* `Text.readNat_of_isDigit`: the number of digits of any script, unless there are too many.
* `Text.readInt_ofNat`: a number with few enough digits is read from its digits.
* `Text.readInt_lt`: a number that was read has few enough digits.
* `Text.strip_spec`: a text is what is left when it is stripped, between white space.
-/

namespace VerseSearch
set_option autoImplicit false

/-! ## Results -/

@[simp] theorem bind_eq_ok_iff {α β ε : Type} {x : Except ε α} {f : α → Except ε β} {b : β} :
    (x >>= f) = .ok b ↔ ∃ a, x = .ok a ∧ f a = .ok b := by
  cases x with
  | error e => exact ⟨nofun, fun ⟨a, ha, _⟩ => by cases ha⟩
  | ok a => exact ⟨fun h => ⟨a, rfl, h⟩, fun ⟨a', ha, h⟩ => by cases ha; exact h⟩

theorem ok_of_bind {α β ε : Type} {x : Except ε α} {f : α → Except ε β} {b : β}
    (h : (x >>= f) = .ok b) : ∃ a, x = .ok a ∧ f a = .ok b := bind_eq_ok_iff.mp h

theorem ok_of_map {α β ε : Type} {x : Except ε α} {f : α → β} {b : β} (h : x.map f = .ok b) :
    ∃ a, x = .ok a ∧ f a = b := by
  cases x with
  | error e => cases h
  | ok a => exact ⟨a, rfl, Except.ok.inj h⟩

theorem error_of_map {α β ε : Type} {x : Except ε α} {f : α → β} {e : ε}
    (h : x.map f = .error e) : x = .error e := by
  cases x with
  | error e' => exact congrArg _ (Except.error.inj h)
  | ok a => cases h

theorem ok_of_mapError {α ε ε' : Type} {x : Except ε α} {f : ε → ε'} {a : α}
    (h : x.mapError f = .ok a) : x = .ok a := by
  cases x with
  | error e => cases h
  | ok a' => rw [Except.ok.inj h]

/-! ## Characters -/

/-- What holds of each character of a text is decided on the text, not on all characters. -/
instance (priority := high) decidableForallMem (P : Char → Prop) [DecidablePred P] (t : Text) :
    Decidable (∀ c, c ∈ t → P c) := List.decidableBAll P t

/-- The same for the character at an end of a text, if there is one. -/
instance (priority := high) decidableForallMemOption (P : Char → Prop) [DecidablePred P] :
    (o : Option Char) → Decidable (∀ c, c ∈ o → P c)
  | none => .isTrue nofun
  | some c => decidable_of_iff (P c) ⟨fun hc _ hd => Option.some.inj hd ▸ hc, fun h => h c rfl⟩

namespace Text

/-! ## Digits -/

/-- The ten digits that numbers are written with. -/
def digits : Text := ['0', '1', '2', '3', '4', '5', '6', '7', '8', '9']

theorem mem_digits_of_isDigit {c : Char} (hc : c.isDigit = true) : c ∈ digits := by
  rw [Char.isDigit, Bool.and_eq_true, decide_eq_true_eq, decide_eq_true_eq] at hc
  have hlow : 48 ≤ c.toNat := hc.1
  have hhigh : c.toNat ≤ 57 := hc.2
  rw [← Char.ofNat_toNat c]
  interval_cases c.toNat <;> decide

theorem mem_digits_of_mem_ofNat {n : ℕ} {c : Char} (hc : c ∈ ofNat n) : c ∈ digits :=
  mem_digits_of_isDigit (Nat.isDigit_of_mem_toDigits (by decide) (by decide) hc)

theorem ofNat_injective {m n : ℕ} (h : ofNat m = ofNat n) : m = n := by
  have hm := Nat.ofDigitChars_toDigits (b := 10) (n := m) (by decide) (by decide)
  rw [← hm, show Nat.toDigits 10 m = Nat.toDigits 10 n from h]
  exact Nat.ofDigitChars_toDigits (by decide) (by decide)

@[simp] theorem ofNat_ne_nil (n : ℕ) : ofNat n ≠ [] := Nat.toDigits_ne_nil

theorem not_mem_ofNat {c : Char} (hc : c ∉ digits) (n : ℕ) : c ∉ ofNat n := fun hmem =>
  hc (mem_digits_of_mem_ofNat hmem)

theorem digitValue?_digits : ∀ c ∈ digits, digitValue? c = some (c.toNat - '0'.toNat) := by decide

theorem isBlank_digits : ∀ c ∈ digits, isBlank c = false := by decide

@[simp] theorem isSome_findRange (ranges : List (ℕ × ℕ)) (n : ℕ) :
    (findRange ranges n).isSome = inRanges ranges n := by
  induction ranges with
  | nil => rfl
  | cons r ranges ih =>
    rw [findRange, inRanges]
    split
    · rfl
    · split
      · rfl
      · exact ih

/-- The value of a digit of any script, zero for other characters. -/
def digitOf (c : Char) : ℕ := (digitValue? c).getD 0

theorem digitValue?_of_isDigit {c : Char} (hc : isDigit c = true) : digitValue? c = some (digitOf c) := by
  have hsome : (digitValue? c).isSome = true := by rwa [digitValue?, Option.isSome_map, isSome_findRange]
  obtain ⟨d, hd⟩ := Option.isSome_iff_exists.mp hsome
  rw [digitOf, hd, Option.getD_some]

theorem readDigits_of_isDigit {t : Text} (hne : t ≠ []) (ht : ∀ c ∈ t, isDigit c = true) :
    readDigits t = some (t.map digitOf) := by
  fun_induction readDigits t with
  | case1 => exact absurd rfl hne
  | case2 c => simp [digitValue?_of_isDigit (ht c (by simp))]
  | case3 c rest | case4 c rest => exact absurd (ht '_' (by simp)) (by decide)
  | case5 c rest hrest _ d ds hds hd ih =>
    obtain ⟨hc, ht⟩ := List.forall_mem_cons.mp ht
    rw [ih hrest ht] at hds
    rw [digitValue?_of_isDigit hc] at hd
    rw [← Option.some.inj hd, ← Option.some.inj hds, List.map_cons]
  | case6 c rest hrest _ hnone ih =>
    obtain ⟨hc, ht⟩ := List.forall_mem_cons.mp ht
    exact absurd (ih hrest ht) (hnone _ _ (digitValue?_of_isDigit hc))

/-- The number that digits of any script stand for. -/
def valueOf (t : Text) : ℕ := digitsToNat (t.map digitOf)

/-- A number is read from its digits, unless there are too many of them. -/
theorem readNat_of_isDigit {t : Text} (hne : t ≠ []) (ht : ∀ c ∈ t, isDigit c = true) :
    readNat t = if t.length ≤ maxIntegerDigits then .ok (valueOf t) else .error (.tooManyDigits t.length) := by
  rw [readNat, readDigits_of_isDigit hne ht]
  simp only [boundedDigits, List.length_map, valueOf]

theorem isDigit_of_mem_digits : ∀ c ∈ digits, isDigit c = true := by decide

theorem readDigits_of_digits {t : Text} (hne : t ≠ []) (ht : ∀ c ∈ t, c ∈ digits) :
    readDigits t = some (t.map fun c => c.toNat - '0'.toNat) := by
  have hvalue : t.map digitOf = t.map fun c => c.toNat - '0'.toNat :=
    List.map_congr_left fun c hc => by rw [digitOf, digitValue?_digits c (ht c hc), Option.getD_some]
  rw [readDigits_of_isDigit hne fun c hc => isDigit_of_mem_digits c (ht c hc), hvalue]

/-! ## White space -/

theorem exists_of_inRanges {ranges : List (ℕ × ℕ)} {n : ℕ} (h : inRanges ranges n = true) :
    ∃ r ∈ ranges, r.1 ≤ n ∧ n ≤ r.2 := by
  induction ranges with
  | nil => cases h
  | cons r ranges ih =>
    rw [inRanges] at h
    split at h
    · cases h
    · split at h
      · exact ⟨r, List.mem_cons_self .., by omega⟩
      · obtain ⟨r', hr', hn⟩ := ih h
        exact ⟨r', List.mem_cons_of_mem r hr', hn⟩

/-- No range of digits meets a range of white space. -/
theorem isBlank_of_isDigit {c : Char} (hc : isDigit c = true) : isBlank c = false := by
  have hapart : ∀ r ∈ digitRanges, ∀ s ∈ blankRanges, r.2 < s.1 ∨ s.2 < r.1 := by decide
  by_contra hblank
  rw [Bool.not_eq_false, isBlank] at hblank
  obtain ⟨r, hr, hlow, hhigh⟩ := exists_of_inRanges hc
  obtain ⟨s, hs, hlow', hhigh'⟩ := exists_of_inRanges hblank
  have := hapart r hr s hs
  omega

theorem isDigit_of_isBlank {c : Char} (hc : isBlank c = true) : isDigit c = false := by
  by_contra h
  rw [isBlank_of_isDigit (by simpa using h)] at hc
  cases hc

theorem dropRightWhile_append {p : Char → Bool} {u : Text} (hne : u ≠ [])
    (hu : ∀ c ∈ u, p c = false) (t : Text) : dropRightWhile p (t ++ u) = t ++ u := by
  obtain ⟨v, c, rfl⟩ := (List.eq_nil_or_concat u).resolve_left hne
  have hc : p c = false := hu c (by simp)
  simp [dropRightWhile, hc]

theorem dropWhile_eq_self {p : Char → Bool} {t : Text} (ht : ∀ c ∈ t, p c = false) :
    t.dropWhile p = t := by
  cases t with
  | nil => rfl
  | cons c t => exact List.dropWhile_cons_of_neg (by simp [ht c])

theorem of_head?_dropWhile {p : Char → Bool} {t : Text} {c : Char} (h : c ∈ (t.dropWhile p).head?) :
    p c = false := by
  have hnot := List.head?_dropWhile_not p t
  rw [h] at hnot
  simpa using hnot

theorem dropRightWhile_append_of_pos {p : Char → Bool} {u : Text} (hu : ∀ c ∈ u, p c = true) (t : Text) :
    dropRightWhile p (t ++ u) = dropRightWhile p t := by
  rw [dropRightWhile, dropRightWhile, List.reverse_append, List.dropWhile_append_of_pos (by simpa using hu)]

theorem of_getLast?_dropRightWhile {p : Char → Bool} {t : Text} {c : Char}
    (h : c ∈ (dropRightWhile p t).getLast?) : p c = false := by
  rw [dropRightWhile, List.getLast?_reverse] at h
  exact of_head?_dropWhile h

theorem exists_dropRightWhile (p : Char → Bool) (t : Text) :
    ∃ b, t = dropRightWhile p t ++ b ∧ ∀ c ∈ b, p c = true := by
  refine ⟨(t.reverse.takeWhile p).reverse, ?_, fun c hc => ?_⟩
  · rw [dropRightWhile, ← List.reverse_append, List.takeWhile_append_dropWhile, List.reverse_reverse]
  · exact List.mem_takeWhile_imp (List.mem_reverse.mp hc)

/-- What is stripped off is white space, and what is left has none at its ends. -/
theorem strip_spec (t : Text) : ∃ a b, t = a ++ t.strip ++ b ∧ (∀ c ∈ a, isBlank c = true) ∧
    (∀ c ∈ b, isBlank c = true) ∧ (∀ c ∈ t.strip.head?, isBlank c = false) ∧
    ∀ c ∈ t.strip.getLast?, isBlank c = false := by
  obtain ⟨b, hb, hblank⟩ := exists_dropRightWhile isBlank t.stripLeft
  refine ⟨t.takeWhile isBlank, b, ?_, fun c => List.mem_takeWhile_imp, hblank, fun c hc => ?_,
    fun c => of_getLast?_dropRightWhile⟩
  · rw [List.append_assoc, strip, stripRight, ← hb, stripLeft, List.takeWhile_append_dropWhile]
  · have hleft : t.stripLeft.head? = some c := by
      rw [hb, List.head?_append, ← stripRight, ← strip, hc, Option.some_or]
    exact of_head?_dropWhile hleft

theorem strip_ne_nil {t : Text} (h : t.isAllBlank = false) : t.strip ≠ [] := fun hnil => by
  obtain ⟨a, b, ht, ha, hb, -⟩ := strip_spec t
  have hall : t.isAllBlank = true := by
    rw [ht, hnil, isAllBlank, List.all_eq_true]
    simpa using fun c hc => hc.elim (ha c) (hb c)
  rw [h] at hall
  cases hall

theorem isBlank_of_mem_ofNat {n : ℕ} : ∀ c ∈ ofNat n, isBlank c = false := fun c hc =>
  isBlank_digits c (mem_digits_of_mem_ofNat hc)

theorem isDigit_of_mem_ofNat {n : ℕ} : ∀ c ∈ ofNat n, isDigit c = true := fun c hc =>
  isDigit_of_mem_digits c (mem_digits_of_mem_ofNat hc)

@[simp] theorem strip_ofNat (n : ℕ) : (ofNat n).strip = ofNat n := by
  rw [strip, stripLeft, dropWhile_eq_self isBlank_of_mem_ofNat]
  exact dropRightWhile_append (ofNat_ne_nil n) isBlank_of_mem_ofNat []

@[simp] theorem stripNumber_ofNat (n : ℕ) : stripNumber (ofNat n) = ofNat n := by
  have hblank : ∀ c ∈ ofNat n, isNumberBlank c = false := fun c hc => by
    rw [isNumberBlank, isBlank_of_mem_ofNat c hc, Bool.false_and]
  rw [stripNumber, dropWhile_eq_self hblank]
  exact dropRightWhile_append (ofNat_ne_nil n) hblank []

/-! ## Numbers -/

@[simp] theorem digitsToNat_ofNat (n : ℕ) :
    digitsToNat ((ofNat n).map fun c => c.toNat - '0'.toNat) = n := by
  rw [digitsToNat, List.foldl_map]
  exact Nat.ofDigitChars_toDigits (by decide) (by decide)

theorem lt_of_lt_fiveDigits {n : ℕ} (h : n < 10 ^ 5) : n < 10 ^ maxIntegerDigits :=
  Nat.lt_of_lt_of_le h (Nat.pow_le_pow_right (by decide) (by decide))

theorem readNat_ofNat {n : ℕ} (h : n < 10 ^ maxIntegerDigits) : readNat (ofNat n) = .ok n := by
  have hlength : (ofNat n).length ≤ maxIntegerDigits :=
    (Nat.length_toDigits_le_iff (by decide) (by decide)).mpr h
  rw [readNat, readDigits_of_digits (ofNat_ne_nil n) fun _ => mem_digits_of_mem_ofNat]
  simp only [boundedDigits, List.length_map, if_pos hlength, digitsToNat_ofNat]

theorem lt_length_of_readNat {t : Text} (hne : t ≠ []) (ht : ∀ c ∈ t, c ∈ digits) {e : IntegerError}
    (h : readNat t = .error e) : maxIntegerDigits < t.length := by
  rw [readNat, readDigits_of_digits hne ht] at h
  simp only [boundedDigits, List.length_map] at h
  split at h
  · cases h
  · next hlong => exact Nat.not_le.mp hlong

theorem readInt_ofNat {n : ℕ} (h : n < 10 ^ maxIntegerDigits) : readInt (ofNat n) = .ok n := by
  have hminus : '-' ∉ ofNat n := not_mem_ofNat (by decide) n
  have hplus : '+' ∉ ofNat n := not_mem_ofNat (by decide) n
  rw [readInt, stripNumber_ofNat]
  split
  · next rest heq => simp [heq] at hminus
  · next rest heq => simp [heq] at hplus
  · rw [readNat_ofNat h]
    rfl

theorem digitsToNat_lt {ds : List ℕ} (hds : ∀ d ∈ ds, d < 10) : digitsToNat ds < 10 ^ ds.length := by
  suffices h : ∀ n, ds.foldl (fun n d => 10 * n + d) n < (n + 1) * 10 ^ ds.length by
    simpa [digitsToNat] using h 0
  induction ds with
  | nil => simp
  | cons d ds ih =>
    intro n
    obtain ⟨hd, hds⟩ := List.forall_mem_cons.mp hds
    calc
      _ < (10 * n + d + 1) * 10 ^ ds.length := ih hds _
      _ ≤ ((n + 1) * 10) * 10 ^ ds.length := Nat.mul_le_mul_right _ (by omega)
      _ = (n + 1) * 10 ^ (d :: ds).length := by rw [List.length_cons, Nat.pow_succ', Nat.mul_assoc]

theorem digitValue?_lt {c : Char} {d : ℕ} (h : digitValue? c = some d) : d < 10 := by
  obtain ⟨range, -, rfl⟩ := Option.map_eq_some_iff.mp h
  exact Nat.mod_lt _ (by decide)

theorem readDigits_lt {t : Text} {ds : List ℕ} (h : readDigits t = some ds) : ∀ d ∈ ds, d < 10 := by
  fun_induction readDigits t generalizing ds with
  | case1 | case4 | case6 => cases h
  | case2 c =>
    obtain ⟨d, hd, rfl⟩ := Option.map_eq_some_iff.mp h
    simpa using digitValue?_lt hd
  | case3 c rest d ds hds hd ih | case5 c rest _ _ d ds hds hd ih =>
    obtain rfl := Option.some.inj h
    exact List.forall_mem_cons.mpr ⟨digitValue?_lt hd, ih hds⟩

theorem readNat_lt {t : Text} {n : ℕ} (h : readNat t = .ok n) : n < 10 ^ maxIntegerDigits := by
  rw [readNat] at h
  cases hds : readDigits t with
  | none => rw [hds] at h; cases h
  | some ds =>
    rw [hds] at h
    simp only [boundedDigits] at h
    split at h
    · next hlength =>
      obtain rfl := Except.ok.inj h
      calc
        _ < 10 ^ ds.length := digitsToNat_lt (readDigits_lt hds)
        _ ≤ 10 ^ maxIntegerDigits := Nat.pow_le_pow_right (by decide) hlength
    · cases h

theorem readInt_lt {t : Text} {n : ℕ} (h : readInt t = .ok n) : n < 10 ^ maxIntegerDigits := by
  have hunsigned : ∀ {u}, (readNat u).map Int.ofNat = .ok n → n < 10 ^ maxIntegerDigits := fun h => by
    obtain ⟨m, hm, heq⟩ := ok_of_map h
    obtain rfl := Int.ofNat.inj heq
    exact readNat_lt hm
  rw [readInt] at h
  split at h
  · next rest _ =>
    -- a number after a minus sign is natural only if it is zero
    obtain ⟨_, hm, hn⟩ := ok_of_map h
    obtain ⟨m, -, hm⟩ := ok_of_bind hm
    obtain rfl := Except.ok.inj hm
    have hzero : n = 0 := by omega
    rw [hzero]
    exact Nat.pow_pos (by decide)
  · exact hunsigned h
  · exact hunsigned h

end Text

end VerseSearch
