import Mathlib.Data.Nat.Notation
import VerseSearch.TaggedWord.Bytes

/-! # Tagged words are read back from their bytes

* `Alphabet.symbolAt?_of_indexOf?`: the code of a symbol names the symbol and lies below 128.
* `Encodable`: the words that have a byte form.
* `decodeFrom_encodeSymbols`: the symbols of a word are read up to the marked one, whatever bytes
  follow; the two bytes after it are the tag even if they look like symbols.
* `decodeFrom_encode_append`: the bytes of words are read up to their end, whatever bytes follow.
* `encode_isOk`, `decode_encode`: encodable words have bytes, and the bytes give the words.
-/

namespace VerseSearch
set_option autoImplicit false

/-! ## Codes of symbols -/

theorem Alphabet.symbolAt?_of_indexOf? (a : Alphabet) {c : Char} {i : ℕ}
    (h : a.indexOf? c = some i) : a.symbolAt? i = some c ∧ i < 128 := by
  obtain ⟨hi, hc, -⟩ := List.idxOf?_eq_some_iff.mp h
  refine ⟨?_, Nat.lt_of_lt_of_le hi a.length_le⟩
  rw [Alphabet.symbolAt?, List.getElem?_eq_getElem hi, hc]

theorem Alphabet.exists_indexOf? (a : Alphabet) {c : Char} (h : a.contains c = true) :
    ∃ i, a.indexOf? c = some i := by
  rw [← Option.isSome_iff_exists, Alphabet.indexOf?, List.isSome_idxOf?]
  exact List.contains_iff_mem.mp h

namespace TaggedWord

/-! ## Words that have bytes -/

/-- A word with a byte form: it has symbols, all of the alphabet, and its tag fits two bytes. -/
structure Encodable (a : Alphabet) (w : TaggedWord) : Prop where
  word_ne_nil : w.word ≠ []
  contains : ∀ c ∈ w.word, a.contains c = true
  tag_nonneg : 0 ≤ w.tag
  tag_lt : w.tag < tagLimit

theorem encodeSymbols_isOk (a : Alphabet) (word : Text) :
    ∀ cs : Text, (∀ c ∈ cs, a.contains c = true) → ∃ bytes, encodeSymbols a word cs = .ok bytes
  | [], _ => ⟨[], rfl⟩
  | [c], h => by
    obtain ⟨i, hi⟩ := a.exists_indexOf? (h c (by simp))
    exact ⟨_, by rw [encodeSymbols, hi]⟩
  | c :: d :: cs, h => by
    obtain ⟨i, hi⟩ := a.exists_indexOf? (h c (by simp))
    obtain ⟨bytes, hb⟩ := encodeSymbols_isOk a word (d :: cs)
      (fun x hx => h x (List.mem_cons_of_mem c hx))
    exact ⟨UInt8.ofNat i :: bytes, by rw [encodeSymbols, hi]; simp only [hb, Except.map]⟩

@[simp] theorem encode_nil (a : Alphabet) : encode a [] = .ok [] := rfl

theorem encode_cons {a : Alphabet} {w : TaggedWord} (hw : w.Encodable a) (ws : List TaggedWord) :
    ∃ symbols, encodeSymbols a w.word w.word = .ok symbols ∧
      encode a (w :: ws) = (encode a ws).map fun more =>
        symbols ++ UInt8.ofNat (w.tag.toNat / 256) :: UInt8.ofNat (w.tag.toNat % 256) :: more := by
  obtain ⟨symbols, hs⟩ := encodeSymbols_isOk a w.word w.word hw.contains
  have hword : encodeWord a w.word = .ok symbols := by
    rw [encodeWord, if_neg (by simpa using hw.word_ne_nil), hs]
  have htag : encodeTag w.tag =
      .ok [UInt8.ofNat (w.tag.toNat / 256), UInt8.ofNat (w.tag.toNat % 256)] := by
    rw [encodeTag, if_pos ⟨hw.tag_nonneg, hw.tag_lt⟩]
  refine ⟨symbols, hs, ?_⟩
  simp only [encode, List.map_cons, encodeWith, hword, htag, List.cons_append, List.nil_append]

theorem encode_isOk {a : Alphabet} {ws : List TaggedWord} (h : ∀ w ∈ ws, w.Encodable a) :
    ∃ bytes, encode a ws = .ok bytes := by
  induction ws with
  | nil => exact ⟨[], rfl⟩
  | cons w ws ih =>
    obtain ⟨more, hmore⟩ := ih (fun x hx => h x (List.mem_cons_of_mem w hx))
    obtain ⟨symbols, -, hcons⟩ := encode_cons (h w (List.mem_cons_self ..)) ws
    rw [hcons, hmore]
    exact ⟨_, rfl⟩

/-! ## Reading -/

theorem toNat_code {i : ℕ} (h : i < 128) : (UInt8.ofNat i).toNat = i := by
  rw [UInt8.toNat_ofNat']
  omega

theorem toNat_lastCode {i : ℕ} (h : i < 128) :
    (UInt8.ofNat (i + lastMark)).toNat = i + lastMark := by
  rw [UInt8.toNat_ofNat', lastMark]
  omega

section
variable {a : Alphabet} {b : UInt8} {c : Char}

/-- A byte below the mark adds its symbol to the word. -/
theorem decodeFrom_symbol (hc : a.symbolAt? (b.toNat % lastMark) = some c)
    (hb : b.toNat < lastMark) (offset : ℕ) (word : Text) (rest : List UInt8) :
    decodeFrom a offset word (b :: rest) = decodeFrom a (offset + 1) (c :: word) rest := by
  rw [decodeFrom, hc]
  simp only [if_pos hb]

/-- A marked byte ends the word, and the two bytes after it are its tag. -/
theorem decodeFrom_lastSymbol (hc : a.symbolAt? (b.toNat % lastMark) = some c)
    (hb : ¬ b.toNat < lastMark) (offset : ℕ) (word : Text) (high low : UInt8) (rest : List UInt8) :
    decodeFrom a offset word (b :: high :: low :: rest) =
      (decodeFrom a (offset + 3) [] rest).map fun ws =>
        ⟨(c :: word).reverse, (high.toNat * 256 + low.toNat : ℕ)⟩ :: ws := by
  rw [decodeFrom, hc]
  simp only [if_neg hb]

end

theorem decodeFrom_code {a : Alphabet} {c : Char} {i : ℕ} (h : a.indexOf? c = some i)
    (offset : ℕ) (word : Text) (rest : List UInt8) :
    decodeFrom a offset word (UInt8.ofNat i :: rest) = decodeFrom a (offset + 1) (c :: word) rest := by
  obtain ⟨hc, hi⟩ := a.symbolAt?_of_indexOf? h
  have hmod : i % lastMark = i := Nat.mod_eq_of_lt hi
  apply decodeFrom_symbol
  · rw [toNat_code hi, hmod, hc]
  · rw [toNat_code hi]
    exact hi

theorem decodeFrom_lastCode {a : Alphabet} {c : Char} {i : ℕ} (h : a.indexOf? c = some i)
    (offset : ℕ) (word : Text) (high low : UInt8) (rest : List UInt8) :
    decodeFrom a offset word (UInt8.ofNat (i + lastMark) :: high :: low :: rest) =
      (decodeFrom a (offset + 3) [] rest).map fun ws =>
        ⟨(c :: word).reverse, (high.toNat * 256 + low.toNat : ℕ)⟩ :: ws := by
  obtain ⟨hc, hi⟩ := a.symbolAt?_of_indexOf? h
  have hmod : (i + lastMark) % lastMark = i := by
    rw [Nat.add_mod_right]
    exact Nat.mod_eq_of_lt hi
  apply decodeFrom_lastSymbol
  · rw [toNat_lastCode hi, hmod, hc]
  · rw [toNat_lastCode hi]
    omega

theorem decodeFrom_encodeSymbols {a : Alphabet} (word : Text) (high low : UInt8)
    (rest : List UInt8) :
    ∀ (cs : Text) (symbols : List UInt8) (offset : ℕ) (done : Text), cs ≠ [] →
      encodeSymbols a word cs = .ok symbols →
      ∃ next, decodeFrom a offset done (symbols ++ high :: low :: rest) =
        (decodeFrom a next [] rest).map fun ws =>
          ⟨done.reverse ++ cs, (high.toNat * 256 + low.toNat : ℕ)⟩ :: ws
  | [], _, _, _, hne, _ => absurd rfl hne
  | [c], symbols, offset, done, _, h => by
    rw [encodeSymbols] at h
    cases hi : a.indexOf? c with
    | none => rw [hi] at h; cases h
    | some i =>
      rw [hi] at h
      obtain rfl := Except.ok.inj h
      refine ⟨offset + 3, ?_⟩
      rw [List.singleton_append, decodeFrom_lastCode hi]
      simp
  | c :: d :: cs, symbols, offset, done, _, h => by
    rw [encodeSymbols] at h
    cases hi : a.indexOf? c with
    | none => rw [hi] at h; cases h
    | some i =>
      rw [hi] at h
      cases hm : encodeSymbols a word (d :: cs) with
      | error e => rw [hm] at h; cases h
      | ok more =>
        rw [hm] at h
        obtain rfl := Except.ok.inj h
        obtain ⟨next, hnext⟩ := decodeFrom_encodeSymbols word high low rest (d :: cs) more
          (offset + 1) (c :: done) (by simp) hm
        refine ⟨next, ?_⟩
        rw [List.cons_append, decodeFrom_code hi, hnext]
        simp

theorem tag_of_bytes {tag : Int} (h0 : 0 ≤ tag) (h1 : tag < tagLimit) :
    (((UInt8.ofNat (tag.toNat / 256)).toNat * 256 + (UInt8.ofNat (tag.toNat % 256)).toNat : ℕ) :
      Int) = tag := by
  have hlt : tag.toNat < 65536 := by rw [tagLimit] at h1; omega
  rw [UInt8.toNat_ofNat', UInt8.toNat_ofNat']
  omega

/-- The bytes of words are read up to their end, whatever bytes follow. -/
theorem decodeFrom_encode_append {a : Alphabet} {ws : List TaggedWord}
    (h : ∀ w ∈ ws, w.Encodable a) {bytes : List UInt8} (hb : encode a ws = .ok bytes)
    (rest : List UInt8) (offset : ℕ) :
    ∃ next, decodeFrom a offset [] (bytes ++ rest) = (decodeFrom a next [] rest).map (ws ++ ·) := by
  induction ws generalizing bytes offset with
  | nil =>
    obtain rfl := Except.ok.inj hb
    refine ⟨offset, ?_⟩
    rw [List.nil_append]
    cases decodeFrom a offset [] rest <;> rfl
  | cons w ws ih =>
    have hw := h w (List.mem_cons_self ..)
    obtain ⟨symbols, hs, hcons⟩ := encode_cons hw ws
    rw [hcons] at hb
    cases hm : encode a ws with
    | error e => rw [hm] at hb; cases hb
    | ok more =>
      rw [hm] at hb
      obtain rfl := Except.ok.inj hb
      obtain ⟨middle, hmiddle⟩ := decodeFrom_encodeSymbols w.word (UInt8.ofNat (w.tag.toNat / 256))
        (UInt8.ofNat (w.tag.toNat % 256)) (more ++ rest) w.word symbols offset [] hw.word_ne_nil hs
      obtain ⟨next, hnext⟩ := ih (fun x hx => h x (List.mem_cons_of_mem w hx)) hm middle
      refine ⟨next, ?_⟩
      rw [List.append_assoc, List.cons_append, List.cons_append, hmiddle, hnext,
        tag_of_bytes hw.tag_nonneg hw.tag_lt]
      cases decodeFrom a next [] rest <;> rfl

theorem decodeFrom_encode {a : Alphabet} {ws : List TaggedWord} (h : ∀ w ∈ ws, w.Encodable a)
    {bytes : List UInt8} (hb : encode a ws = .ok bytes) (offset : ℕ) :
    decodeFrom a offset [] bytes = .ok ws := by
  obtain ⟨next, hnext⟩ := decodeFrom_encode_append h hb [] offset
  rw [List.append_nil] at hnext
  rw [hnext]
  exact congrArg Except.ok (List.append_nil ws)

theorem decode_encode {a : Alphabet} {ws : List TaggedWord} (h : ∀ w ∈ ws, w.Encodable a)
    {bytes : List UInt8} (hb : encode a ws = .ok bytes) : decode a bytes = .ok ws :=
  decodeFrom_encode h hb 0

end TaggedWord

end VerseSearch
