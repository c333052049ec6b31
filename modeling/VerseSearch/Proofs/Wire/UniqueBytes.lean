import VerseSearch.Proofs.Wire.WordBytes

/-! # Every list of words has one byte form, and only byte forms are read

* `encode_eq_ok_cons`: what a byte form of a first word and more words is made of.
* `exists_encode_iff`, `length_of_encode`: which words have bytes, and how many.
* `encode_of_decodeFrom`: the bytes that were read come back from the words, also in the middle of
  a word, where the symbols read so far stand in front of them.
* `decode_eq_ok_iff`: reading and writing are inverse to each other.
-/

namespace VerseSearch
set_option autoImplicit false

/-! ## Symbols of codes -/

theorem Alphabet.indexOf?_of_symbolAt? (a : Alphabet) {c : Char} {i : ℕ}
    (h : a.symbolAt? i = some c) : a.indexOf? c = some i := by
  obtain ⟨hi, rfl⟩ := List.getElem?_eq_some_iff.mp h
  rw [Alphabet.indexOf?, List.idxOf?_eq_some_iff]
  refine ⟨hi, rfl, fun j hj heq => ?_⟩
  exact List.pairwise_iff_getElem.mp a.nodup j i (Nat.lt_trans hj hi) hi hj heq

theorem Alphabet.contains_of_indexOf? (a : Alphabet) {c : Char} {i : ℕ}
    (h : a.indexOf? c = some i) : a.contains c = true := by
  have hsome : (a.indexOf? c).isSome = true := by rw [h]; rfl
  rw [Alphabet.indexOf?, List.isSome_idxOf?] at hsome
  exact List.contains_iff_mem.mpr hsome

namespace TaggedWord

variable {a : Alphabet}

/-! ## The parts of a byte form -/

theorem encodeSymbols_cons_ok {word : Text} {c : Char} {cs : Text} {symbols : List UInt8}
    (h : encodeSymbols a word (c :: cs) = .ok symbols) :
    ∃ i, a.indexOf? c = some i ∧
      ((cs = [] ∧ symbols = [UInt8.ofNat (i + lastMark)]) ∨
        ∃ more, cs ≠ [] ∧ encodeSymbols a word cs = .ok more ∧ symbols = UInt8.ofNat i :: more) := by
  rw [encodeSymbols] at h
  cases hi : a.indexOf? c with
  | none => rw [hi] at h; cases h
  | some i =>
    rw [hi] at h
    refine ⟨i, rfl, ?_⟩
    cases cs with
    | nil => exact .inl ⟨rfl, (Except.ok.inj h).symm⟩
    | cons d cs =>
      cases hm : encodeSymbols a word (d :: cs) with
      | error e => rw [hm] at h; cases h
      | ok more =>
        rw [hm] at h
        exact .inr ⟨more, by simp, rfl, (Except.ok.inj h).symm⟩

theorem encodeSymbols_spec {word cs : Text} {symbols : List UInt8}
    (h : encodeSymbols a word cs = .ok symbols) :
    (∀ c ∈ cs, a.contains c = true) ∧ symbols.length = cs.length := by
  induction cs generalizing symbols with
  | nil =>
    obtain rfl := Except.ok.inj h
    simp
  | cons c cs ih =>
    obtain ⟨i, hi, ⟨rfl, rfl⟩ | ⟨more, -, hmore, rfl⟩⟩ := encodeSymbols_cons_ok h
    · simpa using a.contains_of_indexOf? hi
    · obtain ⟨hcontains, hlength⟩ := ih hmore
      exact ⟨List.forall_mem_cons.mpr ⟨a.contains_of_indexOf? hi, hcontains⟩, by simp [hlength]⟩

/-- The byte form of a first word and more words: symbols, two bytes for the tag, and the rest. -/
theorem encode_eq_ok_cons {w : TaggedWord} {ws : List TaggedWord} {bytes : List UInt8}
    (h : encode a (w :: ws) = .ok bytes) :
    ∃ symbols more, w.Encodable a ∧ symbols.length = w.word.length ∧ encode a ws = .ok more ∧
      bytes = symbols ++ UInt8.ofNat (w.tag.toNat / 256) :: UInt8.ofNat (w.tag.toNat % 256) :: more := by
  rw [encode, List.map_cons, encodeWith] at h
  cases hword : encodeWord a w.word with
  | error e => rw [hword] at h; cases h
  | ok symbols =>
    simp only [hword] at h
    cases htag : encodeTag w.tag with
    | error e => rw [htag] at h; cases h
    | ok tail =>
      simp only [htag] at h
      rw [← encode] at h
      cases hmore : encode a ws with
      | error e => rw [hmore] at h; cases h
      | ok more =>
        rw [hmore] at h
        unfold encodeWord at hword
        split at hword
        · cases hword
        · next hne =>
          unfold encodeTag at htag
          split at htag
          · next hrange =>
            obtain ⟨hcontains, hlength⟩ := encodeSymbols_spec hword
            obtain rfl := Except.ok.inj htag
            obtain rfl := Except.ok.inj h
            exact ⟨symbols, more, ⟨by simpa using hne, hcontains, hrange.1, hrange.2⟩, hlength, rfl,
              rfl⟩
          · cases htag

/-! ## Which words have bytes -/

/-- The number of bytes of words: one for each symbol and two for each tag. -/
def byteCount : List TaggedWord → ℕ
  | [] => 0
  | w :: ws => w.word.length + 2 + byteCount ws

theorem encodable_of_encode {ws : List TaggedWord} {bytes : List UInt8}
    (h : encode a ws = .ok bytes) : ∀ w ∈ ws, w.Encodable a := by
  induction ws generalizing bytes with
  | nil => simp
  | cons w ws ih =>
    obtain ⟨symbols, more, hw, -, hmore, -⟩ := encode_eq_ok_cons h
    exact List.forall_mem_cons.mpr ⟨hw, ih hmore⟩

theorem exists_encode_iff {ws : List TaggedWord} :
    (∃ bytes, encode a ws = .ok bytes) ↔ ∀ w ∈ ws, w.Encodable a :=
  ⟨fun ⟨_, h⟩ => encodable_of_encode h, encode_isOk⟩

theorem encodable_iff {w : TaggedWord} : w.Encodable a ↔
    w.word ≠ [] ∧ (∀ c ∈ w.word, c ∈ a.symbols) ∧ 0 ≤ w.tag ∧ w.tag ≤ 65535 := by
  have hcontains : (∀ c ∈ w.word, a.contains c = true) ↔ ∀ c ∈ w.word, c ∈ a.symbols :=
    forall₂_congr fun _ _ => List.contains_iff_mem
  have hlimit : w.tag < tagLimit ↔ w.tag ≤ 65535 := by
    rw [tagLimit]
    omega
  rw [← hcontains, ← hlimit]
  constructor
  · intro h
    exact ⟨h.word_ne_nil, h.contains, h.tag_nonneg, h.tag_lt⟩
  · rintro ⟨hne, hsymbols, hnonneg, hlt⟩
    exact ⟨hne, hsymbols, hnonneg, hlt⟩

theorem length_of_encode {ws : List TaggedWord} {bytes : List UInt8}
    (h : encode a ws = .ok bytes) : bytes.length = byteCount ws := by
  induction ws generalizing bytes with
  | nil =>
    obtain rfl := Except.ok.inj h
    rfl
  | cons w ws ih =>
    obtain ⟨symbols, more, -, hlength, hmore, rfl⟩ := encode_eq_ok_cons h
    have hrest := ih hmore
    simp only [byteCount, List.length_append, List.length_cons]
    omega

/-! ## Bytes that are read -/

/-- The byte of a symbol that does not end its word. -/
def codeByte (a : Alphabet) (c : Char) : UInt8 := UInt8.ofNat ((a.indexOf? c).getD 0)

theorem encodeSymbols_append_singleton {word : Text} {c : Char} {i : ℕ} (hi : a.indexOf? c = some i)
    {cs : Text} (h : ∀ d ∈ cs, a.contains d = true) : encodeSymbols a word (cs ++ [c]) =
      .ok (cs.map (codeByte a) ++ [UInt8.ofNat (i + lastMark)]) := by
  induction cs with
  | nil =>
    rw [List.nil_append, encodeSymbols, hi]
    rfl
  | cons d cs ih =>
    obtain ⟨j, hj⟩ := a.exists_indexOf? (h d (by simp))
    have hrest := ih fun x hx => h x (List.mem_cons_of_mem d hx)
    have hbyte : codeByte a d = UInt8.ofNat j := by rw [codeByte, hj]; rfl
    obtain ⟨e, es, hes⟩ := List.exists_cons_of_ne_nil (List.append_ne_nil_of_right_ne_nil cs
      (List.cons_ne_nil c []))
    rw [List.cons_append, List.map_cons, hbyte, encodeSymbols, hj]
    rw [hes] at hrest ⊢
    simp only [hrest]
    rfl

theorem encode_cons_of_bytes {word : Text} {c : Char} {b high low : UInt8} {ws : List TaggedWord}
    {more : List UInt8} (hc : a.symbolAt? (b.toNat % lastMark) = some c) (hb : ¬ b.toNat < lastMark)
    (hword : ∀ d ∈ word, a.contains d = true) (hws : encode a ws = .ok more) :
    encode a (⟨word ++ [c], (high.toNat * 256 + low.toNat : ℕ)⟩ :: ws) =
      .ok (word.map (codeByte a) ++ b :: high :: low :: more) := by
  have hi := a.indexOf?_of_symbolAt? hc
  have hhigh := high.toNat_lt
  have hlow := low.toNat_lt
  have hmark : UInt8.ofNat (b.toNat % lastMark + lastMark) = b := by
    have hlt := b.toNat_lt
    rw [lastMark] at hb ⊢
    rw [show b.toNat % 128 + 128 = b.toNat by omega, UInt8.ofNat_toNat]
  have hencodable : TaggedWord.Encodable a ⟨word ++ [c], (high.toNat * 256 + low.toNat : ℕ)⟩ := by
    refine ⟨by simp, fun d hd => ?_, Int.natCast_nonneg _, ?_⟩
    · obtain hd | hd := List.mem_append.mp hd
      · exact hword d hd
      · obtain rfl := List.mem_singleton.mp hd
        exact a.contains_of_indexOf? hi
    · change ((high.toNat * 256 + low.toNat : ℕ) : Int) < tagLimit
      rw [tagLimit]
      omega
  obtain ⟨symbols, hsymbols, hcons⟩ := encode_cons hencodable ws
  rw [encodeSymbols_append_singleton hi hword, hmark] at hsymbols
  obtain rfl := Except.ok.inj hsymbols
  have hdiv : (high.toNat * 256 + low.toNat) / 256 = high.toNat := by omega
  have hmod : (high.toNat * 256 + low.toNat) % 256 = low.toNat := by omega
  rw [hcons, hws]
  simp only [Except.map, Int.toNat_natCast, hdiv, hmod, UInt8.ofNat_toNat, List.append_assoc,
    List.singleton_append]

/-- Words that were read after the symbols `done` have the bytes that were read, after those of the
symbols. -/
theorem encode_of_decodeFrom {offset : ℕ} {done : Text} {bytes : List UInt8} {ws : List TaggedWord}
    (hdone : ∀ c ∈ done, a.contains c = true) (h : decodeFrom a offset done bytes = .ok ws) :
    encode a ws = .ok (done.reverse.map (codeByte a) ++ bytes) := by
  fun_induction decodeFrom a offset done bytes generalizing ws with
  | case1 offset done hempty =>
    obtain rfl := Except.ok.inj h
    rw [List.isEmpty_iff.mp hempty]
    rfl
  | case2 => cases h
  | case3 => cases h
  | case4 offset done b rest c hc hb ih =>
    have hi := a.indexOf?_of_symbolAt? hc
    have hbyte : codeByte a c = b := by
      rw [codeByte, hi, Option.getD_some, Nat.mod_eq_of_lt hb, UInt8.ofNat_toNat]
    rw [ih (List.forall_mem_cons.mpr ⟨a.contains_of_indexOf? hi, hdone⟩) h, List.reverse_cons,
      List.map_append, List.append_assoc, List.map_singleton, hbyte, List.singleton_append]
  | case5 offset done b c hc hb high low more ih =>
    cases hmore : decodeFrom a (offset + 3) [] more with
    | error e => rw [hmore] at h; cases h
    | ok rest =>
      rw [hmore] at h
      obtain rfl := Except.ok.inj h
      rw [List.reverse_cons]
      refine encode_cons_of_bytes hc hb (fun d hd => hdone d (List.mem_reverse.mp hd)) ?_
      exact ih (by simp) hmore
  | case6 => cases h

theorem encode_of_decode {bytes : List UInt8} {ws : List TaggedWord} (h : decode a bytes = .ok ws) :
    encode a ws = .ok bytes := encode_of_decodeFrom (by simp) h

theorem decode_eq_ok_iff {bytes : List UInt8} {ws : List TaggedWord} :
    decode a bytes = .ok ws ↔ encode a ws = .ok bytes :=
  ⟨encode_of_decode, fun h => decode_encode (encodable_of_encode h) h⟩

/-! ## The byte forms of an alphabet -/

/-- Words have bytes if each has symbols, all of them of the alphabet, and a tag below 65536. Their
bytes are as many as symbols and tags ask for, and bytes are read as words if they are the bytes of
these words. -/
theorem decode_inverts_encode (a : Alphabet) :
    (∀ ws, (∃ bytes, encode a ws = .ok bytes) ↔
      ∀ w ∈ ws, w.word ≠ [] ∧ (∀ c ∈ w.word, c ∈ a.symbols) ∧ 0 ≤ w.tag ∧ w.tag ≤ 65535) ∧
    (∀ ws bytes, encode a ws = .ok bytes → bytes.length = byteCount ws) ∧
    ∀ ws bytes, decode a bytes = .ok ws ↔ encode a ws = .ok bytes := by
  refine ⟨fun ws => ?_, fun ws bytes => length_of_encode, fun ws bytes => decode_eq_ok_iff⟩
  rw [exists_encode_iff]
  exact forall₂_congr fun w _ => encodable_iff

/-- An alphabet in which every code is that of a symbol. -/
def fullAlphabet : Alphabet where
  symbols := Hebrew.separator :: (List.range 127).map fun n => Char.ofNat (256 + n)
  length_le := by decide +kernel
  head_eq := rfl
  nodup := by decide +kernel

/-- A word of the last code in front of a tag whose two bytes look like ends of words. -/
theorem decode_inverts_encode_of_last_code :
    encode fullAlphabet [⟨['\u017e', '\u017e'], 0x8081⟩, ⟨[' '], 0⟩] =
        .ok [0x7f, 0xff, 0x80, 0x81, 0x80, 0, 0] ∧
      List.length [(0x7f : UInt8), 0xff, 0x80, 0x81, 0x80, 0, 0] =
        byteCount [⟨['\u017e', '\u017e'], 0x8081⟩, ⟨[' '], 0⟩] ∧
      decode fullAlphabet [0x7f, 0xff, 0x80, 0x81, 0x80, 0, 0] =
        .ok [⟨['\u017e', '\u017e'], 0x8081⟩, ⟨[' '], 0⟩] := by
  obtain ⟨-, hlength, hinverse⟩ := decode_inverts_encode fullAlphabet
  have hencode : encode fullAlphabet [⟨['\u017e', '\u017e'], 0x8081⟩, ⟨[' '], 0⟩] =
      .ok [0x7f, 0xff, 0x80, 0x81, 0x80, 0, 0] := rfl
  exact ⟨hencode, hlength _ _ hencode, (hinverse _ _).mpr hencode⟩

end TaggedWord

end VerseSearch
