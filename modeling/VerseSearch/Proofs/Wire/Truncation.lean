import VerseSearch.Proofs.Wire.UniqueBytes

/-! # Bytes that end too early and bytes of no words

* `CodeError.Kind`: the kinds of failures, without the places where they occur.
* `mapError_kind_decodeFrom`: what kind of failure it is does not depend on where reading begins.
* `decodeFrom_cases`: bytes are read, or they end too early and some more bytes complete them, or
  they fail whatever comes after them.
* `decode_cut`: a part of the bytes of words is read as the words that are complete in it.
* `decode_failures`: both failures by what can follow the bytes, cuts, and bytes in a row.
-/

namespace VerseSearch
set_option autoImplicit false

/-! ## Kinds of failures -/

/-- What kind of failure an error is. -/
inductive CodeError.Kind where
  | emptyWord
  | tagOutOfRange
  | unknownSymbol
  | truncated
  | notBase64
  deriving Repr, DecidableEq

/-- The kind of an error: an unknown symbol is one that is to be written or one that is read, and
bytes are truncated inside a word or inside a tag. -/
def CodeError.kind : CodeError → Kind
  | .emptyWord => .emptyWord
  | .tagOutOfRange _ => .tagOutOfRange
  | .unknownSymbol .. => .unknownSymbol
  | .truncatedWord _ => .truncated
  | .truncatedTag _ => .truncated
  | .unknownCode .. => .unknownSymbol
  | .notBase64 _ => .notBase64

namespace TaggedWord

variable {a : Alphabet}

/-- Bytes that fail with a kind of error. -/
def FailsWith (a : Alphabet) (bytes : List UInt8) (k : CodeError.Kind) : Prop :=
  ∃ e, decode a bytes = .error e ∧ e.kind = k

/-! ## Places -/

@[simp] theorem mapError_map {α β ε κ : Type} (x : Except ε α) (f : α → β) (g : ε → κ) :
    (x.map f).mapError g = (x.mapError g).map f := by
  cases x <;> rfl

/-- What bytes are read as, and how they fail, does not depend on the place of the first one. -/
theorem mapError_kind_decodeFrom (offset offset' : ℕ) (done : Text) (bytes : List UInt8) :
    (decodeFrom a offset done bytes).mapError CodeError.kind =
      (decodeFrom a offset' done bytes).mapError CodeError.kind := by
  fun_induction decodeFrom a offset done bytes generalizing offset' with
  | case1 offset done hempty => rw [decodeFrom, if_pos hempty]
  | case2 offset done hne =>
    rw [decodeFrom, if_neg hne]
    rfl
  | case3 offset done b rest hc =>
    rw [decodeFrom, hc]
    rfl
  | case4 offset done b rest c hc hb ih =>
    rw [decodeFrom_symbol hc hb]
    exact ih (offset' + 1)
  | case5 offset done b c hc hb high low more ih =>
    rw [decodeFrom_lastSymbol hc hb, mapError_map, mapError_map, ih (offset' + 3)]
  | case6 offset done b rest c hc hb hshort =>
    rw [decodeFrom, hc]
    simp only [if_neg hb]
    rfl

/-! ## What can follow -/

theorem decodeFrom_completed (offset : ℕ) (done : Text) :
    ∃ ws, decodeFrom a offset done [UInt8.ofNat lastMark, 0, 0] = .ok ws := by
  have hseparator : a.symbolAt? ((UInt8.ofNat lastMark).toNat % lastMark) = some Hebrew.separator := by
    rw [Alphabet.symbolAt?, ← a.head_eq, List.head?_eq_getElem?]
    rfl
  rw [decodeFrom_lastSymbol hseparator (by decide), decodeFrom]
  exact ⟨_, rfl⟩

/-- Bytes are read, or they end too early and some more bytes complete them, or they fail whatever
comes after them. -/
theorem decodeFrom_cases (a : Alphabet) (offset : ℕ) (done : Text) (bytes : List UInt8) :
    (∃ ws, decodeFrom a offset done bytes = .ok ws) ∨
      (∃ e, decodeFrom a offset done bytes = .error e ∧ e.kind = .truncated ∧
        ∃ more ws, decodeFrom a offset done (bytes ++ more) = .ok ws) ∨
      ∃ e, decodeFrom a offset done bytes = .error e ∧ e.kind = .unknownSymbol ∧
        ∀ more, decodeFrom a offset done (bytes ++ more) = .error e := by
  fun_induction decodeFrom a offset done bytes with
  | case1 => exact .inl ⟨[], rfl⟩
  | case2 offset done =>
    obtain ⟨ws, hws⟩ := decodeFrom_completed (a := a) offset done
    exact .inr (.inl ⟨_, rfl, rfl, _, ws, hws⟩)
  | case3 offset done b rest hc =>
    refine .inr (.inr ⟨_, rfl, rfl, fun more => ?_⟩)
    rw [List.cons_append, decodeFrom, hc]
  | case4 offset done b rest c hc hb ih =>
    have hstep : ∀ more, decodeFrom a offset done (b :: rest ++ more) =
        decodeFrom a (offset + 1) (c :: done) (rest ++ more) := fun more =>
      decodeFrom_symbol hc hb offset done (rest ++ more)
    simp only [hstep]
    exact ih
  | case5 offset done b c hc hb high low more ih =>
    have hstep : ∀ after, decodeFrom a offset done (b :: high :: low :: more ++ after) =
        (decodeFrom a (offset + 3) [] (more ++ after)).map fun ws =>
          ⟨(c :: done).reverse, (high.toNat * 256 + low.toNat : ℕ)⟩ :: ws := fun after =>
      decodeFrom_lastSymbol hc hb offset done high low (more ++ after)
    simp only [hstep]
    obtain ⟨ws, hws⟩ | ⟨e, he, hkind, after, ws, hws⟩ | ⟨e, he, hkind, hafter⟩ := ih
    · exact .inl ⟨_, by rw [hws]; rfl⟩
    · exact .inr (.inl ⟨e, by rw [he]; rfl, hkind, after, _, by rw [hws]; rfl⟩)
    · exact .inr (.inr ⟨e, by rw [he]; rfl, hkind, fun after => by rw [hafter]; rfl⟩)
  | case6 offset done b rest c hc hb hshort =>
    refine .inr (.inl ⟨_, rfl, rfl, ?_⟩)
    -- what is missing of the tag is filled with zeros
    have hfilled : ∃ high low more, rest ++ more = [high, low] := by
      rcases rest with _ | ⟨high, _ | ⟨low, more⟩⟩
      · exact ⟨0, 0, [0, 0], rfl⟩
      · exact ⟨high, 0, [0], rfl⟩
      · exact absurd rfl (hshort high low more)
    obtain ⟨high, low, more, hmore⟩ := hfilled
    refine ⟨more, [⟨(c :: done).reverse, (high.toNat * 256 + low.toNat : ℕ)⟩], ?_⟩
    rw [List.cons_append, hmore, decodeFrom_lastSymbol hc hb, decodeFrom]
    rfl

theorem FailsWith.not_ok {bytes : List UInt8} {k : CodeError.Kind} (h : FailsWith a bytes k)
    (ws : List TaggedWord) : decode a bytes ≠ .ok ws := by
  obtain ⟨e, he, -⟩ := h
  rw [he]
  simp

theorem FailsWith.kind_eq {bytes : List UInt8} {k k' : CodeError.Kind} (h : FailsWith a bytes k)
    (h' : FailsWith a bytes k') : k = k' := by
  obtain ⟨e, he, rfl⟩ := h
  obtain ⟨e', he', rfl⟩ := h'
  rw [he] at he'
  rw [Except.error.inj he']

theorem decode_outcomes (a : Alphabet) (bytes : List UInt8) :
    (∃ ws, decode a bytes = .ok ws) ∨
      (FailsWith a bytes .truncated ∧ ∃ more ws, decode a (bytes ++ more) = .ok ws) ∨
      (FailsWith a bytes .unknownSymbol ∧ ∀ more ws, decode a (bytes ++ more) ≠ .ok ws) := by
  obtain hok | ⟨e, he, hkind, hmore⟩ | ⟨e, he, hkind, hmore⟩ := decodeFrom_cases a 0 [] bytes
  · exact .inl hok
  · exact .inr (.inl ⟨⟨e, he, hkind⟩, hmore⟩)
  · refine .inr (.inr ⟨⟨e, he, hkind⟩, fun more ws hws => ?_⟩)
    rw [decode, hmore] at hws
    cases hws

theorem truncated_iff {bytes : List UInt8} : FailsWith a bytes .truncated ↔
    (∀ ws, decode a bytes ≠ .ok ws) ∧ ∃ more ws, decode a (bytes ++ more) = .ok ws := by
  obtain ⟨ws, hws⟩ | ⟨hfails, hmore⟩ | ⟨hfails, hnone⟩ := decode_outcomes a bytes
  · exact ⟨fun h => absurd hws (h.not_ok ws), fun h => absurd hws (h.1 ws)⟩
  · exact ⟨fun _ => ⟨hfails.not_ok, hmore⟩, fun _ => hfails⟩
  · exact ⟨fun h => absurd (hfails.kind_eq h) (by decide),
      fun ⟨_, more, ws, hws⟩ => absurd hws (hnone more ws)⟩

theorem unknownSymbol_iff {bytes : List UInt8} : FailsWith a bytes .unknownSymbol ↔
    ∀ more ws, decode a (bytes ++ more) ≠ .ok ws := by
  obtain ⟨ws, hws⟩ | ⟨hfails, more, ws, hws⟩ | ⟨hfails, hnone⟩ := decode_outcomes a bytes
  · refine ⟨fun h => absurd hws (h.not_ok ws), fun hnone => absurd ?_ (hnone [] ws)⟩
    rwa [List.append_nil]
  · exact ⟨fun h => absurd (hfails.kind_eq h) (by decide), fun hnone => absurd hws (hnone more ws)⟩
  · exact ⟨fun _ => hnone, fun _ => hfails⟩

theorem kind_of_decode {bytes : List UInt8} {e : CodeError} (h : decode a bytes = .error e) :
    e.kind = .truncated ∨ e.kind = .unknownSymbol := by
  have hfails : FailsWith a bytes e.kind := ⟨e, h, rfl⟩
  obtain ⟨ws, hws⟩ | ⟨htruncated, -⟩ | ⟨hunknown, -⟩ := decode_outcomes a bytes
  · exact absurd hws (hfails.not_ok ws)
  · exact .inl (hfails.kind_eq htruncated)
  · exact .inr (hfails.kind_eq hunknown)

/-! ## Bytes in a row -/

theorem decode_append {xs : List TaggedWord} {bytes : List UInt8} (h : encode a xs = .ok bytes)
    (more : List UInt8) : (decode a (bytes ++ more)).mapError CodeError.kind =
      ((decode a more).map (xs ++ ·)).mapError CodeError.kind := by
  obtain ⟨next, hnext⟩ := decodeFrom_encode_append (encodable_of_encode h) h more 0
  rw [decode, hnext, mapError_map, mapError_map, decode, mapError_kind_decodeFrom next 0]

theorem decode_append_ok {xs ys : List TaggedWord} {bytes more : List UInt8}
    (hxs : encode a xs = .ok bytes) (hys : decode a more = .ok ys) :
    decode a (bytes ++ more) = .ok (xs ++ ys) := by
  have happend := decode_append hxs more
  rw [hys] at happend
  cases h : decode a (bytes ++ more) with
  | error e => rw [h] at happend; cases happend
  | ok ws =>
    rw [h] at happend
    rw [Except.ok.inj happend]

/-- The bytes of words up to a place are those of the words before it, or they end too early. -/
theorem decode_cut {ws : List TaggedWord} {front back : List UInt8}
    (h : encode a ws = .ok (front ++ back)) :
    (∀ k, byteCount (ws.take k) = front.length → decode a front = .ok (ws.take k)) ∧
      ((∀ k, byteCount (ws.take k) ≠ front.length) → FailsWith a front .truncated) := by
  constructor
  · intro k hk
    have hws := encodable_of_encode h
    obtain ⟨before, hbefore⟩ := encode_isOk fun w hw => hws w (List.mem_of_mem_take hw)
    obtain ⟨after, hafter⟩ := encode_isOk fun w hw => hws w (List.mem_of_mem_drop hw)
    have hwhole := decode_append_ok hbefore (decode_eq_ok_iff.mpr hafter)
    rw [List.take_append_drop, decode_eq_ok_iff, h] at hwhole
    have hlength : front.length = before.length := by rw [length_of_encode hbefore, hk]
    obtain ⟨rfl, -⟩ := List.append_inj (Except.ok.inj hwhole) hlength
    exact decode_eq_ok_iff.mpr hbefore
  · intro hnot
    rw [truncated_iff]
    refine ⟨fun ys hys => ?_, back, ws, decode_eq_ok_iff.mpr h⟩
    -- words that the front gives are the first ones, so it ends behind one of them
    have hfront := decode_eq_ok_iff.mp hys
    have hwhole := decode_append hfront back
    rw [decode_eq_ok_iff.mpr h] at hwhole
    cases hback : decode a back with
    | error e => rw [hback] at hwhole; cases hwhole
    | ok zs =>
      rw [hback] at hwhole
      have hws : ws = ys ++ zs := Except.ok.inj hwhole
      refine hnot ys.length ?_
      rw [hws, List.take_left, length_of_encode hfront]

/-- Bytes end too early if they are not those of words but some longer bytes that begin with them
are; they hold an unknown symbol if no bytes that begin with them are read, and there is no other
failure. The bytes of words up to a place are those of the words before it, or they end too early.
After the bytes of words, other bytes are read as by themselves. -/
theorem decode_failures (a : Alphabet) :
    (∀ bytes,
      (FailsWith a bytes .truncated ↔ (∀ ws, encode a ws ≠ .ok bytes) ∧
        ∃ more ws, more ≠ [] ∧ decode a (bytes ++ more) = .ok ws) ∧
      (FailsWith a bytes .unknownSymbol ↔ ∀ more ws, decode a (bytes ++ more) ≠ .ok ws) ∧
      ∀ e, decode a bytes = .error e → e.kind = .truncated ∨ e.kind = .unknownSymbol) ∧
    (∀ ws front back, encode a ws = .ok (front ++ back) →
      (∀ k, byteCount (ws.take k) = front.length → decode a front = .ok (ws.take k)) ∧
      ((∀ k, byteCount (ws.take k) ≠ front.length) → FailsWith a front .truncated)) ∧
    ∀ xs bytes more, encode a xs = .ok bytes →
      (decode a (bytes ++ more)).mapError CodeError.kind =
        ((decode a more).map (xs ++ ·)).mapError CodeError.kind := by
  refine ⟨fun bytes => ⟨?_, unknownSymbol_iff, fun e => kind_of_decode⟩,
    fun ws front back => decode_cut, fun xs bytes more h => decode_append h more⟩
  have hnot : (∀ ws, encode a ws ≠ .ok bytes) ↔ ∀ ws, decode a bytes ≠ .ok ws :=
    forall_congr' fun ws => not_congr decode_eq_ok_iff.symm
  rw [truncated_iff, hnot]
  refine and_congr_right fun hfails => exists_congr fun more => ?_
  constructor
  · rintro ⟨ws, hws⟩
    refine ⟨ws, ?_, hws⟩
    rintro rfl
    rw [List.append_nil] at hws
    exact hfails ws hws
  · rintro ⟨ws, -, hws⟩
    exact ⟨ws, hws⟩

/-- Two words cut behind the first one and inside the second one, and the first one before a byte of
no symbol. -/
theorem decode_failures_of_two_words :
    encode .hebrew [⟨['א'], 1⟩, ⟨['ב', 'ג'], 5⟩] = .ok [0x81, 0, 1, 2, 0x83, 0, 5] ∧
      decode .hebrew [0x81, 0, 1] = .ok [⟨['א'], 1⟩] ∧
      FailsWith .hebrew [0x81, 0, 1, 2] .truncated ∧
      (∃ more ws, more ≠ [] ∧ decode .hebrew ([0x81, 0, 1, 2] ++ more) = .ok ws) ∧
      (∀ more ws, decode .hebrew ([0x7f] ++ more) ≠ .ok ws) ∧
      (decode .hebrew ([0x81, 0, 1] ++ [0x7f])).mapError CodeError.kind = .error .unknownSymbol := by
  obtain ⟨hkinds, hcuts, happend⟩ := decode_failures .hebrew
  have htwo : encode .hebrew [⟨['א'], 1⟩, ⟨['ב', 'ג'], 5⟩] = .ok [0x81, 0, 1, 2, 0x83, 0, 5] := rfl
  have hone : encode .hebrew [⟨['א'], 1⟩] = .ok [0x81, 0, 1] := rfl
  have hinside : FailsWith .hebrew [0x81, 0, 1, 2] .truncated := by
    refine (hcuts _ [0x81, 0, 1, 2] [0x83, 0, 5] htwo).2 fun k => ?_
    match k with
    | 0 => decide
    | 1 => decide
    | k + 2 => simp [byteCount]
  have hunknown : FailsWith .hebrew [0x7f] .unknownSymbol := ⟨.unknownCode 127 0, rfl, rfl⟩
  refine ⟨htwo, (hcuts _ [0x81, 0, 1] [2, 0x83, 0, 5] htwo).1 1 rfl, hinside,
    ((hkinds _).1.mp hinside).2, (hkinds _).2.1.mp hunknown, happend _ _ [0x7f] hone⟩

end TaggedWord

end VerseSearch
