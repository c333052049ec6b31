import VerseSearch.Proofs.Wire.Base64Meaning
import VerseSearch.Proofs.Wire.Truncation

/-! # The text form of tagged words

The bytes of words are written in base 64. A text is read as words if it stands for their bytes, so what
is read can be written and read again, although several texts may stand for the same bytes.

* `encodeText_of_encode`: words that have bytes have a text.
* `decodeText_eq_ok_iff`: the texts that are read as given words.
* `decodeText_eq_error_iff`: the two places at which reading fails.
* `text_round_trip`: words come back from their text, and all texts either give words that have a text
  or fail in one of three ways.
-/

namespace VerseSearch.TaggedWord
set_option autoImplicit false

variable {a : Alphabet} {ws : List TaggedWord} {t : Text}

/-! ## Writing -/

theorem encodeText_of_encode {bytes : List UInt8} (h : encode a ws = .ok bytes) :
    encodeText a ws = .ok (Base64.encode bytes) := by
  unfold encodeText
  rw [h]
  rfl

/-! ## Reading -/

theorem decodeText_of_bytes {bytes : List UInt8} (h : Base64.decode t = .ok bytes) :
    decodeText a t = decode a bytes := by
  unfold decodeText
  rw [h]

/-- A text is read as words if it stands for the bytes of these words. -/
theorem decodeText_eq_ok_iff : decodeText a t = .ok ws ↔
    ∃ bytes, Base64.decode t = .ok bytes ∧ encode a ws = .ok bytes := by
  cases h : Base64.decode t with
  | error reason => simp [decodeText, h]
  | ok bytes => simp [decodeText_of_bytes h, decode_eq_ok_iff]

/-- A text that fails stands for no bytes, or for bytes that fail. -/
theorem decodeText_eq_error_iff {e : CodeError} : decodeText a t = .error e ↔
    (∃ reason, Base64.decode t = .error reason ∧ e = .notBase64 reason) ∨
      ∃ bytes, Base64.decode t = .ok bytes ∧ decode a bytes = .error e := by
  cases h : Base64.decode t with
  | error reason => simp [decodeText, h, eq_comm]
  | ok bytes => simp [decodeText_of_bytes h]

theorem decodeText_encode {bytes : List UInt8} (h : encode a ws = .ok bytes) :
    decodeText a (Base64.encode bytes) = .ok ws :=
  decodeText_eq_ok_iff.mpr ⟨bytes, Base64.decode_encode bytes, h⟩

theorem kind_of_decodeText {e : CodeError} (h : decodeText a t = .error e) :
    e.kind = .notBase64 ∧ (∃ reason, Base64.decode t = .error reason) ∨
      (e.kind = .truncated ∨ e.kind = .unknownSymbol) ∧ ∃ bytes, Base64.decode t = .ok bytes := by
  obtain ⟨reason, hreason, rfl⟩ | ⟨bytes, hbytes, he⟩ := decodeText_eq_error_iff.mp h
  · exact .inl ⟨rfl, reason, hreason⟩
  · exact .inr ⟨kind_of_decode he, bytes, hbytes⟩

/-! ## Both -/

/-- Words that have bytes have a text, from which they come back. Every text is read as words, which
then have a text from which they come back, or it is no base 64, or its bytes end too early or hold an
unknown symbol. -/
theorem text_round_trip (a : Alphabet) :
    (∀ ws bytes, encode a ws = .ok bytes →
      ∃ t, encodeText a ws = .ok t ∧ decodeText a t = .ok ws) ∧
    ∀ t,
      (∃ ws bytes t', decodeText a t = .ok ws ∧ encode a ws = .ok bytes ∧
        encodeText a ws = .ok t' ∧ decodeText a t' = .ok ws) ∨
      ∃ e, decodeText a t = .error e ∧
        (e.kind = .notBase64 ∧ (∃ reason, Base64.decode t = .error reason) ∨
          (e.kind = .truncated ∨ e.kind = .unknownSymbol) ∧ ∃ bytes, Base64.decode t = .ok bytes) := by
  refine ⟨fun ws bytes h => ⟨_, encodeText_of_encode h, decodeText_encode h⟩, fun t => ?_⟩
  cases h : decodeText a t with
  | ok ws =>
    obtain ⟨bytes, -, hbytes⟩ := decodeText_eq_ok_iff.mp h
    exact .inl ⟨ws, bytes, _, rfl, hbytes, encodeText_of_encode hbytes, decodeText_encode hbytes⟩
  | error e => exact .inr ⟨e, rfl, kind_of_decodeText h⟩

/-- Words of four bytes, so that the last group of the text is filled with equals signs. -/
theorem text_round_trip_of_four_bytes :
    encode .hebrew [⟨['א', 'ת'], 853⟩] = .ok [0x01, 0x9c, 0x03, 0x55] ∧
      encodeText .hebrew [⟨['א', 'ת'], 853⟩] = .ok "AZwDVQ==".toList ∧
      decodeText .hebrew "AZwDVQ==".toList = .ok [⟨['א', 'ת'], 853⟩] := by
  have hbytes : encode .hebrew [⟨['א', 'ת'], 853⟩] = .ok [0x01, 0x9c, 0x03, 0x55] := rfl
  have htext : encodeText .hebrew [⟨['א', 'ת'], 853⟩] = .ok "AZwDVQ==".toList := rfl
  obtain ⟨t, ht, hread⟩ := (text_round_trip .hebrew).1 _ _ hbytes
  obtain rfl := Except.ok.inj (ht.symm.trans htext)
  exact ⟨hbytes, htext, hread⟩

/-- Another text for the same bytes: the bits that belong to no byte are not looked at. -/
example : decodeText .hebrew "AZwDVR==".toList = .ok [⟨['א', 'ת'], 853⟩] := rfl

end VerseSearch.TaggedWord
