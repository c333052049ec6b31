import Mathlib.Data.Nat.Notation
import VerseSearch.Text.Base64

/-! # Base 64 is read back

Every group of three bytes goes through four characters and leaves the reader as it was before the
group, so the bytes come back one group at a time (`decodeFrom_encode`), and the whole text is
accepted (`decode_encode`).
-/

namespace VerseSearch.Base64
set_option autoImplicit false

/-! ## Single characters -/

theorem value?_symbol : ∀ n < 64, value? (symbol n) = some n := by decide

theorem symbol_ne_pad : ∀ n < 64, symbol n ≠ '=' := by decide

theorem symbol_ascii : ∀ n < 64, (symbol n).toNat < 0x80 := by decide

theorem byte_eq {n : ℕ} {b : UInt8} (h : n = b.toNat) : UInt8.ofNat n = b := by
  rw [h, UInt8.ofNat_toNat]

/-- One character of a value moves the reader by one step. -/
theorem decodeFrom_symbol (s : State) (hs : s.padded = false) (done : List UInt8) (n : ℕ)
    (hn : n < 64) (rest : Text) :
    decodeFrom s done (symbol n :: rest) =
      decodeFrom (s.accept n).1 ((s.accept n).2.toList ++ done) rest := by
  rw [decodeFrom, if_neg (symbol_ne_pad n hn), value?_symbol n hn, hs]
  simp only [Bool.false_eq_true, if_false]
  cases h : s.accept n with
  | mk s' byte => cases byte <;> rfl

/-! ## Groups -/

/-- Four characters of a full group give its three bytes and leave the reader at its start. -/
theorem decodeFrom_group (done : List UInt8) (a b c : UInt8) (rest : Text) :
    decodeFrom {} done (symbol (a.toNat / 4) :: symbol (a.toNat % 4 * 16 + b.toNat / 16) ::
      symbol (b.toNat % 16 * 4 + c.toNat / 64) :: symbol (c.toNat % 64) :: rest) =
      decodeFrom {} (c :: b :: a :: done) rest := by
  have ha := a.toNat_lt
  have hb := b.toNat_lt
  have hc := c.toNat_lt
  rw [decodeFrom_symbol _ rfl _ _ (by omega), decodeFrom_symbol _ rfl _ _ (by omega),
    decodeFrom_symbol _ rfl _ _ (by omega), decodeFrom_symbol _ rfl _ _ (by omega)]
  simp only [State.accept, Option.toList_none, Option.toList_some, List.nil_append,
    List.singleton_append]
  rw [byte_eq (b := c) (by omega), byte_eq (b := b) (by omega), byte_eq (b := a) (by omega)]

theorem decodeFrom_encode (bytes done : List UInt8) :
    decodeFrom {} done (encode bytes) = .ok (done.reverse ++ bytes) := by
  fun_induction encode bytes generalizing done with
  | case1 => simp [decodeFrom]
  | case2 a =>
    have ha := a.toNat_lt
    rw [decodeFrom_symbol _ rfl _ _ (by omega), decodeFrom_symbol _ rfl _ _ (by omega)]
    simp only [State.accept, Option.toList_none, Option.toList_some, List.nil_append,
      List.singleton_append]
    rw [byte_eq (b := a) (by omega)]
    simp [decodeFrom]
  | case3 a b =>
    have ha := a.toNat_lt
    have hb := b.toNat_lt
    rw [decodeFrom_symbol _ rfl _ _ (by omega), decodeFrom_symbol _ rfl _ _ (by omega),
      decodeFrom_symbol _ rfl _ _ (by omega)]
    simp only [State.accept, Option.toList_none, Option.toList_some, List.nil_append,
      List.singleton_append]
    rw [byte_eq (b := b) (by omega), byte_eq (b := a) (by omega)]
    simp [decodeFrom]
  | case4 a b c rest ih =>
    rw [decodeFrom_group, ih]
    simp

/-! ## Whole texts -/

theorem encode_ascii (bytes : List UInt8) : ∀ c ∈ encode bytes, c.toNat < 0x80 := by
  fun_induction encode bytes with
  | case1 => simp
  | case2 a =>
    have ha := a.toNat_lt
    simp only [List.forall_mem_cons]
    exact ⟨symbol_ascii _ (by omega), symbol_ascii _ (by omega), by decide, by decide, by simp⟩
  | case3 a b =>
    have ha := a.toNat_lt
    have hb := b.toNat_lt
    simp only [List.forall_mem_cons]
    exact ⟨symbol_ascii _ (by omega), symbol_ascii _ (by omega), symbol_ascii _ (by omega),
      by decide, by simp⟩
  | case4 a b c rest ih =>
    have ha := a.toNat_lt
    have hb := b.toNat_lt
    have hc := c.toNat_lt
    simp only [List.forall_mem_cons]
    exact ⟨symbol_ascii _ (by omega), symbol_ascii _ (by omega), symbol_ascii _ (by omega),
      symbol_ascii _ (by omega), ih⟩

theorem head?_encode_ne_pad (bytes : List UInt8) : (encode bytes).head? ≠ some '=' := by
  fun_cases encode bytes with
  | case1 => simp
  | case2 a | case3 a b | case4 a b c rest =>
    have ha := a.toNat_lt
    simpa using symbol_ne_pad (a.toNat / 4) (by omega)

@[simp] theorem decode_encode (bytes : List UInt8) : decode (encode bytes) = .ok bytes := by
  have hascii : ((encode bytes).any fun c => decide (0x80 ≤ c.toNat)) = false := by
    rw [List.any_eq_false]
    intro c hc
    have := encode_ascii bytes c hc
    simpa using this
  rw [decode, hascii, if_neg (by decide), if_neg (head?_encode_ne_pad bytes), decodeFrom_encode]
  rfl

end VerseSearch.Base64
