import VerseSearch.Proofs.Query.Brackets

/-! # The places of a source

A text that has been made of a source is followed character by character: each character goes with the
place in the source that it stands for, and what is put in goes with the place of what it replaces.

* `Placed`, `textOf`, `bracketsOf`: texts whose characters have places.
* `AddsPairs`: a row of brackets with pairs put in outside of brackets.
* `CanInsert`, `Rewritten`: characters other than brackets are dropped, and texts with balanced brackets are
  put in.
* `InContext`: some characters stand inside of brackets exactly if their places do.
* `Rewritten.addsPairs`, `Rewritten.sublist`, `Rewritten.inContext`: what a rewriting leaves as it is.
-/

namespace VerseSearch.Query
set_option autoImplicit false

/-! ## Texts with places -/

/-- A text whose characters go with places of a source. -/
abbrev Placed := List (Char × ℕ)

def textOf (t : Placed) : Text := t.map Prod.fst

def bracketsOf (t : Placed) : Placed := t.filter fun p => isBracket p.1

/-- A text all of whose characters stand for one place. -/
def placedAt (i : ℕ) (s : Text) : Placed := s.map fun c => (c, i)

@[simp] theorem textOf_cons (c : Char) (i : ℕ) (t : Placed) : textOf
    ((c, i) :: t) = c :: textOf t := rfl

@[simp] theorem textOf_append (t u : Placed) : textOf (t ++ u) = textOf t ++ textOf u := List.map_append

@[simp] theorem textOf_placedAt (i : ℕ) (s : Text) : textOf (placedAt i s) = s := by
  rw [textOf, placedAt, List.map_map]
  exact List.map_id s

@[simp] theorem textOf_zipIdx (source : Text) (n : ℕ) : textOf (source.zipIdx n) = source :=
  List.zipIdx_map_fst n source

@[simp] theorem bracketsOf_cons (c : Char) (i : ℕ) (t : Placed) :
    bracketsOf ((c, i) :: t) = if isBracket c then (c, i) :: bracketsOf t else bracketsOf t :=
  List.filter_cons

@[simp] theorem bracketsOf_append (t u : Placed) : bracketsOf (t ++ u) = bracketsOf t ++ bracketsOf u :=
  List.filter_append ..

@[simp] theorem bracketsOf_placedAt (i : ℕ) (s : Text) :
    bracketsOf (placedAt i s) = placedAt i (s.filter isBracket) := by
  rw [bracketsOf, placedAt, List.filter_map]
  rfl

@[simp] theorem textOf_bracketsOf (t : Placed) : textOf (bracketsOf t) =
    (textOf t).filter isBracket := by
  rw [textOf, textOf, List.filter_map]
  rfl

/-! ## Pairs of brackets -/

/-- A row of brackets with pairs put in where no bracket is open. -/
inductive AddsPairs : Bool → Placed → Placed → Prop where
  | nil {inside : Bool} : AddsPairs inside [] []
  | keep {inside : Bool} {c : Char} {i : ℕ} {t u : Placed} :
      AddsPairs (insideAfter inside c) t u → AddsPairs inside ((c, i) :: t) ((c, i) :: u)
  | pair {i : ℕ} {t u : Placed} :
      AddsPairs false t u → AddsPairs false t (('[', i) :: (']', i) :: u)

theorem AddsPairs.refl (inside : Bool) (t : Placed) : AddsPairs inside t t := by
  induction t generalizing inside with
  | nil => exact .nil
  | cons p t ih => exact .keep (ih _)

/-- The induction is on the pairs that are put in last. -/
theorem AddsPairs.trans {inside : Bool} {t u v : Placed} (htu : AddsPairs inside t u)
    (huv : AddsPairs inside u v) : AddsPairs inside t v := by
  induction huv generalizing t with
  | nil => exact htu
  | pair _ ih => exact .pair (ih htu)
  | keep _ ih =>
    cases htu with
    | keep h => exact .keep (ih h)
    | pair h =>
      -- the closing bracket of the pair is kept after its opening one, so it belongs to both rows
      have hclose := ih (t := (']', _) :: t) (.keep h)
      cases hclose with
      | keep h => exact .pair h

/-! ## Rewriting -/

/-- A text that holds none of the given characters, and brackets only as a pair outside of brackets. -/
def CanInsert (heads : Text) (inside : Bool) (s : Text) : Prop :=
  (∀ c ∈ s, c ∉ heads) ∧ (s.filter isBracket = [] ∨ inside = false ∧ s.filter isBracket = ['[', ']'])

instance (heads : Text) (inside : Bool) (s : Text) : Decidable (CanInsert heads inside s) :=
  inferInstanceAs (Decidable (_ ∧ _))

/-- The bit of the place does not change. -/
theorem CanInsert.foldl_insideAfter {heads s : Text} {inside : Bool} (h : CanInsert heads inside s) :
    s.foldl insideAfter inside = inside := by
  rw [foldl_insideAfter_filter]
  obtain hs | ⟨rfl, hs⟩ := h.2 <;> rw [hs] <;> rfl

/-- Characters other than brackets are dropped, and texts are put in that can be. -/
inductive Rewritten (heads : Text) : Bool → Placed → Placed → Prop where
  | nil {inside : Bool} : Rewritten heads inside [] []
  | keep {inside : Bool} {c : Char} {i : ℕ} {t u : Placed} :
      Rewritten heads (insideAfter inside c) t u → Rewritten heads inside ((c, i) :: t) ((c, i) :: u)
  | drop {inside : Bool} {c : Char} {i : ℕ} {t u : Placed} : isBracket c = false →
      Rewritten heads inside t u → Rewritten heads inside ((c, i) :: t) u
  | insert {inside : Bool} {s : Text} {i : ℕ} {t u : Placed} : CanInsert heads inside s →
      Rewritten heads inside t u → Rewritten heads inside t (placedAt i s ++ u)

namespace Rewritten
variable {heads : Text} {inside : Bool} {t u : Placed}

theorem change {c d : Char} {i : ℕ} (hc : isBracket c = false) (hd : isBracket d = false)
    (hheads : d ∉ heads) (h : Rewritten heads inside t u) :
    Rewritten heads inside ((c, i) :: t) ((d, i) :: u) := by
  refine .drop hc (.insert (s := [d]) ⟨by simpa using hheads, .inl ?_⟩ h)
  simp [hd]

theorem of_sublist {marks kept : Placed} (hsub : kept.Sublist marks)
    (hmarks : ∀ p ∈ marks, isBracket p.1 = false) (h : Rewritten heads inside t u) :
    Rewritten heads inside (marks ++ t) (kept ++ u) := by
  induction hsub with
  | slnil => exact h
  | cons p _ ih =>
    obtain ⟨hp, hmarks⟩ := List.forall_mem_cons.mp hmarks
    exact .drop hp (ih hmarks)
  | cons_cons p _ ih =>
    obtain ⟨hp, hmarks⟩ := List.forall_mem_cons.mp hmarks
    refine .keep ?_
    rw [insideAfter_of_not_isBracket hp]
    exact ih hmarks

/-- The brackets stay, and pairs are put in outside of brackets. -/
theorem addsPairs (h : Rewritten heads inside t u) : AddsPairs inside (bracketsOf t) (bracketsOf u) := by
  induction h with
  | nil => exact .nil
  | @keep inside c i t u _ ih =>
    rw [bracketsOf_cons, bracketsOf_cons]
    cases hc : isBracket c with
    | true => exact .keep ih
    | false => rwa [insideAfter_of_not_isBracket hc] at ih
  | drop hc _ ih =>
    rw [bracketsOf_cons, hc]
    exact ih
  | insert hs _ ih =>
    rw [bracketsOf_append, bracketsOf_placedAt]
    obtain hnone | ⟨rfl, hpair⟩ := hs.2
    · rw [hnone]
      exact ih
    · rw [hpair]
      exact .pair ih

/-- The given characters are characters from before, in their order and with their places. -/
theorem sublist (h : Rewritten heads inside t u) :
    (u.filter fun p => heads.contains p.1).Sublist (t.filter fun p => heads.contains p.1) := by
  induction h with
  | nil => exact .slnil
  | keep _ ih =>
    rw [List.filter_cons, List.filter_cons]
    split
    · exact ih.cons_cons _
    · exact ih
  | drop _ _ ih =>
    rw [List.filter_cons]
    split
    · exact ih.cons _
    · exact ih
  | @insert _ s i t u hs _ ih =>
    have hnone : (placedAt i s).filter (fun p => heads.contains p.1) = [] := by
      rw [List.filter_eq_nil_iff, placedAt, List.forall_mem_map]
      simpa using hs.1
    rwa [List.filter_append, hnone, List.nil_append]

end Rewritten

/-! ## Places inside of brackets -/

/-- The given characters of a text that begins inside of brackets or not stand inside of brackets exactly
if their places in the source do. -/
def InContext (source heads : Text) (inside : Bool) : Placed → Prop
  | [] => True
  | (c, i) :: t =>
    (c ∈ heads → inside = isInside (source.take i)) ∧ InContext source heads (insideAfter inside c) t

theorem inContext_append {source heads : Text} {inside : Bool} {t u : Placed} :
    InContext source heads inside (t ++ u) ↔ InContext source heads inside t ∧
      InContext source heads ((textOf t).foldl insideAfter inside) u := by
  induction t generalizing inside with
  | nil => simp [InContext, textOf]
  | cons p t ih =>
    rw [List.cons_append, InContext, InContext, ih, and_assoc]
    rfl

theorem InContext.mono {source heads heads' : Text} (hsub : ∀ c ∈ heads', c ∈ heads) {inside : Bool}
    {t : Placed} (h : InContext source heads inside t) : InContext source heads' inside t := by
  induction t generalizing inside with
  | nil => trivial
  | cons p t ih => exact ⟨fun hc => h.1 (hsub _ hc), ih h.2⟩

theorem inContext_of_not_mem {source heads s : Text} (hs : ∀ c ∈ s, c ∉ heads) (inside : Bool) (i : ℕ) :
    InContext source heads inside (placedAt i s) := by
  induction s generalizing inside with
  | nil => trivial
  | cons c s ih =>
    obtain ⟨hc, hs⟩ := List.forall_mem_cons.mp hs
    exact ⟨fun h => absurd h hc, ih hs _⟩

/-- What is dropped is no bracket and what is put in leaves no bracket open. -/
theorem Rewritten.inContext {source heads : Text} {inside : Bool} {t u : Placed}
    (h : Rewritten heads inside t u) (ht : InContext source heads inside t) :
    InContext source heads inside u := by
  induction h with
  | nil => trivial
  | keep _ ih => exact ⟨ht.1, ih ht.2⟩
  | drop hc _ ih =>
    have htail := ht.2
    rw [insideAfter_of_not_isBracket hc] at htail
    exact ih htail
  | insert hs _ ih =>
    refine inContext_append.mpr ⟨inContext_of_not_mem hs.1 _ _, ?_⟩
    rw [textOf_placedAt, hs.foldl_insideAfter]
    exact ih ht

/-- In a source each character stands for its own place. -/
theorem inContext_zipIdx (heads before after : Text) :
    InContext (before ++ after) heads (isInside before) (after.zipIdx before.length) := by
  induction after generalizing before with
  | nil => trivial
  | cons c after ih =>
    refine ⟨fun _ => by rw [List.take_left], ?_⟩
    have h := ih (before ++ [c])
    rwa [List.append_assoc, isInside_concat, List.length_append] at h

end VerseSearch.Query
