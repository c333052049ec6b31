import Mathlib.Computability.Language
import VerseSearch.Proofs.Matching.Finding

/-! # Languages of nodes

A node without anchors takes the same texts in every context, so it has a language. The language of
a tree is made from those of its parts by products, sums and powers.

* `Node.Denotes`: a plain node that takes the texts of a language, in every context.
* `oneWith`, `oneOf`, `CharSet.language`: the texts of one character.
* `Node.Denotes.cat`, `seq_append`, `choice`, `star`, `plus`: the languages of compound nodes.
-/

namespace VerseSearch.Pattern
set_option autoImplicit false

open Computability

/-- A plain node that takes the texts of a language, whatever stands around them. -/
def Node.Denotes (n : Node) (L : Language Char) : Prop :=
  n.IsPlain ∧ ∀ before u after, n.Matches before u after ↔ u ∈ L

/-- The texts of one character with a property. -/
def oneWith (p : Char → Prop) : Language Char := {u | ∃ c, p c ∧ u = [c]}

/-- The texts of one of the given characters. -/
def oneOf (cs : Text) : Language Char := oneWith (· ∈ cs)

/-- The texts of one character of a set. -/
def CharSet.language (set : CharSet) : Language Char := oneWith fun c => set.accepts c = true

/-- The set that holds one code point. -/
def CharSet.single (c : Char) : CharSet := { items := [.code c.toNat] }

@[simp] theorem CharSet.accepts_codes (cs : Text) (c : Char) :
    ({ items := cs.map fun d => .code d.toNat } : CharSet).accepts c = true ↔ c ∈ cs := by
  simp only [accepts, List.any_map, bne_iff_ne, ne_eq, Bool.not_eq_false, List.any_eq_true,
    Function.comp_apply, itemAccepts, variants, Bool.false_eq_true, if_false, List.contains_iff_mem,
    List.mem_singleton, Char.toNat_inj]
  constructor
  · rintro ⟨d, hd, rfl⟩
    exact hd
  · intro h
    exact ⟨c, h, rfl⟩

@[simp] theorem oneOf_singleton (c : Char) : oneOf [c] = {[c]} := by
  ext u
  change (∃ d ∈ [c], u = [d]) ↔ u = [c]
  simp

@[simp] theorem CharSet.language_codes (cs : Text) :
    ({ items := cs.map fun d => .code d.toNat } : CharSet).language = oneOf cs := by
  rw [language, oneOf]
  simp only [accepts_codes]

@[simp] theorem CharSet.language_single (c : Char) : (single c).language = {[c]} :=
  (language_codes [c]).trans (oneOf_singleton c)

/-! ## Parts in a row -/

namespace Node.Denotes
variable {m n : Node} {L M : Language Char}

theorem empty : Node.empty.Denotes 1 := ⟨trivial, fun _ u _ => (Language.mem_one u).symm⟩

theorem one (set : CharSet) : (Node.one set).Denotes set.language := ⟨trivial, fun _ _ _ => Iff.rfl⟩

theorem cat (hm : m.Denotes L) (hn : n.Denotes M) : (Node.cat m n).Denotes (L * M) := by
  refine ⟨⟨hm.1, hn.1⟩, fun before u after => ?_⟩
  simp only [Matches, hm.2, hn.2, Language.mem_mul]
  constructor
  · rintro ⟨v, w, rfl, hv, hw⟩
    exact ⟨v, hv, w, hw, rfl⟩
  · rintro ⟨v, hv, w, hw, rfl⟩
    exact ⟨v, w, rfl, hv, hw⟩

theorem alt (hm : m.Denotes L) (hn : n.Denotes M) : (Node.alt m n).Denotes (L + M) :=
  ⟨⟨hm.1, hn.1⟩, fun before u after => or_congr (hm.2 before u after) (hn.2 before u after)⟩

theorem group (index : ℕ) (hn : n.Denotes L) : (Node.group index n).Denotes L := hn

theorem seq_singleton (hn : n.Denotes L) : (Node.seq [n]).Denotes L := by
  have h := hn.cat empty
  rwa [mul_one] at h

theorem seq_append {ms ns : List Node} (hm : (Node.seq ms).Denotes L) (hn : (Node.seq ns).Denotes M) :
    (Node.seq (ms ++ ns)).Denotes (L * M) := by
  -- the induction needs the language of what stands before the nodes of the first list
  have key : ∀ ms : List Node, ((Node.seq ms).IsPlain → (Node.seq (ms ++ ns)).IsPlain) ∧
      ∀ before u after, (Node.seq (ms ++ ns)).Matches before u after ↔
        ∃ v w, u = v ++ w ∧ (Node.seq ms).Matches before v (w ++ after) ∧ w ∈ M := by
    intro ms
    induction ms with
    | nil =>
      refine ⟨fun _ => hn.1, fun before u after => ?_⟩
      rw [List.nil_append, hn.2]
      constructor
      · exact fun h => ⟨[], u, rfl, rfl, h⟩
      · rintro ⟨v, w, rfl, hv, hw⟩
        obtain rfl : v = [] := hv
        exact hw
    | cons m ms ih =>
      refine ⟨fun h => ⟨h.1, ih.1 h.2⟩, fun before u after => ?_⟩
      change (∃ x y, u = x ++ y ∧ m.Matches before x (y ++ after) ∧
        (Node.seq (ms ++ ns)).Matches (before ++ x) y after) ↔ ∃ v w, u = v ++ w ∧
        (∃ x y, v = x ++ y ∧ m.Matches before x (y ++ (w ++ after)) ∧
          (Node.seq ms).Matches (before ++ x) y (w ++ after)) ∧ w ∈ M
      simp only [ih.2]
      constructor
      · rintro ⟨x, _, rfl, hx, y, w, rfl, hy, hw⟩
        exact ⟨x ++ y, w, by rw [List.append_assoc], ⟨x, y, rfl, by rwa [← List.append_assoc], hy⟩,
          hw⟩
      · rintro ⟨_, w, rfl, ⟨x, y, rfl, hx, hy⟩, hw⟩
        exact ⟨x, y ++ w, by rw [List.append_assoc], by rwa [List.append_assoc], y, w, rfl, hy, hw⟩
  refine ⟨(key ms).1 hm.1, fun before u after => ?_⟩
  rw [(key ms).2, Language.mem_mul]
  simp only [hm.2]
  constructor
  · rintro ⟨v, w, rfl, hv, hw⟩
    exact ⟨v, hv, w, hw, rfl⟩
  · rintro ⟨v, hv, w, hw, rfl⟩
    exact ⟨v, w, rfl, hv, hw⟩

/-! ## Choices -/

theorem choice {ns : List Node} {Ls : List (Language Char)} (h : List.Forall₂ Denotes ns Ls)
    (hne : ns ≠ []) : (Node.choice ns).Denotes Ls.sum := by
  induction h with
  | nil => exact absurd rfl hne
  | cons hn hrest ih =>
    cases hrest with
    | nil => simpa [Node.choice] using hn
    | cons hm hrest =>
      rw [List.sum_cons]
      exact hn.alt (ih (by simp))

/-! ## Loops -/

theorem rounds_iff (hn : n.Denotes L) (count : ℕ) :
    ∀ before u after, Rounds n.Matches count before u after ↔ u ∈ L ^ count := by
  induction count with
  | zero => exact fun _ u _ => (Language.mem_one u).symm
  | succ count ih =>
    intro before u after
    rw [pow_succ', Language.mem_mul]
    simp only [Rounds, ih, hn.2]
    constructor
    · rintro ⟨v, w, rfl, hv, hw⟩
      exact ⟨v, hv, w, hw, rfl⟩
    · rintro ⟨v, hv, w, hw, rfl⟩
      exact ⟨v, w, rfl, hv, hw⟩

theorem star (hn : n.Denotes L) : (Node.loop .greedy 0 none n).Denotes L∗ := by
  refine ⟨⟨rfl, by simp, hn.1⟩, fun before u after => ?_⟩
  rw [Language.kstar_eq_iSup_pow, Language.mem_iSup]
  simp [Matches, hn.rounds_iff]

theorem plus (hn : n.Denotes L) : (Node.loop .greedy 1 none n).Denotes (L * L∗) := by
  refine ⟨⟨rfl, by simp, hn.1⟩, fun before u after => ?_⟩
  rw [Language.kstar_eq_iSup_pow, Language.mul_iSup, Language.mem_iSup]
  simp only [Matches, hn.rounds_iff, ← pow_succ']
  constructor
  · rintro ⟨count, hle, -, hu⟩
    exact ⟨count - 1, by rwa [Nat.sub_add_cancel hle]⟩
  · rintro ⟨count, hu⟩
    exact ⟨count + 1, by omega, by simp, hu⟩

end Node.Denotes

/-! ## Texts in languages -/

@[simp] theorem mem_star_oneWith {p : Char → Prop} {u : Text} : u ∈ (oneWith p)∗ ↔ ∀ c ∈ u, p c := by
  rw [Language.mem_kstar]
  constructor
  · rintro ⟨us, rfl, hus⟩ c hc
    obtain ⟨v, hv, hc⟩ := List.mem_flatten.mp hc
    obtain ⟨d, hd, rfl⟩ := hus v hv
    obtain rfl := List.mem_singleton.mp hc
    exact hd
  · intro hu
    refine ⟨u.map fun c => [c], by rw [← List.flatMap_def, List.flatMap_singleton'], fun v hv => ?_⟩
    obtain ⟨c, hc, rfl⟩ := List.mem_map.mp hv
    exact ⟨c, hu c hc, rfl⟩

@[simp] theorem mem_plus_oneWith {p : Char → Prop} {u : Text} :
    u ∈ oneWith p * (oneWith p)∗ ↔ u ≠ [] ∧ ∀ c ∈ u, p c := by
  simp only [Language.mem_mul, mem_star_oneWith]
  constructor
  · rintro ⟨_, ⟨c, hc, rfl⟩, v, hv, rfl⟩
    exact ⟨by simp, List.forall_mem_cons.mpr ⟨hc, hv⟩⟩
  · rintro ⟨hne, hu⟩
    obtain ⟨c, v, rfl⟩ := List.exists_cons_of_ne_nil hne
    obtain ⟨hc, hv⟩ := List.forall_mem_cons.mp hu
    exact ⟨[c], ⟨c, hc, rfl⟩, v, hv, rfl⟩

@[simp] theorem mem_singleton_mul {s u : Text} {L : Language Char} :
    u ∈ {s} * L ↔ ∃ v ∈ L, u = s ++ v := by
  rw [Language.mem_mul]
  constructor
  · rintro ⟨_, rfl, v, hv, rfl⟩
    exact ⟨v, hv, rfl⟩
  · rintro ⟨v, hv, rfl⟩
    exact ⟨s, rfl, v, hv, rfl⟩

@[simp] theorem mem_mul_singleton {s u : Text} {L : Language Char} :
    u ∈ L * {s} ↔ ∃ v ∈ L, u = v ++ s := by
  rw [Language.mem_mul]
  constructor
  · rintro ⟨v, hv, _, rfl, rfl⟩
    exact ⟨v, hv, rfl⟩
  · rintro ⟨v, hv, rfl⟩
    exact ⟨v, hv, s, rfl, rfl⟩

@[simp] theorem mem_sum {Ls : List (Language Char)} {u : Text} : u ∈ Ls.sum ↔ ∃ L ∈ Ls, u ∈ L := by
  induction Ls with
  | nil => simp [Language.notMem_zero]
  | cons L Ls ih => rw [List.sum_cons, Language.mem_add, ih, List.exists_mem_cons_iff]

@[simp] theorem mem_sum_singletons {ts : List Text} {u : Text} :
    u ∈ (ts.map fun t => ({t} : Language Char)).sum ↔ u ∈ ts := by
  rw [mem_sum]
  constructor
  · rintro ⟨_, hL, hu⟩
    obtain ⟨t, ht, rfl⟩ := List.mem_map.mp hL
    obtain rfl : u = t := hu
    exact ht
  · exact fun hu => ⟨_, List.mem_map_of_mem hu, rfl⟩

end VerseSearch.Pattern
