import VerseSearch.Proofs.Matching.Denotation

/-! # What a scan finds

The matches of a pattern for a language are spans of the text that hold a text of the language. In a
prefix-free language no two of them begin at one place, so what a scan finds depends on the language
alone, and longer matches with earlier starts are found in their place if the starts keep their order.

* `SpanOf`: a span that holds a text of a language; `spanOf_mul_iff`.
* `PrefixFree`: a language in which no text begins with another one.
* `Scan`: spans of which each is the first one after the one before; `scan_findAll`.
* `FirstAt`: the span that the first way of matching takes; `scan_firstAt`.
* `Scan.unique`: there is one such list of spans.
* `mem_findAll_iff_of_oneWith`: a pattern for single characters finds them one by one.
* `Scan.widen`: spans that begin earlier, in the same order, are found in the same way.
-/

namespace VerseSearch.Pattern
set_option autoImplicit false

/-! ## Spans of languages -/

/-- The text from `i` to `j` belongs to the language. -/
def SpanOf (L : Language Char) (s : Text) (i j : ℕ) : Prop :=
  ∃ before u after, s = before ++ (u ++ after) ∧ i = before.length ∧ j = (before ++ u).length ∧ u ∈ L

theorem matchesAt_iff_spanOf {p : Pattern} {L : Language Char} (hp : p.node.Denotes L) {s : Text}
    {i j : ℕ} : p.MatchesAt s i j ↔ SpanOf L s i j := by
  simp only [MatchesAt, SpanOf, hp.2]

section
variable {L M : Language Char} {s : Text} {i j k : ℕ}

theorem SpanOf.le (h : SpanOf L s i j) : i ≤ j := by
  obtain ⟨before, u, after, -, rfl, rfl, -⟩ := h
  simp

theorem spanOf_mul_iff : SpanOf (L * M) s i j ↔ ∃ k, SpanOf L s i k ∧ SpanOf M s k j := by
  constructor
  · rintro ⟨before, _, after, rfl, rfl, rfl, huv⟩
    obtain ⟨u, hu, v, hv, rfl⟩ := Language.mem_mul.mp huv
    exact ⟨_, ⟨before, u, v ++ after, by simp, rfl, rfl, hu⟩,
      before ++ u, v, after, by simp, rfl, by simp, hv⟩
  · rintro ⟨k, ⟨before, u, after, rfl, rfl, rfl, hu⟩, before', v, after', heq, hlength, rfl, hv⟩
    rw [← List.append_assoc] at heq
    obtain ⟨rfl, rfl⟩ := List.append_inj heq hlength
    exact ⟨before, u ++ v, after', by simp, rfl, by simp, Language.append_mem_mul hu hv⟩

theorem SpanOf.getElem? {P : Char → Prop} (hP : ∀ u ∈ L, ∀ c ∈ u, P c) (h : SpanOf L s i j)
    (hi : i ≤ k) (hj : k < j) : ∃ c, s[k]? = some c ∧ P c := by
  obtain ⟨before, u, after, rfl, rfl, rfl, hu⟩ := h
  rw [List.length_append] at hj
  have hget : (before ++ (u ++ after))[k]? = u[k - before.length]? := by
    rw [List.getElem?_append_right hi, List.getElem?_append_left (by omega)]
  have hlt : k - before.length < u.length := by omega
  exact ⟨_, by rw [hget, List.getElem?_eq_getElem hlt], hP u hu _ (List.getElem_mem hlt)⟩

end

/-! ## Prefix-free languages -/

/-- No text of the language begins with another one. -/
def PrefixFree (L : Language Char) : Prop := ∀ u ∈ L, ∀ v ∈ L, u <+: v → u = v

section
variable {L M : Language Char}

theorem prefixFree_one : PrefixFree 1 := by
  rintro _ rfl _ rfl -
  rfl

theorem prefixFree_oneWith (P : Char → Prop) : PrefixFree (oneWith P) := by
  rintro _ ⟨c, -, rfl⟩ _ ⟨d, -, rfl⟩ h
  exact h.eq_of_length rfl

theorem PrefixFree.mul (hL : PrefixFree L) (hM : PrefixFree M) : PrefixFree (L * M) := by
  intro _ hu _ hv h
  obtain ⟨a, ha, b, hb, rfl⟩ := Language.mem_mul.mp hu
  obtain ⟨c, hc, d, hd, rfl⟩ := Language.mem_mul.mp hv
  have hfirst : a = c := by
    obtain hac | hca := List.prefix_or_prefix_of_prefix ((List.prefix_append a b).trans h)
      (List.prefix_append c d)
    · exact hL a ha c hc hac
    · exact (hL c hc a ha hca).symm
  subst hfirst
  rw [hM b hb d hd ((List.prefix_append_right_inj a).mp h)]

theorem PrefixFree.prod {α : Type} {f : α → Language Char} {xs : List α}
    (h : ∀ x ∈ xs, PrefixFree (f x)) : PrefixFree (xs.map f).prod := by
  induction xs with
  | nil => exact prefixFree_one
  | cons x xs ih =>
    rw [List.map_cons, List.prod_cons]
    exact (h x (by simp)).mul (ih fun y hy => h y (List.mem_cons_of_mem x hy))

/-- Texts that a character ends which stands nowhere else in them. -/
theorem prefixFree_of_last {c : Char} (h : ∀ u ∈ L, c ∉ u) : PrefixFree (L * {[c]}) := by
  intro _ hstart _ hwhole hprefix
  obtain ⟨u, -, rfl⟩ := mem_mul_singleton.mp hstart
  obtain ⟨v, hv, rfl⟩ := mem_mul_singleton.mp hwhole
  obtain heq | hinside := List.prefix_concat_iff.mp hprefix
  · exact heq
  · exact absurd (hinside.subset (by simp)) (h v hv)

theorem SpanOf.stop_eq (hL : PrefixFree L) {s : Text} {i j k : ℕ} (hj : SpanOf L s i j)
    (hk : SpanOf L s i k) : j = k := by
  obtain ⟨before, u, after, rfl, rfl, rfl, hu⟩ := hj
  obtain ⟨before', v, after', heq, hlength, rfl, hv⟩ := hk
  obtain ⟨rfl, hrest⟩ := List.append_inj heq hlength
  have heq : u = v := by
    have hv' : v <+: u ++ after := ⟨after', hrest.symm⟩
    obtain huv | hvu := List.prefix_or_prefix_of_prefix (List.prefix_append u after) hv'
    · exact hL u hu v hv huv
    · exact (hL v hv u hu hvu).symm
  rw [heq]

end

/-! ## Scans -/

/-- Spans from a place on, each of them the first one that begins at the end of the one before or
later. -/
inductive Scan (M : ℕ → ℕ → Prop) : ℕ → List (ℕ × ℕ) → Prop
  | done {start : ℕ} (none : ∀ i j, start ≤ i → ¬ M i j) : Scan M start []
  | found {start i j : ℕ} {rest : List (ℕ × ℕ)} (le : start ≤ i) (span : M i j)
      (first : ∀ i' j', start ≤ i' → i' < i → ¬ M i' j') (next : Scan M j rest) :
      Scan M start ((i, j) :: rest)

theorem Scan.mono {M N : ℕ → ℕ → Prop} (hspan : ∀ i j, M i j → N i j)
    (hfirst : ∀ i j, N i j → ∃ k, M i k) {start : ℕ} {xs : List (ℕ × ℕ)} (h : Scan M start xs) :
    Scan N start xs := by
  have hnone : ∀ i, (∀ j, ¬ M i j) → ∀ j, ¬ N i j := fun i h j hN => (hfirst i j hN).elim h
  induction h with
  | done none => exact .done fun i j hi => hnone i (fun k => none i k hi) j
  | found le span first next ih =>
    exact .found le (hspan _ _ span) (fun i' j' hi' hlt => hnone i' (fun k => first i' k hi' hlt) j') ih

/-- The first way of matching from `i` on ends at `j`. -/
def FirstAt (p : Pattern) (s : Text) (i j : ℕ) : Prop :=
  i ≤ s.length ∧ p.matchAt s.toArray i false = some j

/-- What is found is what the first ways of matching take, if they all take something. -/
theorem scan_firstAt {p : Pattern} {s : Text} (hprog : ∀ i j, p.FirstAt s i j → i < j) :
    Scan (p.FirstAt s) 0 (p.findAll s) := by
  -- each match that is found moves the start on, so fuel for the places that are left is enough
  have hfuel : ∀ fuel start, s.length < fuel + start →
      Scan (p.FirstAt s) start (p.findAllFrom s.toArray fuel start false) := by
    intro fuel
    induction fuel with
    | zero => exact fun start hlt => .done fun i j hi hij => absurd hij.1 (by omega)
    | succ fuel ih =>
      intro start hlt
      rw [findAllFrom]
      cases hf : p.findFrom s.toArray start false with
      | none =>
        refine .done fun i j hi hij => ?_
        rw [FirstAt, findFrom_eq_none hf i hi hij.1] at hij
        cases hij.2
      | some found =>
        obtain ⟨i, j⟩ := found
        obtain ⟨hle, hmost, hmatch, hfirst⟩ := findFrom_eq_some hf
        have hij := hprog i j ⟨hmost, hmatch⟩
        simp only [decide_eq_false (Nat.ne_of_lt hij)]
        refine .found hle ⟨hmost, hmatch⟩ (fun i' j' hi' hlt' h => ?_) (ih j (by omega))
        rw [FirstAt, hfirst i' hi' hlt'] at h
        cases h.2
  exact hfuel _ 0 (by omega)

/-- The matches that are found are those of a scan. -/
theorem scan_findAll {p : Pattern} (hp : p.node.IsPlain) (hprog : p.Progressive) (s : Text) :
    Scan (p.MatchesAt s) 0 (p.findAll s) := by
  have hsound : ∀ i j, p.FirstAt s i j → p.MatchesAt s i j := fun i j h => matchAt_sound hp h.1 h.2
  refine (scan_firstAt fun i j h => (hsound i j h).lt hprog).mono hsound fun i j h => ?_
  have hlen := h.le_length
  obtain ⟨k, hk⟩ := Option.isSome_iff_exists.mp (matchAt_complete hp h)
  exact ⟨k, by omega, hk⟩

/-- If no two spans begin at one place, a scan has one outcome. -/
theorem Scan.unique {M : ℕ → ℕ → Prop} (hM : ∀ i j k, M i j → M i k → j = k) {start : ℕ}
    {xs ys : List (ℕ × ℕ)} (hx : Scan M start xs) (hy : Scan M start ys) : xs = ys := by
  induction hx generalizing ys with
  | done hnone =>
    cases hy with
    | done => rfl
    | found hle hspan => exact absurd hspan (hnone _ _ hle)
  | found hle hspan hfirst hnext ih =>
    cases hy with
    | done hnone => exact absurd hspan (hnone _ _ hle)
    | found hle' hspan' hfirst' hnext' =>
      -- a span is the first one of its scan, so neither of the two begins before the other
      have hstart := Nat.le_antisymm (Nat.not_lt.mp fun h => hfirst _ _ hle' h hspan')
        (Nat.not_lt.mp fun h => hfirst' _ _ hle h hspan)
      subst hstart
      obtain rfl := hM _ _ _ hspan hspan'
      rw [ih hnext']

theorem Node.Denotes.progressive {p : Pattern} {L : Language Char} (hp : p.node.Denotes L)
    (hne : ∀ u ∈ L, u ≠ []) : p.Progressive := fun _ u _ h => hne u ((hp.2 _ _ _).mp h)

theorem scan_findAll_of_denotes {p : Pattern} {L : Language Char} (hp : p.node.Denotes L)
    (hne : ∀ u ∈ L, u ≠ []) (s : Text) : Scan (SpanOf L s) 0 (p.findAll s) := by
  have hspans : p.MatchesAt s = SpanOf L s := by
    funext i j
    exact propext (matchesAt_iff_spanOf hp)
  rw [← hspans]
  exact scan_findAll hp.1 (hp.progressive hne) s

/-- Patterns for one prefix-free language find the same. -/
theorem findAll_eq_of_denotes {p q : Pattern} {L : Language Char} (hp : p.node.Denotes L)
    (hq : q.node.Denotes L) (hL : PrefixFree L) (hne : ∀ u ∈ L, u ≠ []) (s : Text) :
    p.findAll s = q.findAll s := by
  have hone : ∀ i j k, SpanOf L s i j → SpanOf L s i k → j = k := fun _ _ _ => SpanOf.stop_eq hL
  exact (scan_findAll_of_denotes hp hne s).unique hone (scan_findAll_of_denotes hq hne s)

/-- A pattern for single characters finds each of them by itself. -/
theorem mem_findAll_iff_of_oneWith {p : Pattern} {P : Char → Prop} (hp : p.node.Denotes (oneWith P))
    {s : Text} {n : ℕ} {d : Char} (hn : s[n]? = some d) : (n, n + 1) ∈ p.findAll s ↔ P d := by
  have hprog := hp.progressive fun u ⟨c, _, hu⟩ => hu ▸ List.cons_ne_nil c []
  have hspan : ∀ {i j}, p.MatchesAt s i j → j = i + 1 ∧ ∃ c, s[i]? = some c ∧ P c := by
    intro i j h
    obtain ⟨before, u, after, rfl, rfl, rfl, c, hc, rfl⟩ := (matchesAt_iff_spanOf hp).mp h
    exact ⟨by simp, c, by simp, hc⟩
  constructor
  · intro h
    obtain ⟨-, c, hc, hP⟩ := hspan (mem_findAll hp.1 hprog h)
    rw [hn] at hc
    exact Option.some.inj hc ▸ hP
  · intro hd
    have hlt := (List.getElem?_eq_some_iff.mp hn).1
    have hmatch : p.MatchesAt s n (n + 1) := by
      refine (matchesAt_iff_spanOf hp).mpr ⟨s.take n, [d], s.drop (n + 1), ?_, ?_, ?_, d, hd, rfl⟩
      · rw [List.singleton_append, ← (List.getElem?_eq_some_iff.mp hn).2, ← List.drop_eq_getElem_cons hlt,
          List.take_append_drop]
      · rw [List.length_take_of_le hlt.le]
      · rw [List.length_append, List.length_take_of_le hlt.le]
        rfl
    obtain ⟨x, hx, hle, hltx⟩ := findAll_covers hp.1 hprog hmatch
    obtain ⟨hstop, -⟩ := hspan (mem_findAll hp.1 hprog hx)
    have heq : x = (n, n + 1) := Prod.ext (by omega) (by omega)
    exact heq ▸ hx

/-- Spans with earlier starts are found in the place of those they belong to if every wider span
contains the start of one, and no start is moved over an earlier start or over the end of a span. -/
theorem Scan.widen {M M' : ℕ → ℕ → Prop} {g : ℕ → ℕ} (hwide : ∀ i j, M i j → M' (g i) j ∧ g i ≤ i)
    (hcover : ∀ i' j, M' i' j → ∃ i, M i j ∧ g i ≤ i' ∧ i' ≤ i)
    (hstarts : ∀ i j i' j', M i j → M i' j' → i < i' → i < g i')
    (hstops : ∀ i j i' j', M i j → M i' j' → j ≤ i' → j ≤ g i') {start : ℕ}
    (hstart : ∀ i j, M i j → start ≤ i → start ≤ g i) {xs : List (ℕ × ℕ)} (h : Scan M start xs) :
    Scan M' start (xs.map fun x => (g x.1, x.2)) := by
  induction h with
  | done hnone =>
    refine .done fun i' j hi' hspan => ?_
    obtain ⟨i, hi, -, hle⟩ := hcover i' j hspan
    exact hnone i j (hi'.trans hle) hi
  | @found start i j rest hle hspan hfirst hnext ih =>
    refine .found (hstart i j hspan hle) (hwide i j hspan).1 (fun i' j' hi' hlt hspan' => ?_)
      (ih fun i' j' h => hstops i j i' j' hspan h)
    obtain ⟨k, hk, hgk, hik⟩ := hcover i' j' hspan'
    simp only at hlt
    -- the span that begins at `k` is the first one or comes later
    have hki : ¬ k < i := fun hki => hfirst k j' (hi'.trans hik) hki hk
    obtain rfl | hik' := Nat.eq_or_lt_of_le (Nat.not_lt.mp hki)
    · omega
    · have := hstarts i j k j' hspan hk hik'
      have := (hwide i j hspan).2
      omega

end VerseSearch.Pattern
