import Mathlib.Logic.Function.Basic
import VerseSearch.Proofs.Matching.Running

/-! # Ways of matching in their order

Which texts groups hold after a match depends on the order in which the runner tries the ways of
matching. A node of characters has a list of ways, the first one tried first.

* `longest`, `shortest`, `oneMore`: the ways to take characters with a property.
* `Node.Takes`: a node has these ways from every place; `takes_greedy`, `takes_plus` and
  `takes_lazyPlus` are the loops over one character, `takes_text` is a text.
* `LoopsBy`: what a loop tries in which order, whether it prefers to end or to go on.
* `State.held`, `heldAtStart`: the texts that groups hold.
* `Yields`: what a continuation makes of the texts held and of the rest of the text;
  `Node.Takes.yields` and `Node.Takes.yields_group` put a node or a group before it.
-/

namespace VerseSearch.Pattern
set_option autoImplicit false

/-! ## Ways -/

/-- The ways to take one character with a property and to go on, with what is left. -/
def oneMore (p : Char → Bool) (ways : Text → List (Text × Text)) : Text → List (Text × Text)
  | [] => []
  | c :: rest => if p c then (ways rest).map fun x => (c :: x.1, x.2) else []

/-- The ways to take any number of characters with a property, the longest first. -/
def longest (p : Char → Bool) : Text → List (Text × Text)
  | [] => [([], [])]
  | c :: rest => (if p c then (longest p rest).map fun x => (c :: x.1, x.2) else []) ++ [([], c :: rest)]

/-- The ways to take any number of characters with a property, the shortest first. -/
def shortest (p : Char → Bool) : Text → List (Text × Text)
  | [] => [([], [])]
  | c :: rest => ([], c :: rest) :: if p c then (shortest p rest).map fun x => (c :: x.1, x.2) else []

theorem longest_eq (p : Char → Bool) (t : Text) : longest p t = oneMore p (longest p) t ++ [([], t)] := by
  cases t <;> rfl

theorem shortest_eq (p : Char → Bool) (t : Text) :
    shortest p t = ([], t) :: oneMore p (shortest p) t := by
  cases t <;> rfl

/-- What is taken and what is left make up the text. -/
def Splits (ways : Text → List (Text × Text)) : Prop := ∀ t, ∀ x ∈ ways t, t = x.1 ++ x.2

theorem splits_oneMore {p : Char → Bool} {ways : Text → List (Text × Text)} {c : Char} {t : Text}
    (h : ∀ x ∈ ways t, t = x.1 ++ x.2) : ∀ x ∈ oneMore p ways (c :: t), c :: t = x.1 ++ x.2 := by
  intro x hx
  rw [oneMore] at hx
  split at hx
  · obtain ⟨y, hy, rfl⟩ := List.mem_map.mp hx
    exact congrArg _ (h y hy)
  · cases hx

theorem splits_longest (p : Char → Bool) : Splits (longest p) := by
  intro t
  induction t with
  | nil => simp [longest]
  | cons c t ih =>
    rw [longest_eq, List.forall_mem_append]
    exact ⟨splits_oneMore ih, by simp⟩

theorem splits_shortest (p : Char → Bool) : Splits (shortest p) := by
  intro t
  induction t with
  | nil => simp [shortest]
  | cons c t ih =>
    rw [shortest_eq, List.forall_mem_cons]
    exact ⟨rfl, splits_oneMore ih⟩

theorem Splits.oneMore {ways : Text → List (Text × Text)} (h : Splits ways) (p : Char → Bool) :
    Splits (oneMore p ways) := by
  intro t
  cases t with
  | nil => exact nofun
  | cons c t => exact splits_oneMore (h t)

/-! ## Loops over one character -/

/-- What the ways from a place lead to. -/
def firstOf (ways : List (Text × Text)) (k : Continuation) (s : State) : Option State :=
  ways.findSome? fun x => k (s.moveTo (s.pos + x.1.length))

/-- A node tries these ways, from every place. -/
structure Node.Takes (n : Node) (ways : Text → List (Text × Text)) : Prop where
  splits : Splits ways
  run_eq : ∀ (text before rest : Text) (k : Continuation) (s : State), text = before ++ rest →
    s.pos = before.length → n.run text.toArray k s = firstOf (ways rest) k s

@[simp] theorem firstOf_append (xs ys : List (Text × Text)) (k : Continuation) (s : State) :
    firstOf (xs ++ ys) k s = (firstOf xs k s).or (firstOf ys k s) := List.findSome?_append

@[simp] theorem firstOf_here (t : Text) (k : Continuation) (s : State) : firstOf
    [([], t)] k s = k s := by
  simp [firstOf, State.moveTo]

@[simp] theorem firstOf_cons (t : Text) (ways : List (Text × Text)) (k : Continuation) (s : State) :
    firstOf (([], t) :: ways) k s = (k s).or (firstOf ways k s) := by
  rw [← List.singleton_append, firstOf_append, firstOf_here]

@[simp] theorem firstOf_after (c : Char) (ways : List (Text × Text)) (k : Continuation) (s : State) :
    firstOf (ways.map fun x => (c :: x.1, x.2)) k s = firstOf ways k s.advance := by
  simp [firstOf, List.findSome?_map, Function.comp_def, State.moveTo, State.advance, Nat.add_assoc,
    Nat.add_comm 1]

theorem run_one {before : Text} (rest : Text) (set : CharSet) (k : Continuation) {s : State}
    (hs : s.pos = before.length) : (Node.one set).run (before ++ rest).toArray k s =
      match rest with
      | [] => none
      | c :: _ => if set.accepts c then k s.advance else none := by
  rw [Node.run, hs, getElem?_after]
  cases rest <;> rfl

/-- One round, and then a loop that has ways from the place after it. -/
theorem run_one_loop {text before rest : Text} (htext : text = before ++ rest) {s : State}
    (hs : s.pos = before.length) {set : CharSet} {ways : Text → List (Text × Text)}
    {k loop : Continuation} (hloop : ∀ c after, rest = c :: after →
      loop s.advance = firstOf (ways after) k s.advance) :
    (Node.one set).run text.toArray loop s = firstOf (oneMore set.accepts ways rest) k s := by
  rw [htext, run_one rest set loop hs]
  cases rest with
  | nil => rfl
  | cons c after =>
    rw [oneMore]
    dsimp only
    cases set.accepts c with
    | true => exact (hloop c after rfl).trans (firstOf_after c _ k s).symm
    | false => rfl

/-- A loop, the ways it tries, and which of the end and another round it prefers. -/
structure LoopsBy
    (loop : (Continuation → Continuation) → ℕ → Option ℕ → Continuation → ℕ → ℕ → Option ℕ →
      State → Option State) (either : Option State → Option State → Option State)
    (ways : (Char → Bool) → Text → List (Text × Text)) : Prop where
  splits : ∀ p, Splits (ways p)
  firstOf_eq : ∀ p t k s,
    firstOf (ways p t) k s = either (k s) (firstOf (oneMore p (ways p) t) k s)
  required : ∀ round k fuel least count last s, count < least →
    loop round least none k (fuel + 1) count last s = round (loop round least none k fuel (count + 1) last) s
  optional : ∀ round k fuel least count last s, least ≤ count → last ≠ some s.pos →
    loop round least none k (fuel + 1) count last s =
      either (k s) (round (loop round least none k fuel (count + 1) (some s.pos)) s)

theorem loopsBy_greedy : LoopsBy greedyLoop (fun here more => more.or here) longest where
  splits := splits_longest
  firstOf_eq p t k s := by rw [longest_eq, firstOf_append, firstOf_here]
  required _ _ _ _ _ _ _ h := if_pos h
  optional _ _ fuel _ _ _ _ hleast hlast := greedyLoop_succ fuel hleast hlast

theorem loopsBy_lazy : LoopsBy lazyLoop Option.or shortest where
  splits := splits_shortest
  firstOf_eq p t k s := by rw [shortest_eq, firstOf_cons]
  required _ _ _ _ _ _ _ h := if_pos h
  optional round k fuel least count last s hleast hlast := by
    rw [lazyLoop, if_neg (Nat.not_lt.mpr hleast), if_pos (by simpa [admitsRound] using hlast)]
    cases k s <;> rfl

namespace LoopsBy

variable {loop : (Continuation → Continuation) → ℕ → Option ℕ → Continuation → ℕ → ℕ → Option ℕ →
    State → Option State} {either : Option State → Option State → Option State}
  {ways : (Char → Bool) → Text → List (Text × Text)} (h : LoopsBy loop either ways) (set : CharSet)
include h

theorem eq_firstOf (k : Continuation) {least : ℕ} {text : Text} (rest : Text) :
    ∀ (before : Text) (fuel count : ℕ) (last : Option ℕ) (s : State), text = before ++ rest →
      s.pos = before.length → rest.length < fuel → least ≤ count → last ≠ some s.pos →
      loop ((Node.one set).run text.toArray) least none k fuel count last s =
        firstOf (ways set.accepts rest) k s := by
  induction rest with
  | nil =>
    intro before fuel count last s htext hs hfuel hleast hlast
    obtain ⟨fuel, rfl⟩ := Nat.exists_eq_succ_of_ne_zero (Nat.ne_of_gt hfuel)
    rw [h.optional _ _ fuel _ _ _ _ hleast hlast, h.firstOf_eq, run_one_loop htext hs nofun]
  | cons c rest ih =>
    intro before fuel count last s htext hs hfuel hleast hlast
    obtain ⟨fuel, rfl⟩ := Nat.exists_eq_succ_of_ne_zero (Nat.ne_of_gt (Nat.zero_lt_of_lt hfuel))
    rw [h.optional _ _ fuel _ _ _ _ hleast hlast, h.firstOf_eq]
    congr 1
    refine run_one_loop htext hs fun _ _ heq => ?_
    obtain ⟨rfl, rfl⟩ := List.cons.inj heq
    refine ih (before ++ [c]) fuel (count + 1) (some s.pos) s.advance (by simp [htext])
      (by simp [State.advance, hs]) (Nat.lt_of_succ_lt_succ hfuel) (Nat.le_succ_of_le hleast) ?_
    simp [State.advance]

/-- With no round required, all ways are tried. -/
theorem takes {n : Node} (hn : ∀ text k s, n.run text k s =
      loop ((Node.one set).run text) 0 none k (0 + text.size + 3) 0 none s) :
    n.Takes (ways set.accepts) := by
  refine ⟨h.splits _, fun text before rest k s htext hs => ?_⟩
  rw [hn]
  refine h.eq_firstOf set k rest before _ 0 none s htext hs ?_ (Nat.le_refl 0) nofun
  simp only [htext, List.size_toArray, List.length_append]
  omega

/-- With one round required, the ways are tried after it. -/
theorem takes_oneMore {n : Node} (hn : ∀ text k s, n.run text k s =
      loop ((Node.one set).run text) 1 none k (1 + text.size + 3) 0 none s) :
    n.Takes (oneMore set.accepts (ways set.accepts)) := by
  refine ⟨(h.splits _).oneMore _, fun text before rest k s htext hs => ?_⟩
  rw [hn, Nat.add_comm 1, Nat.add_right_comm, h.required _ _ _ _ _ _ _ Nat.zero_lt_one]
  refine run_one_loop htext hs fun c after heq => ?_
  refine h.eq_firstOf set k after (before ++ [c]) _ 1 none s.advance (by simp [htext, heq])
    (by simp [State.advance, hs]) ?_ (Nat.le_refl 1) nofun
  simp only [htext, heq, List.size_toArray, List.length_append, List.length_cons]
  omega

end LoopsBy

/-! ## Nodes -/

section
variable (set : CharSet)

theorem takes_greedy : (Node.loop .greedy 0 none (.one set)).Takes (longest set.accepts) :=
  loopsBy_greedy.takes set fun _ _ _ => rfl

theorem takes_plus :
    (Node.loop .greedy 1 none (.one set)).Takes (oneMore set.accepts (longest set.accepts)) :=
  loopsBy_greedy.takes_oneMore set fun _ _ _ => rfl

theorem takes_lazyPlus :
    (Node.loop .lazy 1 none (.one set)).Takes (oneMore set.accepts (shortest set.accepts)) :=
  loopsBy_lazy.takes_oneMore set fun _ _ _ => rfl

end

/-- The ways to take a given text. -/
def exactly (u t : Text) : List (Text × Text) :=
    ((List.isPrefixOf? u t).map fun rest => (u, rest)).toList

theorem takes_text (u : Text) : (Node.text u).Takes (exactly u) := by
  constructor
  · intro t x hx
    simp only [exactly, Option.mem_toList, Option.map_eq_some_iff] at hx
    obtain ⟨rest, hrest, rfl⟩ := hx
    exact (List.isPrefixOf?_eq_some_iff_append_eq.mp hrest).symm
  · intro text before rest k s htext hs
    rw [run_text htext hs, exactly]
    cases hafter : List.isPrefixOf? u rest with
    | some after =>
      rw [if_pos ⟨after, List.isPrefixOf?_eq_some_iff_append_eq.mp hafter⟩, ← hs]
      simp [firstOf]
    | none =>
      rw [if_neg]
      · rfl
      · rintro ⟨after, rfl⟩
        rw [List.isPrefixOf?_eq_some_iff_append_eq.mpr rfl] at hafter
        cases hafter

theorem Node.Takes.seq_singleton {n : Node} {ways : Text → List (Text × Text)} (h : n.Takes ways) :
    (Node.seq [n]).Takes ways := ⟨h.splits, h.run_eq⟩

theorem run_seq_append (text : Array Char) (ms ns : List Node) (k : Continuation) :
    (Node.seq (ms ++ ns)).run text k = (Node.seq ms).run text ((Node.seq ns).run text k) := by
  induction ms with
  | nil => rfl
  | cons m ms ih =>
    funext s
    change m.run text ((Node.seq (ms ++ ns)).run text k) s = _
    rw [ih]
    rfl

/-! ## Texts held by groups -/

/-- The texts that groups hold. -/
def State.held (text : Text) (s : State) (index : ℕ) : Option Text :=
  (s.group? index).map fun (a, b) => slice text a b

/-- The texts that the groups of a pattern hold after its match at the start of a text. -/
def heldAtStart (p : Pattern) (text : Text) : Option (ℕ → Option Text) :=
  (p.node.run text.toArray some { pos := 0 }).map (·.held text)

@[simp] theorem lookup_setKey (key value index : ℕ) (pairs : List (ℕ × ℕ)) :
    (setKey key value pairs).lookup index = if index = key then some value else pairs.lookup index := by
  have hfilter : index ≠ key → (pairs.filter (·.1 ≠ key)).lookup index = pairs.lookup index := by
    intro hne
    induction pairs with
    | nil => rfl
    | cons x pairs ih =>
      by_cases hx : x.1 = key
      · have hnot : (index == x.1) = false := by simp [hx, hne]
        rw [List.filter_cons_of_neg (by simp [hx]), ih, List.lookup_cons, hnot]
      · rw [List.filter_cons_of_pos (by simp [hx]), List.lookup_cons, List.lookup_cons, ih]
  rw [setKey, List.lookup_cons]
  by_cases hindex : index = key
  · simp [hindex]
  · have hnot : (index == key) = false := by simp [hindex]
    rw [hnot, if_neg hindex]
    exact hfilter hindex

/-- A group that has been entered, and is left after a text, holds this text. -/
theorem held_capture {text before u rest : Text} (htext : text = before ++ (u ++ rest)) {s : State}
    (hs : s.pos = before.length) (index : ℕ) :
    (((s.enter index).moveTo (s.pos + u.length)).leave index).held text =
      Function.update (s.held text) index (some u) := by
  funext i
  simp only [State.held, State.group?, State.leave, State.moveTo, State.enter, lookup_setKey]
  by_cases hi : i = index
  · subst hi
    simp [hs, htext, slice]
  · simp only [if_neg hi, Function.update_of_ne hi]
    rfl

/-- From every place a continuation makes this of the texts held and of the rest of the text. -/
def Yields (text : Text) (k : Continuation)
    (F : (ℕ → Option Text) → Text → Option (ℕ → Option Text)) : Prop :=
  ∀ (before rest : Text) (s : State), text = before ++ rest → s.pos = before.length →
    (k s).map (·.held text) = F (s.held text) rest

theorem yields_some (text : Text) : Yields text some fun held _ => some held := fun _ _ _ _ _ => rfl

theorem findSome?_congr {α β : Type} {xs : List α} {f g : α → Option β} (h : ∀ x ∈ xs, f x = g x) :
    xs.findSome? f = xs.findSome? g := by
  induction xs with
  | nil => rfl
  | cons x xs ih =>
    obtain ⟨hx, hxs⟩ := List.forall_mem_cons.mp h
    rw [List.findSome?_cons, List.findSome?_cons, hx, ih hxs]

section
variable {text : Text} {k : Continuation} {F : (ℕ → Option Text) → Text → Option (ℕ → Option Text)}
  (h : Yields text k F)
include h

theorem Yields.congr {G : (ℕ → Option Text) → Text → Option (ℕ → Option Text)}
    (hG : ∀ held rest, F held rest = G held rest) : Yields text k G :=
  fun before rest s htext hs => (h before rest s htext hs).trans (hG _ _)

theorem Node.Takes.yields {n : Node} {ways : Text → List (Text × Text)} (hn : n.Takes ways) :
    Yields text (n.run text.toArray k) fun held rest => (ways rest).findSome? fun x => F held x.2 := by
  intro before rest s htext hs
  rw [hn.run_eq text before rest k s htext hs, firstOf, List.map_findSome?]
  refine findSome?_congr fun x hx => ?_
  have hsplit := hn.splits rest x hx
  exact h (before ++ x.1) x.2 _ (by rw [htext, hsplit, List.append_assoc]) (by simp [State.moveTo, hs])

theorem Node.Takes.yields_group {n : Node} {ways : Text → List (Text × Text)} (hn : n.Takes ways)
    (index : ℕ) : Yields text ((Node.group index n).run text.toArray k) fun held rest =>
      (ways rest).findSome? fun x => F (Function.update held index (some x.1)) x.2 := by
  intro before rest s htext hs
  rw [Node.run, hn.run_eq text before rest _ (s.enter index) htext hs, firstOf, List.map_findSome?]
  refine findSome?_congr fun x hx => ?_
  have htext' : text = before ++ (x.1 ++ x.2) := by rw [htext, ← hn.splits rest x hx]
  rw [← held_capture htext' hs index]
  exact h (before ++ x.1) x.2 _ (by rw [htext', List.append_assoc])
    (by simp [State.moveTo, State.leave, State.enter, hs])

/-- The end of a text that has no line feed at its end. -/
theorem Yields.lastLineEnd (hlast : text.getLast? ≠ some '\n') :
    Yields text ((Node.anchor .lastLineEnd).run text.toArray k) fun held rest =>
      if rest = [] then F held [] else none := by
  intro before rest s htext hs
  have hholds : Anchor.lastLineEnd.holds text.toArray s.pos = decide (rest = []) := by
    rw [Anchor.holds, hs]
    subst htext
    rw [getElem?_after]
    rcases rest with _ | ⟨c, _ | ⟨d, rest⟩⟩
    · simp
    · have hc : c ≠ '\n' := by
        rintro rfl
        simp at hlast
      simp [hc]
    · simp
  rw [Node.run, hholds]
  by_cases hrest : rest = []
  · subst hrest
    simpa using h before [] s htext hs
  · simp [hrest]

end

end VerseSearch.Pattern
