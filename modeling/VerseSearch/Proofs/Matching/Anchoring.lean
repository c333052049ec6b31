import VerseSearch.Proofs.Matching.PlainSteps

/-! # Steps in a text and between `^(?:` and `)$`

The group that stands around a text between the ends changes no step of reading the text: the two readings
differ in the outermost group, in what is around it and in offsets.

* `Reading.anchored`: the state between the ends.
* `Reading.Regular`: what holds of every state but after flags for the whole pattern.
* `Follows`, `Cuts`: how a step between the ends compares with the step in the text.
* `Reading.Regular.step_agrees`: one step.
-/

namespace VerseSearch.Pattern
set_option autoImplicit false

/-! ## States -/

/-- Between the ends, a plain group stands for the pattern. -/
def Opener.anchored : Opener → Opener
  | .pattern => .plain
  | opener => opener

/-- A group of a text as it is between the ends, with four characters before the text. -/
def Frame.anchored (frame : Frame) : Frame :=
  { frame with
    opener := frame.opener.anchored
    start := match frame.opener with
      | .pattern => 1
      | _ => frame.start + 4 }

/-- The pattern around the group, with the anchor before it. -/
def anchorFrame : Frame where
  opener := .pattern
  pieces := [⟨.anchor .textStart, .anchor⟩]

/-- The state after a part of a text as it is between the ends. -/
def Reading.anchored (r : Reading) : Reading :=
  { r with
    frame := r.frame.anchored
    outer := r.outer.map Frame.anchored ++ [anchorFrame]
    wanted := r.wanted.map fun (index, offset) => (index, offset + 4) }

theorem Opener.anchored_ne (opener : Opener) : opener.anchored ≠ .pattern := by
  cases opener <;> nofun

/-- Between the ends, flags for the whole pattern come late. -/
theorem Reading.anchored_late (r : Reading) : (decide (r.anchored.frame.opener ≠ .pattern) ||
    !r.anchored.frame.branches.isEmpty || !r.anchored.frame.pieces.isEmpty) = true := by
  have hopener : r.anchored.frame.opener ≠ .pattern := r.frame.opener.anchored_ne
  rw [decide_eq_true hopener]
  rfl

theorem Reading.isSome_lookup_wanted (r : Reading) (index : ℕ) :
    (r.anchored.wanted.lookup index).isSome = (r.wanted.lookup index).isSome := by
  change ((r.wanted.map fun (index, offset) => (index, offset + 4)).lookup index).isSome = _
  induction r.wanted with
  | nil => rfl
  | cons x wanted ih =>
    rw [List.map_cons, List.lookup_cons, List.lookup_cons]
    split
    · rfl
    · exact ih

theorem Reading.alike_anchored (r : Reading) : r.Alike r.anchored := ⟨rfl, rfl, rfl, rfl⟩

/-- The outermost group, and no other one, is the pattern. -/
def Rooted : List Opener → Prop
  | [] => False
  | [opener] => opener = .pattern
  | opener :: next :: openers => opener ≠ .pattern ∧ Rooted (next :: openers)

/-- No flags were set for the whole pattern, and the outermost group is the pattern. -/
structure Reading.Regular (r : Reading) : Prop where
  ascii : r.asciiFlag = false
  unicode : r.unicodeFlag = false
  modes : r.modes.template = false
  frame : r.frame.outerModes.template = false
  outer : ∀ frame ∈ r.outer, frame.outerModes.template = false
  root : Rooted ((r.frame :: r.outer).map (·.opener))

/-- Something of the pattern stands before the place that reading has reached. -/
def Reading.Begun (r : Reading) : Prop :=
  r.frame.opener = .pattern → r.frame.branches ≠ [] ∨ r.frame.pieces ≠ []

/-- A group of flags for the whole pattern stands at the start. -/
def FlagsFirst (source : Text) : Prop :=
  ∃ letters, letters ≠ [] ∧ (∀ c ∈ letters, isFlag c = true) ∧ '(' :: '?' :: letters ++ [')'] <+: source

/-! ## How steps compare -/

/-- A step between the ends that goes as the step in the text before `rest`. -/
structure Follows (rest : List Char) (x y : Reading × ℕ) : Prop where
  eq : y = (x.1.anchored, x.2)
  ends : Ends rest x.2
  regular : x.1.Regular
  begun : x.1.Begun

/-- A step that takes the parenthesis of the tail and leaves a group open. -/
def Cuts (rest : List Char) (y : Reading × ℕ) : Prop := y.1.outer ≠ [] ∧ rest.drop y.2 = ['$']

namespace Reading.Regular

variable {r : Reading} (hr : r.Regular) {rest : List Char} {count : ℕ} {D : Reading × ℕ → Prop}
include hr

/-! ### Pieces and groups -/

theorem push (node : Node) (kind : PieceKind) : (r.push node kind).Regular :=
  ⟨hr.ascii, hr.unicode, hr.modes, hr.frame, hr.outer, hr.root⟩

theorem follows_push (hends : Ends rest count) (node : Node) (kind : PieceKind) :
    Follows rest (r.push node kind, count) (r.anchored.push node kind, count) :=
  ⟨rfl, hends, hr.push node kind, fun _ => .inr (List.cons_ne_nil _ _)⟩

theorem follows_of_pushes {x y : Reading × ℕ} (h : Pushes r r.anchored rest x y) : Follows rest x y := by
  obtain ⟨node, kind, count, rfl, rfl, hends⟩ := h
  exact hr.follows_push hends node kind

theorem follows_pushSet (hends : Ends rest count) (negated : Bool) (items : List SetItem) :
    Follows rest (r.pushSet negated items, count) (r.anchored.pushSet negated items, count) :=
  hr.follows_push hends _ _

theorem openFrame {opener : Opener} (hopener : opener ≠ .pattern) {modes : Modes}
    (hmodes : modes.template = false) (pos : ℕ) : (r.openFrame opener pos modes).Regular :=
  ⟨hr.ascii, hr.unicode, hmodes, hr.modes, List.forall_mem_cons.mpr ⟨hr.frame, hr.outer⟩, hopener, hr.root⟩

theorem follows_openFrame (hends : Ends rest count) (opener : Opener) (hopener : opener ≠ .pattern)
    {modes : Modes} (hmodes : modes.template = false) (pos : ℕ) :
    Follows rest (r.openFrame opener pos modes, count) (r.anchored.openFrame opener (pos + 4) modes, count) := by
  refine ⟨?_, hends, hr.openFrame hopener hmodes pos, fun h => absurd h hopener⟩
  cases opener with
  | pattern => exact absurd rfl hopener
  | capture | plain | atomic | look | cond => rfl

/-! ### Repetitions -/

theorem repeatLast_agrees {tail : List Char} (ht : IsTail tail) (pos after after' least : ℕ)
    (most : Option ℕ) (h : Whole rest) : Agrees (Follows rest) D (r.repeatLast pos after least most rest)
      (r.anchored.repeatLast (pos + 4) after' least most (rest ++ tail)) := by
  have hpieces : r.anchored.frame.pieces = r.frame.pieces := rfl
  unfold Reading.repeatLast
  rw [hpieces]
  split
  · exact .fail
  · split
    · exact .fail
    · exact .fail
    · obtain ⟨htail, hends⟩ := appetiteOf_tail ht h
      split
      next appetite count heq =>
      split
      next appetite' count' heq' =>
      have hone : appetiteOf rest = (appetite, count) := heq
      have hboth : appetiteOf (rest ++ tail) = (appetite', count') := heq'
      rw [htail, hone] at hboth
      cases hboth
      rw [hone] at hends
      exact .ok ⟨rfl, hends, ⟨hr.ascii, hr.unicode, hr.modes, hr.frame, hr.outer, hr.root⟩,
        fun _ => .inr (List.cons_ne_nil _ _)⟩

/-! ### Opening parentheses -/

theorem openCapture_agrees (hends : Ends rest count) (pos : ℕ) (name : Option (Text × ℕ)) :
    Agrees (fun x y => Follows rest (x, count) (y, count)) (fun _ => False) (r.openCapture pos name)
      (r.anchored.openCapture (pos + 4) (name.map fun (name, start) => (name, start + 4))) := by
  have hopened : ∀ names, ({ r with groupCount := r.groupCount + 1, names } : Reading).Regular := fun names =>
    ⟨hr.ascii, hr.unicode, hr.modes, hr.frame, hr.outer, hr.root⟩
  cases name with
  | none =>
    exact .ok ((hopened r.names).follows_openFrame hends (.capture (r.groupCount + 1)) nofun hr.modes pos)
  | some named =>
    obtain ⟨name, start⟩ := named
    have hnames : r.anchored.names = r.names := rfl
    simp only [Reading.openCapture, Option.map_some, hnames]
    split
    · exact .fail
    · exact .ok ((hopened ((name, r.groupCount + 1) :: r.names)).follows_openFrame hends
        (.capture (r.groupCount + 1)) nofun hr.modes pos)

theorem follows_openLook (hends : Ends rest count) (pos : ℕ) (behind negated : Bool) :
    Follows rest (r.openLook pos behind negated, count) (r.anchored.openLook (pos + 4) behind negated, count) := by
  obtain ⟨heq, -, hregular, hbegun⟩ :=
    hr.follows_openFrame hends (.look behind negated r.limit) nofun hr.modes pos
  cases behind with
  | false => exact ⟨heq, hends, hregular, hbegun⟩
  | true =>
    refine ⟨rfl, hends, ?_, nofun⟩
    exact ⟨hregular.ascii, hregular.unicode, hregular.modes, hregular.frame, hregular.outer, hregular.root⟩

/-- The group of a choice, whose name the parenthesis of the tail may end. -/
theorem readCondition_agrees {tail : List Char} (ht : IsTail tail) (pos : ℕ) {cs : List Char} (h : Whole cs) :
    Agrees (fun x y => y = (x.1.anchored, x.2) ∧ x.1.Regular ∧ Ends cs (x.2.2 + 1))
      (fun y => tail = [')', '$'] ∧ y.2.2 = cs.length)
      (r.readCondition pos cs) (r.anchored.readCondition (pos + 4) (cs ++ tail)) := by
  have hnames : r.anchored.names = r.names := rfl
  unfold Reading.readCondition
  rw [hnames]
  refine (readName_tail ht pos (pos + 4) "group name" (by decide) h).bind ?_ ?_
  · rintro name _ ⟨rfl, hends⟩
    extract_lets after after'
    split
    · split
      · exact .fail
      · refine ((Reading.alike_anchored _).checkLimit_agrees _ _ _).bind ?_ nofun
        exact fun _ _ _ => .ok ⟨rfl, hr, hends⟩
    · split
      · next index _ =>
        refine .guard Iff.rfl fun _ => .guard Iff.rfl fun _ => ?_
        extract_lets next next'
        have hnext : next' = next.anchored := by
          simp only [next, next', isSome_lookup_wanted]
          split
          · rfl
          · simp [Reading.anchored]
        have hregular : next.Regular := by
          simp only [next]
          split
          · exact hr
          · exact ⟨hr.ascii, hr.unicode, hr.modes, hr.frame, hr.outer, hr.root⟩
        rw [hnext]
        refine ((Reading.alike_anchored _).checkLimit_agrees _ _ _).bind ?_ nofun
        exact fun _ _ _ => .ok ⟨rfl, hregular, hends⟩
      · exact .fail
  · rintro name ⟨-, htail, rfl⟩
    dsimp only
    split
    · split
      · exact .fail
      · exact (checkLimit_meets _ _ _).bind fun _ _ => .ok ⟨htail, rfl⟩
    · split
      · refine .guard fun _ => .guard fun _ => ?_
        exact (checkLimit_meets _ _ _).bind fun _ _ => .ok ⟨htail, rfl⟩
      · exact .fail

theorem stepNamed_open_agrees {tail : List Char} (ht : IsTail tail) (pos : ℕ) {cs : List Char} (h : Whole cs) :
    Agrees (Follows ('?' :: 'P' :: '<' :: cs)) D (r.stepNamed pos ('<' :: cs))
      (r.anchored.stepNamed (pos + 4) ('<' :: (cs ++ tail))) := by
  rw [Reading.stepNamed, Reading.stepNamed]
  refine (readGroupName_tail ht (pos + 4) (pos + 4 + 4) (by decide) h).bind ?_ ?_
  · rintro name _ ⟨rfl, hends⟩
    have hends : Ends ('?' :: 'P' :: '<' :: cs) (name.length + 4) := hends.cons.cons.cons
    refine (hr.openCapture_agrees hends pos (some (name, pos + 4))).bind ?_ fun _ => False.elim
    exact fun next next' hnext => .ok hnext
  · rintro name ⟨hclose, -, -⟩
    exact absurd hclose (by decide)

theorem stepNamed_equal_agrees {tail : List Char} (ht : IsTail tail) (pos : ℕ) {cs : List Char} (h : Whole cs) :
    Agrees (Follows ('?' :: 'P' :: '=' :: cs)) (Cuts ('?' :: 'P' :: '=' :: (cs ++ tail)))
      (r.stepNamed pos ('=' :: cs)) (r.anchored.stepNamed (pos + 4) ('=' :: (cs ++ tail))) := by
  have hnames : r.anchored.names = r.names := rfl
  rw [Reading.stepNamed, Reading.stepNamed, hnames]
  refine (readGroupName_tail ht (pos + 4) (pos + 4 + 4) (by decide) h).bind ?_ ?_
  · rintro name _ ⟨rfl, hends⟩
    extract_lets after after'
    split
    · exact .fail
    · refine .guard Iff.rfl fun _ => ((Reading.alike_anchored _).checkLimit_agrees _ _ _).bind ?_ nofun
      exact fun _ _ _ => .ok (hr.follows_push hends.cons.cons.cons _ _)
  -- the parenthesis of the tail ends the name, and the group around the text stays open
  · rintro name ⟨-, rfl, rfl⟩
    extract_lets after
    split
    · exact .fail
    · refine .guard fun _ => (checkLimit_meets _ _ _).bind fun _ _ => .ok ⟨?_, ?_⟩
      · exact List.append_ne_nil_of_right_ne_nil _ (List.cons_ne_nil _ _)
      · simp

theorem stepNamed_agrees {tail : List Char} (ht : IsTail tail) (pos : ℕ) {cs : List Char} (h : Whole cs) :
    Agrees (Follows ('?' :: 'P' :: cs)) (Cuts ('?' :: 'P' :: (cs ++ tail))) (r.stepNamed pos cs)
      (r.anchored.stepNamed (pos + 4) (cs ++ tail)) := by
  cases cs with
  | nil => cases ht <;> exact .problem .fail
  | cons c cs =>
    have hother : ∀ (r : Reading) pos rest, c ≠ '<' → c ≠ '=' → r.stepNamed pos (c :: rest) =
        fail (.unknownExtension ('?' :: 'P' :: token (c :: rest))) (pos + 1)
          (pos + 3 + (token (c :: rest)).length) := fun r pos rest hopen hequal => by
      rw [Reading.stepNamed]
      · exact fun _ heq => hopen (List.cons.inj heq).1
      · exact fun _ heq => hequal (List.cons.inj heq).1
      · exact List.cons_ne_nil _ _
    rw [List.cons_append]
    by_cases hopen : c = '<'
    · subst hopen
      exact hr.stepNamed_open_agrees ht pos (h.of_cons (by decide))
    by_cases hequal : c = '='
    · subst hequal
      exact hr.stepNamed_equal_agrees ht pos (h.of_cons (by decide))
    · rw [hother r pos cs hopen hequal, hother _ _ _ hopen hequal]
      exact .fail

theorem stepFlags_agrees {tail : List Char} (ht : IsTail tail) (pos : ℕ) {cs : List Char} (h : Whole cs)
    (hfirst : r.Begun ∨ ∀ letters rest, cs = letters ++ ')' :: rest → ∃ c ∈ letters, isFlag c = false) :
    Agrees (Follows ('?' :: cs)) D (r.stepFlags pos cs) (r.anchored.stepFlags (pos + 4) (cs ++ tail)) := by
  have hlate := r.anchored_late
  unfold Reading.stepFlags
  refine ((readFlags_tail ht (pos + 2) (pos + 4 + 2) h).and_left
    (readFlags_meets (Q := fun _ => True) (pos + 2) cs)).bind ?_ ?_
  · rintro ⟨flags, _⟩ ⟨_, _⟩ ⟨⟨rfl, htemplate, count, hends, rfl, rfl⟩, hglobal⟩
    dsimp only at hglobal htemplate ⊢
    split
    -- flags for the whole pattern are late in both readings
    · next hflags =>
      obtain ⟨letters, rest, rfl, -, hletters⟩ := hglobal hflags
      obtain hbegun | hfirst := hfirst
      · have hlate' : (decide (r.frame.opener ≠ .pattern) || !r.frame.branches.isEmpty ||
            !r.frame.pieces.isEmpty) = true := by
          by_cases hopener : r.frame.opener = .pattern
          · obtain hbranches | hpieces := hbegun hopener
            · simp [hbranches]
            · simp [hpieces]
          · simp [hopener]
        rw [if_pos hlate']
        exact .fail
      · obtain ⟨c, hc, hflag⟩ := hfirst letters rest rfl
        rw [hletters c hc] at hflag
        cases hflag
    · next hflags =>
      have hmodes : (r.modes.change flags.on flags.off).template = false := by
        simp [Modes.change, hr.modes, htemplate (Bool.eq_false_iff.mpr hflags)]
      rw [show pos + 2 + count - pos - 1 = count + 1 by omega,
        show pos + 4 + 2 + count - (pos + 4) - 1 = count + 1 by omega]
      exact .ok (hr.follows_openFrame hends.cons .plain nofun hmodes pos)
  · rintro ⟨flags, after⟩ hflags
    dsimp only at hflags ⊢
    rw [if_pos hflags]
    exact .guard fun hnot => absurd hlate hnot

theorem stepLess_agrees {tail : List Char} (ht : IsTail tail) (pos : ℕ) {cs : List Char} (h : Whole cs) :
    Agrees (Follows ('?' :: '<' :: cs)) D (r.stepExtension pos ('<' :: cs))
      (r.anchored.stepExtension (pos + 4) ('<' :: (cs ++ tail))) := by
  cases cs with
  | nil => cases ht <;> exact .problem .fail
  | cons c cs =>
    have hthree : ∀ hc : c ≠ '\\', Ends ('?' :: '<' :: c :: cs) 3 := fun hc =>
      .cons (.cons (.cons (.zero (h.of_cons hc))))
    by_cases hequal : c = '='
    · subst hequal
      exact .ok (hr.follows_openLook (hthree (by decide)) pos true false)
    by_cases hnegated : c = '!'
    · subst hnegated
      exact .ok (hr.follows_openLook (hthree (by decide)) pos true true)
    have hother : ∀ (r : Reading) pos rest, r.stepExtension pos ('<' :: c :: rest) =
        fail (.unknownExtension ('?' :: '<' :: token (c :: rest))) (pos + 1)
          (pos + 3 + (token (c :: rest)).length) := fun r pos rest => by
      rw [Reading.stepExtension]
      · exact fun _ heq => hequal (List.cons.inj heq).1
      · exact fun _ heq => hnegated (List.cons.inj heq).1
      · exact List.cons_ne_nil _ _
    rw [List.cons_append, hother, hother]
    exact .fail

theorem stepExtension_agrees {tail : List Char} (ht : IsTail tail) (pos : ℕ) {cs : List Char} (h : Whole cs)
    (hcomment : '#' ∉ cs)
    (hfirst : r.Begun ∨ ∀ letters rest, letters ≠ [] → cs = letters ++ ')' :: rest →
      ∃ c ∈ letters, isFlag c = false) :
    Agrees (Follows ('?' :: cs)) (Cuts ('?' :: (cs ++ tail))) (r.stepExtension pos cs)
      (r.anchored.stepExtension (pos + 4) (cs ++ tail)) := by
  cases cs with
  | nil => cases ht <;> exact .problem .fail
  | cons c cs =>
    obtain ⟨hsharp, hcomment⟩ := List.ne_and_not_mem_of_not_mem_cons hcomment
    rw [List.cons_append]
    by_cases hsign : c ∈ ['P', ':', '=', '!', '<', '(', '>']
    · have hcs : Whole cs := h.of_cons fun heq => absurd (heq ▸ hsign) (by decide)
      have htwo : Ends ('?' :: c :: cs) 2 := .cons (.cons (.zero hcs))
      simp only [List.mem_cons, List.not_mem_nil, or_false] at hsign
      obtain rfl | rfl | rfl | rfl | rfl | rfl | rfl := hsign
      · exact hr.stepNamed_agrees ht pos hcs
      · exact .ok (hr.follows_openFrame htwo .plain nofun hr.modes pos)
      · exact .ok (hr.follows_openLook htwo pos false false)
      · exact .ok (hr.follows_openLook htwo pos false true)
      · exact hr.stepLess_agrees ht pos hcs
      · have hname := hr.readCondition_agrees ht (pos + 3) hcs
        rw [Nat.add_right_comm] at hname
        refine hname.bind ?_ ?_
        · rintro ⟨next, index, length⟩ _ ⟨rfl, hnext, hends⟩
          have hends : Ends ('?' :: '(' :: cs) (length + 3) := hends.cons.cons
          exact .ok (hnext.follows_openFrame hends (.cond index none) nofun hnext.modes pos)
        · rintro ⟨next, index, length⟩ ⟨rfl, rfl⟩
          exact .ok ⟨List.cons_ne_nil _ _, by simp⟩
      · exact .ok (hr.follows_openFrame htwo .atomic nofun hr.modes pos)
    · simp only [List.mem_cons, List.not_mem_nil, or_false, not_or] at hsign
      obtain ⟨hP, hcolon, hequal, hnegated, hless, hopen, hgreater⟩ := hsign
      have hother : ∀ (r : Reading) pos rest, r.stepExtension pos (c :: rest) =
          if isFlag c || c = '-' then r.stepFlags pos (c :: rest)
          else fail (.unknownExtension ('?' :: token (c :: rest))) (pos + 1)
            (pos + 2 + (token (c :: rest)).length) := fun r pos rest => by
        rw [Reading.stepExtension] <;> first
          | assumption
          | exact hsharp.symm
          | exact fun _ heq _ => hless heq
          | exact fun heq _ => hless heq
      rw [hother, hother]
      split
      · next hflag =>
        refine hr.stepFlags_agrees ht pos h (hfirst.imp_right fun hnot letters rest heq => ?_)
        refine hnot letters rest (fun hnil => ?_) heq
        rw [hnil, List.nil_append] at heq
        rw [(List.cons.inj heq).1] at hflag
        exact absurd hflag (by decide)
      · exact .fail

/-! ### Branches and closing parentheses -/

theorem nextBranch_agrees (h : Whole rest) (pos : ℕ) : Agrees (Follows rest) D
    ((r.nextBranch pos).map (·, 0)) ((r.anchored.nextBranch (pos + 4)).map (·, 0)) := by
  obtain ⟨⟨opener, start, outerModes, branches, pieces⟩, outer, modes, groupCount, widths, names, limit, wanted,
    loose, firstLoop, asciiFlag, unicodeFlag⟩ := r
  cases opener with
  | pattern | capture | plain | atomic | look =>
    exact .ok ⟨rfl, .zero h, ⟨hr.ascii, hr.unicode, hr.modes, hr.frame, hr.outer, hr.root⟩,
      fun _ => .inl (List.cons_ne_nil _ _)⟩
  | cond index yes =>
    cases yes with
    | none =>
      refine .ok ⟨rfl, .zero h, ⟨hr.ascii, hr.unicode, hr.modes, hr.frame, hr.outer, ?_⟩, nofun⟩
      have hroot := hr.root
      cases outer with
      | nil => cases hroot
      | cons frame outer => exact ⟨nofun, hroot.2⟩
    | some yes => exact .fail

/-- A parenthesis that closes a group of the text closes it between the ends too. One that closes no group
of the text closes the one around it. -/
theorem close_agrees (h : Whole rest) (pos : ℕ) :
    (r.close pos = fail .unopenedGroup pos pos ∧
      ∃ next, r.anchored.close (pos + 4) = .ok next ∧ next.outer = []) ∨
    Agrees (Follows rest) D ((r.close pos).map (·, 0)) ((r.anchored.close (pos + 4)).map (·, 0)) := by
  obtain ⟨⟨opener, start, outerModes, branches, pieces⟩, outer, modes, groupCount, widths, names, limit, wanted,
    loose, firstLoop, asciiFlag, unicodeFlag⟩ := r
  cases outer with
  | nil =>
    left
    obtain rfl : asciiFlag = false := hr.ascii
    obtain rfl : opener = .pattern := hr.root
    exact ⟨rfl, _, rfl, rfl⟩
  | cons frame outer =>
    have hframe := hr.outer frame (List.mem_cons_self ..)
    have houter := fun other hmem => hr.outer other (List.mem_cons_of_mem _ hmem)
    right
    cases opener with
    | pattern => exact absurd rfl hr.root.1
    | capture | plain | atomic =>
      exact .ok ⟨rfl, .zero h, ⟨hr.ascii, hr.unicode, hr.frame, hframe, houter, hr.root.2⟩,
        fun _ => .inr (List.cons_ne_nil _ _)⟩
    | look behind negated outerLimit =>
      cases behind <;> exact .ok ⟨rfl, .zero h, ⟨hr.ascii, hr.unicode, hr.frame, hframe, houter, hr.root.2⟩,
        fun _ => .inr (List.cons_ne_nil _ _)⟩
    | cond index yes =>
      cases yes <;> exact .ok ⟨rfl, .zero h, ⟨hr.ascii, hr.unicode, hr.frame, hframe, houter, hr.root.2⟩,
        fun _ => .inr (List.cons_ne_nil _ _)⟩

theorem stepOpen_agrees {tail : List Char} (ht : IsTail tail) (pos : ℕ) :
    Whole rest → '#' ∉ rest → r.Begun ∨ ¬FlagsFirst ('(' :: rest) → Agrees (Follows rest) (Cuts (rest ++ tail))
      (match rest with
        | '?' :: cs => r.stepExtension pos cs
        | _ => (r.openCapture pos none).map (·, 0))
      (match rest ++ tail with
        | '?' :: cs => r.anchored.stepExtension (pos + 4) cs
        | _ => (r.anchored.openCapture (pos + 4) none).map (·, 0)) := by
  intro h hsharp hfirst
  have hcapture : Agrees (Follows rest) (Cuts (rest ++ tail)) ((r.openCapture pos none).map (·, 0))
      ((r.anchored.openCapture (pos + 4) none).map (·, 0)) :=
    .map ((hr.openCapture_agrees (.zero h) pos none).mono (fun _ _ => id) fun _ => False.elim)
  cases rest with
  | nil => cases ht <;> exact hcapture
  | cons c cs =>
    by_cases hc : c = '?'
    · subst hc
      refine hr.stepExtension_agrees ht pos (h.of_cons (by decide)) (fun hmem => hsharp (.tail _ hmem)) ?_
      refine hfirst.imp_right fun hnot letters rest hne heq => ?_
      by_contra hflags
      refine hnot ⟨letters, hne, fun c hc => ?_, rest, by simp [heq]⟩
      exact Bool.not_eq_false _ ▸ fun hflag => hflags ⟨c, hc, hflag⟩
    · split
      · next heq => exact absurd (List.cons.inj heq).1 hc
      · split
        · next heq => exact absurd (List.cons.inj heq).1 hc
        · exact hcapture

theorem stepBrace_agrees {tail : List Char} (ht : IsTail tail) (pos : ℕ) (h : Whole rest) :
    Agrees (Follows rest) (Cuts (rest ++ tail))
      (match readCounts pos rest with
        | .error e => .error e
        | .ok none => .ok (r.pushChar '\x7b', 0)
        | .ok (some (least, most, count)) =>
          (r.repeatLast pos (pos + 1 + count) least most (rest.drop count)).map
            fun (r, more) => (r, count + more))
      (match readCounts (pos + 4) (rest ++ tail) with
        | .error e => .error e
        | .ok none => .ok (r.anchored.pushChar '\x7b', 0)
        | .ok (some (least, most, count)) =>
          (r.anchored.repeatLast (pos + 4) (pos + 4 + 1 + count) least most ((rest ++ tail).drop count)).map
            fun (r, more) => (r, count + more)) := by
  have hcounts := readCounts_tail ht pos (pos + 4) h
  generalize readCounts pos rest = x, readCounts (pos + 4) (rest ++ tail) = y at hcounts
  cases hcounts with
  | @ok x y hxy =>
    obtain ⟨rfl, hends⟩ := hxy
    cases x with
    | none => exact .ok (hr.follows_pushSet (.zero h) _ _)
    | some bounds =>
      obtain ⟨least, most, count⟩ := bounds
      have hcount : Ends rest count := hends _ rfl
      dsimp only
      rw [hcount.drop_append]
      refine .map ((hr.repeatLast_agrees (D := fun _ => False) ht pos _ (pos + 4 + 1 + count) least most
        hcount.2).mono ?_ fun _ => False.elim)
      exact fun x y hxy => ⟨by rw [hxy.eq], hcount.add hxy.ends, hxy.regular, hxy.begun⟩
  | @problem what offset noticed y h =>
    cases y with
    | error e => exact .problem h.error
    | ok x => exact h.elim
  | limit => exact .limit

/-! ### Steps -/

theorem step_agrees [CharNames] {tail : List Char} (ht : IsTail tail) (pos : ℕ) {c : Char}
    (h : Whole (c :: rest)) (hsharp : '#' ∉ c :: rest)
    (hfirst : r.Begun ∨ r.modes.verbose = false ∧ ¬FlagsFirst (c :: rest)) :
    (c = ')' ∧ r.step pos c rest = fail .unopenedGroup pos pos ∧
        ∃ next, r.anchored.step (pos + 4) c (rest ++ tail) = .ok (next, 0) ∧ next.outer = []) ∨
      Agrees (Follows rest) (Cuts (rest ++ tail)) (r.step pos c rest)
        (r.anchored.step (pos + 4) c (rest ++ tail)) := by
  obtain ⟨hc, hrest⟩ := List.ne_and_not_mem_of_not_mem_cons hsharp
  by_cases hskip : (r.modes.verbose && decide (c ∈ [' ', '\t', '\n', '\r', '\x0b', '\x0c'])) = true
  · right
    have hplain : Whole rest := h.of_cons fun heq => by
      rw [heq] at hskip
      exact absurd (Bool.and_eq_true_iff.mp hskip).2 (by decide)
    have hbegun : r.Begun := hfirst.resolve_right fun hnot => by
      rw [hnot.1] at hskip
      cases hskip
    rw [Reading.step_skipped hskip, Reading.step_skipped (r := r.anchored) hskip]
    exact .ok ⟨rfl, .zero hplain, hr, hbegun⟩
  have hcomment : ¬(r.modes.verbose && decide (c = '#')) = true := by
    rw [decide_eq_false hc.symm, Bool.and_false]
    exact Bool.false_ne_true
  by_cases hsign : c ∈ signs
  · have hskip' : ¬(r.anchored.modes.verbose && decide (c ∈ [' ', '\t', '\n', '\r', '\x0b', '\x0c'])) = true :=
      hskip
    have hcomment' : ¬(r.anchored.modes.verbose && decide (c = '#')) = true := hcomment
    have hplain : c ≠ '\\' → Whole rest := h.of_cons
    unfold Reading.step
    rw [if_neg hskip, if_neg hcomment, if_neg hskip', if_neg hcomment']
    simp only [signs, List.mem_cons, List.not_mem_nil, or_false] at hsign
    obtain rfl | rfl | rfl | rfl | rfl | rfl | rfl | rfl | rfl | rfl | rfl | rfl := hsign
    · exact .inr (hr.nextBranch_agrees (hplain (by decide)) pos)
    · obtain ⟨hunopened, next, hclose, houter⟩ | hagrees := hr.close_agrees (hplain (by decide)) pos
      · left
        dsimp only
        rw [hunopened, hclose]
        exact ⟨rfl, rfl, next, rfl, houter⟩
      · exact .inr hagrees
    · exact .inr (hr.stepOpen_agrees ht pos (hplain (by decide)) hrest (hfirst.imp_right And.right))
    · refine .inr (.map ((readBracket_tail ht pos (pos + 4) (hplain (by decide))).mono ?_ fun _ => False.elim))
      rintro ⟨negated, items, count⟩ _ ⟨rfl, hends⟩
      exact hr.follows_pushSet hends _ _
    · obtain ⟨letter, cs, rfl, hcs⟩ := h.exists_escape
      refine .inr ((r.alike_anchored.stepEscape_agrees ht pos (pos + 4) letter hcs).mono ?_ fun _ => id)
      exact fun x y hxy => hr.follows_of_pushes hxy
    · exact .inr (.ok (hr.follows_pushSet (.zero (hplain (by decide))) _ _))
    · exact .inr (.ok (hr.follows_push (.zero (hplain (by decide))) _ _))
    · exact .inr (.ok (hr.follows_push (.zero (hplain (by decide))) _ _))
    · exact .inr (hr.repeatLast_agrees ht pos _ _ _ _ (hplain (by decide)))
    · exact .inr (hr.repeatLast_agrees ht pos _ _ _ _ (hplain (by decide)))
    · exact .inr (hr.repeatLast_agrees ht pos _ _ _ _ (hplain (by decide)))
    · exact .inr (hr.stepBrace_agrees ht pos (hplain (by decide)))
  · right
    have hplain : Whole rest := h.of_cons fun heq => hsign (by rw [heq]; decide)
    rw [Reading.step_other hskip hcomment hsign, Reading.step_other (r := r.anchored) hskip hcomment hsign]
    exact .ok (hr.follows_pushSet (.zero hplain) _ _)

end Reading.Regular

end VerseSearch.Pattern
