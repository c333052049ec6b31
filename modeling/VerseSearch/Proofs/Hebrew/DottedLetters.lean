import VerseSearch.Proofs.Hebrew.Composition
import VerseSearch.Proofs.Matching.Names
import VerseSearch.Proofs.Matching.Replacing
import VerseSearch.Proofs.Matching.Running

/-! # The patterns of dotted letters

Each of the two passes that compose letters replaces the matches of a pattern: a bare shin, a group of
as many marks as there are, and a dot. The loop over the marks takes all of them first and gives them
back one by one, so a match ends at the last dot that can be reached.

* `farthest_dot`: the last dot that a loop over marks can leave to what comes after it.
* `dotted`, `matchAt_dotted`: a letter, marks and a dot, and its match.
* `replaceAll_dotted`: a pass that puts another letter in the place of a dotted one.
* `composeShin_eq_replaceAll`, `composeSin_eq_replaceAll`: the two passes.
-/

namespace VerseSearch.Hebrew
set_option autoImplicit false

open Pattern (Node CharSet State farthest replaceAll)

/-! ## The last dot that can be reached -/

theorem prefix_of_beforeLast {p : Char → Bool} {c : Char} {t before : Text}
    (h : beforeLast c (t.takeWhile p ++ (t.dropWhile p).head?.toList) = some before) :
    before ++ [c] <+: t := by
  obtain ⟨after, heq⟩ := beforeLast_eq_some h
  have hhead : (t.dropWhile p).head?.toList <+: t.dropWhile p := by
    cases t.dropWhile p <;> simp
  have hwhole := (List.prefix_append_right_inj (t.takeWhile p)).mpr hhead
  rw [List.takeWhile_append_dropWhile, heq] at hwhole
  exact List.IsPrefix.trans ⟨after, by simp⟩ hwhole

theorem beforeLast_append_of_not_mem {c : Char} {s t : Text} (h : c ∉ t) :
    beforeLast c (s ++ t) = beforeLast c s := by
  induction s with
  | nil => exact beforeLast_of_not_mem h
  | cons d s ih => rw [List.cons_append, beforeLast, ih, beforeLast]

theorem beforeLast_concat {c : Char} {t : Text} (h : c ∉ t) : beforeLast c (t ++ [c]) = some t := by
  induction t with
  | nil => simp [beforeLast]
  | cons d t ih =>
    rw [List.cons_append, beforeLast, ih fun hmem => h (List.mem_cons_of_mem _ hmem)]

/-- The farthest place from which a dot is read. -/
theorem farthest_dot (dot : Char) {text before row after : Text}
    (htext : text = before ++ (row ++ after)) :
    farthest (fun i => if text[i]? = some dot then some (i + 1) else none) before.length row.length =
      (beforeLast dot (row ++ after.head?.toList)).map fun m => before.length + m.length + 1 := by
  induction row generalizing before with
  | nil =>
    have hhere : text[before.length]? = after.head? := by
      rw [htext, List.getElem?_append_right (Nat.le_refl _), Nat.sub_self, List.nil_append,
        List.head?_eq_getElem?]
    rw [List.length_nil, farthest, hhere, List.nil_append]
    cases after.head? with
    | none => rfl
    | some c => by_cases hc : c = dot <;> simp [beforeLast, hc]
  | cons c row ih =>
    have hhere : text[before.length]? = some c := by
      rw [htext, List.getElem?_append_right (Nat.le_refl _), Nat.sub_self]
      rfl
    have htext' : text = before ++ [c] ++ (row ++ after) := by rw [htext]; simp
    have hrest := ih htext'
    rw [List.length_append, List.length_singleton] at hrest
    rw [List.length_cons, farthest, hrest, hhere, List.cons_append, beforeLast]
    cases beforeLast dot (row ++ after.head?.toList) with
    | none => by_cases hdot : c = dot <;> simp [hdot]
    | some m =>
      simp
      omega

/-! ## Dotted letters -/

/-- A letter, a group of marks and a dot. -/
def dotted (letter : Char) (marks : CharSet) (dot : Char) : Node :=
  .cat (.one (.single letter))
    (.cat (.group 1 (.cat (.loop .greedy 0 none (.one marks)) .empty)) (.text [dot]))

section
variable {letter dot : Char} {set : CharSet} {t before : Text}

theorem matchAt_dotted_of_ne {rest : Text} (hne : rest.head? ≠ some letter)
    (ht : t = before ++ rest) :
    (Pattern.mk (dotted letter set dot)).matchAt t.toArray before.length false = none := by
  rw [Pattern.matchAt, dotted, Node.run, Pattern.run_single ht rfl, if_neg hne]
  rfl

/-- The letter is followed by all marks up to the last dot that can be reached. -/
theorem matchAt_dotted {rest : Text} (ht : t = before ++ letter :: rest) :
    (Pattern.mk (dotted letter set dot)).matchAt t.toArray before.length false =
      (beforeLast dot (rest.takeWhile set.accepts ++ (rest.dropWhile set.accepts).head?.toList)).map
        fun m => before.length + m.length + 2 := by
  have hafter : ∀ c ∈ (rest.dropWhile set.accepts).head?, set.accepts c = false := fun c =>
    Text.of_head?_dropWhile
  have htext : t =
      before ++ [letter] ++ (rest.takeWhile set.accepts ++ rest.dropWhile set.accepts) := by
    rw [ht, List.takeWhile_append_dropWhile, List.append_assoc, List.singleton_append]
  have hfuel : (rest.takeWhile set.accepts).length < 0 + t.toArray.size + 3 := by
    have := (List.takeWhile_prefix set.accepts (l := rest)).length_le
    rw [List.size_toArray, ht, List.length_append, List.length_cons]
    omega
  -- after the loop the group ends, and then the dot is read
  have hk : ∀ s : State, ((Node.text [dot]).run t.toArray
      (fun s => if (false && decide (s.pos = before.length)) = true then none else some s)
      (s.leave 1)).map (·.pos) = if t[s.pos]? = some dot then some (s.pos + 1) else none := by
    intro s
    change ((Node.one (.single dot)).run t.toArray _ (s.leave 1)).map (·.pos) = _
    rw [Node.run, List.getElem?_toArray]
    cases hnext : t[s.pos]? with
    | none => simp [State.leave, hnext]
    | some c =>
      by_cases hc : c = dot <;>
        simp [State.leave, hnext, hc, Node.run, State.advance]
  have hs : ((State.mk before.length [] []).advance.enter 1).pos = (before ++ [letter]).length := by
    simp [State.advance, State.enter]
  have hloop := Pattern.greedyLoop_one (g := fun i => if t[i]? = some dot then some (i + 1) else none)
    (fun c => List.mem_takeWhile_imp) hafter hk htext hfuel (Nat.le_refl 0) hs
    (Option.some_ne_none _).symm
  rw [farthest_dot dot htext] at hloop
  rw [Pattern.matchAt, dotted, Node.run, Pattern.run_single ht rfl, if_pos List.head?_cons]
  refine hloop.trans ?_
  simp [Nat.add_right_comm]

/-- A pass that puts another letter in the place of a dotted one and drops its dot. -/
theorem replaceAll_dotted {new : Char} {f : Text → Text} (hnil : f [] = [])
    (hother : ∀ c rest, c ≠ letter → f (c :: rest) = c :: f rest)
    (hletter : ∀ rest, f (letter :: rest) =
      match beforeLast dot
        (rest.takeWhile set.accepts ++ (rest.dropWhile set.accepts).head?.toList) with
      | some marks => new :: (marks ++ f (rest.drop (marks.length + 1)))
      | none => letter :: f rest) (t : Text) :
    replaceAll ⟨dotted letter set dot⟩ (fun _ u => new :: u.tail.dropLast) t = f t := by
  refine Pattern.replaceAll_eq (f := fun _ => f) hnil (fun before c rest ht hnone => ?_)
    fun before rest j ht hsome => ?_
  · by_cases hc : c = letter
    · subst hc
      rw [matchAt_dotted ht, Option.map_eq_none_iff] at hnone
      rw [hletter, hnone]
    · exact hother c rest hc
  · by_cases hhead : rest.head? = some letter
    · obtain ⟨rest, rfl⟩ := List.head?_eq_some_iff.mp hhead
      rw [matchAt_dotted ht, Option.map_eq_some_iff] at hsome
      obtain ⟨marks, hmarks, rfl⟩ := hsome
      obtain ⟨after, rfl⟩ := prefix_of_beforeLast hmarks
      refine ⟨letter :: (marks ++ [dot]), after, by simp, List.cons_ne_nil _ _, by simp; omega, ?_⟩
      rw [hletter, hmarks]
      simp
    · rw [matchAt_dotted_of_ne hhead ht] at hsome
      cases hsome

end

/-! ## Shin and sin -/

/-- The marks that may stand between a bare shin and its dot. -/
def interleaved : CharSet :=
  { items := [.range 0x590 0x5c1, .range 0x5c3 0x5cf, .range 0x5eb 0x5ff] }

@[simp] theorem accepts_interleaved : interleaved.accepts = isInterleaved := by
  funext c
  rw [Bool.eq_iff_iff]
  simp [CharSet.accepts, CharSet.itemAccepts, CharSet.variants, interleaved, isInterleaved, inRanges]
  omega

/-- The source of the pattern for a bare shin, marks and a dot. -/
def dottedShin (dot : Char) : Text :=
  "\u05e9([\u0590-\u05c1\u05c3-\u05cf\u05eb-\u05ff]*)".toList ++ [dot]

theorem parse_dottedShin [Pattern.CharNames] {dot : Char} (hdot : dot = shinDot ∨ dot = sinDot) :
    Pattern.parse (dottedShin dot) = .ok ⟨dotted bareShin interleaved dot⟩ := by
  refine Pattern.parse_of_namesNone ?_ ?_ <;> obtain rfl | rfl := hdot <;> decide +kernel

theorem composeShin_eq_replaceAll (t : Text) : composeShin t =
    replaceAll ⟨dotted bareShin interleaved shinDot⟩ (fun _ u => shin :: u.tail.dropLast) t := by
  refine (replaceAll_dotted (by rw [composeShin]) (fun c rest hc => composeShin_cons hc rest)
    (fun rest => ?_) t).symm
  -- the dot is a mark itself, so the character after the marks is none
  have hdot : shinDot ∉ (rest.dropWhile isInterleaved).head?.toList := fun hmem =>
    absurd ((run_of_text rest).ends shinDot (by simpa using hmem)) (by decide)
  rw [accepts_interleaved, beforeLast_append_of_not_mem hdot, composeShin, if_pos rfl]
  cases beforeLast shinDot (rest.takeWhile isInterleaved) <;> rfl

theorem composeSin_eq_replaceAll (t : Text) : composeSin t =
    replaceAll ⟨dotted bareShin interleaved sinDot⟩ (fun _ u => sin :: u.tail.dropLast) t := by
  refine (replaceAll_dotted (by rw [composeSin]) (fun c rest hc => composeSin_cons hc rest)
    (fun rest => ?_) t).symm
  -- the dot is no mark, so it can only come after all of them
  have hrun := run_of_text rest
  have hmarks : sinDot ∉ rest.takeWhile isInterleaved := hrun.not_mem (by decide)
  have hpass := composeSin_of_run hrun
  have hskip := composeSin_append (hrun.not_mem bareShin_ends) (rest.dropWhile isInterleaved)
  have hrest : (rest.takeWhile isInterleaved ++ rest.dropWhile isInterleaved).drop
      ((rest.takeWhile isInterleaved).length + 1) = (rest.dropWhile isInterleaved).tail := by
    rw [← List.drop_drop, List.drop_left, List.drop_one]
  rw [List.takeWhile_append_dropWhile] at hpass hskip hrest
  rw [accepts_interleaved, hpass]
  by_cases hhead : (rest.dropWhile isInterleaved).head? = some sinDot
  · rw [if_pos hhead, hhead, Option.toList_some, beforeLast_concat hmarks]
    simp only [hrest]
  · have hdot : sinDot ∉ (rest.dropWhile isInterleaved).head?.toList := by simpa using hhead
    rw [if_neg hhead, beforeLast_append_of_not_mem hdot, beforeLast_of_not_mem hmarks, hskip]

end VerseSearch.Hebrew
