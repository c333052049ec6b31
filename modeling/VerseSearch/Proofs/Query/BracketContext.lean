import VerseSearch.Proofs.Hebrew.Composition
import VerseSearch.Proofs.Query.BlockValidity
import VerseSearch.Proofs.Query.Places
import VerseSearch.Proofs.Query.Vocalization

/-! # Rewriting in the brackets of the source

Whether a target stands inside of brackets is asked of a text that earlier stages have changed. The answer
is the same for the place of the target in the source.

* `Stage`, `stages`: what is done to a source, one after the other.
* `Stage.run`, `Stage.runByPlace`: a stage on a text, and on a text with places, where the form of a
  replacement depends on the brackets of the source.
* `Stage.Keeps`: a stage puts in nothing with which the target of a later stage begins.
* `Follows`: what is known between two stages about a text with places.
* `Follows.step`, `Follows.steps`: one stage, and all of them.
* `rewriting_keeps_context`: the stages of a block and of a whole query.
-/

namespace VerseSearch.Query
set_option autoImplicit false

open Hebrew (bareShin shin sin shinDot sinDot isInterleaved toRegular composeOnce eraseLast)

/-! ## Stages -/

inductive Stage where
  | regularize
  | compose
  | substitute (r : Substitution)
  | collapseBlanks
  | dropNonLetters
  deriving Repr, DecidableEq

/-- The stages for the inside of a block, or those for a whole query up to the slots for tags. -/
def stages (inBlock : Bool) : List Stage :=
  [.regularize, .compose] ++ shinSubstitutions.map .substitute ++
    (if inBlock then [] else [.collapseBlanks, .dropNonLetters]) ++
      [.substitute matresSubstitution, .substitute anyLetterSubstitution]

def Stage.run : Stage → Text → Text
  | .regularize => Hebrew.regularize
  | .compose => Hebrew.compose
  | .substitute r => r.apply
  | .collapseBlanks => Query.collapseBlanks
  | .dropNonLetters => Query.dropNonLetters

def run (stages : List Stage) (source : Text) : Text := stages.foldl (fun t s => s.run t) source

/-! ## Stages on texts with places -/

def eraseLastPlaced (c : Char) (t : Placed) : Placed := (t.reverse.eraseP fun p => c == p.1).reverse

/-- A composed letter stands for the place of its bare shin. -/
def composePlaced (t : Placed) : Placed :=
  match t with
  | [] => []
  | (c, i) :: rest =>
    if c = bareShin then
      let marks := rest.takeWhile fun p => isInterleaved p.1
      let after := rest.dropWhile fun p => isInterleaved p.1
      if shinDot ∈ textOf marks then (shin, i) :: (eraseLastPlaced shinDot marks ++ composePlaced after)
      else if (textOf after).head? = some sinDot then (sin, i) :: (marks ++ composePlaced after.tail)
      else (bareShin, i) :: (marks ++ composePlaced after)
    else (c, i) :: composePlaced rest
termination_by t.length
decreasing_by
  all_goals
    have hle := (List.dropWhile_suffix (l := rest) fun p => isInterleaved p.1).length_le
    simp only [List.length_tail, List.length_cons]
    omega

/-- The replacement is the one for the place of the target in the source, and stands for this place. -/
def Substitution.applyPlaced (r : Substitution) (source : Text) (skip : ℕ) (previous : Option Char) :
    Placed → Placed
  | [] => []
  | (c, i) :: rest =>
    match skip with
    | skip + 1 => r.applyPlaced source skip (some c) rest
    | 0 =>
      if r.occursAt previous (c :: textOf rest) then
        placedAt i (r.replacement (isInside (source.take i))) ++
          r.applyPlaced source (r.target.length - 1) (some c) rest
      else (c, i) :: r.applyPlaced source 0 (some c) rest

def collapsePlaced (inRun : Bool) : Placed → Placed
  | [] => []
  | (c, i) :: rest =>
    if Text.isBlank c then
      if inRun then collapsePlaced true rest else (' ', i) :: collapsePlaced true rest
    else (c, i) :: collapsePlaced false rest

def Stage.runByPlace (source : Text) : Stage → Placed → Placed
  | .regularize => List.map fun p => (toRegular p.1, p.2)
  | .compose => composePlaced
  | .substitute r => r.applyPlaced source 0 none
  | .collapseBlanks => collapsePlaced false
  | .dropNonLetters => List.filter fun p => !Hebrew.isNonLetter p.1

/-- The stages on a source whose characters go with their places. -/
def runByPlace (stages : List Stage) (source : Text) : Placed :=
  stages.foldl (fun t s => s.runByPlace source t) source.zipIdx

/-! ## What a stage puts in -/

/-- What a stage may put in. -/
def Stage.inserts : Stage → Text
  | .regularize => Hebrew.finalForms.map Prod.snd
  | .compose => [shin, sin]
  | .substitute r => r.inside ++ r.outside
  | .collapseBlanks => [' ']
  | .dropNonLetters => []

/-- The character with which a target begins. -/
def Stage.heads : Stage → Text
  | .substitute r => r.target.take 1
  | _ => []

/-- The replacements hold none of the given characters, unless they begin with the target's own, and
brackets only as a pair outside of brackets. -/
def Substitution.Keeps (r : Substitution) (heads : Text) : Prop :=
  r.target ≠ [] ∧ (∀ c ∈ r.target, isBracket c = false) ∧ ∀ inside,
    CanInsert heads inside (r.replacement inside) ∨
      (r.replacement inside).head? = r.target.head? ∧ CanInsert heads inside (r.replacement inside).tail

/-- A stage puts in none of the given characters, unless they were there before. -/
def Stage.Keeps (heads : Text) : Stage → Prop
  | .substitute r => r.Keeps heads
  | s => ∀ c ∈ s.inserts, c ∉ heads

/-- Each stage keeps the characters with which the targets of the later ones begin. -/
def Compatible : List Stage → Prop
  | [] => True
  | s :: rest => s.Keeps (rest.flatMap Stage.heads) ∧ Compatible rest

instance (r : Substitution) (heads : Text) : Decidable (r.Keeps heads) :=
  inferInstanceAs (Decidable (_ ∧ _ ∧ _))

instance (heads : Text) : ∀ s : Stage, Decidable (s.Keeps heads)
  | .substitute r => inferInstanceAs (Decidable (r.Keeps heads))
  | .regularize => inferInstanceAs (Decidable (∀ c ∈ Stage.regularize.inserts, c ∉ heads))
  | .compose => inferInstanceAs (Decidable (∀ c ∈ Stage.compose.inserts, c ∉ heads))
  | .collapseBlanks => inferInstanceAs (Decidable (∀ c ∈ Stage.collapseBlanks.inserts, c ∉ heads))
  | .dropNonLetters => inferInstanceAs (Decidable (∀ c ∈ Stage.dropNonLetters.inserts, c ∉ heads))

instance decidableCompatible : ∀ l : List Stage, Decidable (Compatible l)
  | [] => inferInstanceAs (Decidable True)
  | _ :: rest => have := decidableCompatible rest; inferInstanceAs (Decidable (_ ∧ _))

theorem Compatible.of_append {done todo : List Stage} (h : Compatible (done ++ todo)) : Compatible todo := by
  induction done with
  | nil => exact h
  | cons s done ih => exact ih h.2

theorem compatible_stages (inBlock : Bool) : Compatible (stages inBlock) := by
  cases inBlock <;> decide +kernel

/-! ## Letters and white space -/

@[simp] theorem textOf_takeWhile (p : Char → Bool) (t : Placed) :
    textOf (t.takeWhile fun q => p q.1) = (textOf t).takeWhile p := by
  rw [textOf, textOf, List.takeWhile_map]
  rfl

@[simp] theorem textOf_dropWhile (p : Char → Bool) (t : Placed) :
    textOf (t.dropWhile fun q => p q.1) = (textOf t).dropWhile p := by
  rw [textOf, textOf, List.dropWhile_map]
  rfl

@[simp] theorem textOf_eraseLastPlaced (c : Char) (t : Placed) :
    textOf (eraseLastPlaced c t) = eraseLast c (textOf t) := by
  rw [textOf, eraseLastPlaced, eraseLast, textOf, ← List.map_reverse, List.erase_eq_eraseP, List.eraseP_map,
    List.map_reverse]
  rfl

@[simp] theorem textOf_composePlaced (t : Placed) : textOf (composePlaced t) = Hebrew.compose
    (textOf t) := by
  rw [Hebrew.compose_eq_composeOnce]
  fun_induction composePlaced t with
  | case1 => simp [composeOnce, textOf]
  | case2 i rest marks after hdot ih =>
    rw [textOf_cons, textOf_append, textOf_eraseLastPlaced, ih, textOf_cons, composeOnce, if_pos rfl]
    simp only [marks, after, textOf_takeWhile, textOf_dropWhile] at hdot ⊢
    rw [if_pos hdot]
  | case3 i rest marks after hdot hsin ih =>
    rw [textOf_cons, textOf_append, ih, textOf_cons, composeOnce, if_pos rfl]
    have htail : textOf after.tail = (textOf after).tail := List.map_tail
    simp only [htail, marks, after, textOf_takeWhile, textOf_dropWhile] at hdot hsin ⊢
    rw [if_neg hdot, if_pos hsin]
  | case4 i rest marks after hdot hsin ih =>
    rw [textOf_cons, textOf_append, ih, textOf_cons, composeOnce, if_pos rfl]
    simp only [marks, after, textOf_takeWhile, textOf_dropWhile] at hdot hsin ⊢
    rw [if_neg hdot, if_neg hsin]
  | case5 c i rest hc ih => rw [textOf_cons, textOf_cons, ih, composeOnce, if_neg hc]

@[simp] theorem textOf_collapsePlaced (inRun : Bool) (t : Placed) :
    textOf (collapsePlaced inRun t) = collapseBlanksFrom inRun (textOf t) := by
  fun_induction collapsePlaced inRun t <;> simp_all [textOf, collapseBlanksFrom]

@[simp] theorem textOf_filter (p : Char → Bool) (t : Placed) :
    textOf (t.filter fun q => p q.1) = (textOf t).filter p := by
  rw [textOf, textOf, List.filter_map]
  rfl

/-! ## What a stage leaves as it is -/

section
variable {heads : Text} {inside : Bool}

theorem rewritten_regularize (h : ∀ c ∈ Stage.regularize.inserts, c ∉ heads) (t : Placed) :
    Rewritten heads inside t (t.map fun p => (toRegular p.1, p.2)) := by
  have hforms : ∀ f ∈ Hebrew.finalForms, isBracket f.1 = false ∧ isBracket f.2 = false := by decide
  induction t generalizing inside with
  | nil => exact .nil
  | cons p t ih =>
    obtain ⟨c, i⟩ := p
    rw [List.map_cons]
    obtain hc | ⟨f, hf, rfl, hc⟩ := Hebrew.toRegular_cases c
    · rw [hc]
      exact .keep ih
    · rw [hc]
      exact .change (hforms f hf).1 (hforms f hf).2 (h _ (List.mem_map_of_mem hf)) ih

/-- The marks of a bare shin are kept but for its dot. -/
theorem rewritten_compose (h : ∀ c ∈ Stage.compose.inserts, c ∉ heads) (t : Placed) :
    ∀ inside, Rewritten heads inside t (composePlaced t) := by
  have hshin : shin ∉ heads := h shin (by decide)
  have hsin : sin ∉ heads := h sin (by decide)
  have hbare : isBracket bareShin = false := by decide
  have hmarks : ∀ rest : Placed, ∀ p ∈ rest.takeWhile (fun p => isInterleaved p.1),
      isBracket p.1 = false := by
    intro rest p hp
    have hmark := List.mem_takeWhile_imp hp
    exact isBracket_eq_false (P := isInterleaved) (by decide) (by decide) hmark
  fun_induction composePlaced t with
  | case1 => exact fun _ => .nil
  | case2 i rest marks after hdot ih =>
    intro inside
    have herase : (eraseLastPlaced shinDot marks).Sublist marks :=
      List.reverse_sublist.mp (by simpa [eraseLastPlaced] using List.eraseP_sublist)
    have hrest := Rewritten.of_sublist herase (hmarks rest) (ih inside)
    rw [List.takeWhile_append_dropWhile] at hrest
    exact .change hbare (by decide) hshin hrest
  | case3 i rest marks after hdot hhead ih =>
    intro inside
    have hafter : Rewritten heads inside after (composePlaced after.tail) := by
      cases hcases : after with
      | nil => simp [textOf, hcases] at hhead
      | cons p after' =>
        obtain ⟨d, j⟩ := p
        have hd : d = sinDot := by simpa [textOf, hcases] using hhead
        rw [hcases] at ih
        exact .drop (hd ▸ by decide) (ih inside)
    have hrest := Rewritten.of_sublist (List.Sublist.refl marks) (hmarks rest) hafter
    rw [List.takeWhile_append_dropWhile] at hrest
    exact .change hbare (by decide) hsin hrest
  | case4 i rest marks after hdot hhead ih =>
    intro inside
    have hrest := Rewritten.of_sublist (List.Sublist.refl marks) (hmarks rest) (ih inside)
    rw [List.takeWhile_append_dropWhile] at hrest
    refine .keep ?_
    rwa [insideAfter_of_not_isBracket hbare]
  | case5 c i rest hc ih => exact fun inside => .keep (ih _)

theorem rewritten_collapseBlanks (h : ∀ c ∈ Stage.collapseBlanks.inserts, c ∉ heads) (inRun : Bool)
    (t : Placed) : Rewritten heads inside t (collapsePlaced inRun t) := by
  have hspace : ' ' ∉ heads := h ' ' (by decide)
  have hblank : ∀ {c : Char}, Text.isBlank c = true → isBracket c = false :=
    isBracket_eq_false (by decide) (by decide)
  fun_induction collapsePlaced inRun t generalizing inside with
  | case1 => exact .nil
  | case2 c i rest hc ih => exact .drop (hblank hc) ih
  | case3 inRun c i rest hc hrun ih =>
    exact .change (hblank hc) (by decide) hspace ih
  | case4 inRun c i rest hc ih => exact .keep ih

theorem rewritten_dropNonLetters (t : Placed) :
    Rewritten heads inside t (t.filter fun p => !Hebrew.isNonLetter p.1) := by
  have hmarks : ∀ c ∈ Hebrew.nonLetters, isBracket c = false := by decide
  induction t generalizing inside with
  | nil => exact .nil
  | cons p t ih =>
    obtain ⟨c, i⟩ := p
    rw [List.filter_cons]
    cases hc : Hebrew.isNonLetter c with
    | true => exact .drop (hmarks c (by simpa [Hebrew.isNonLetter] using hc)) ih
    | false => exact .keep ih

end

theorem Substitution.target_of_occursAt {r : Substitution} (hne : r.target ≠ []) {previous : Option Char}
    {c : Char} {t : Text} (h : r.occursAt previous (c :: t) = true) :
    ∃ u, r.target = c :: u ∧ u <+: t := by
  obtain ⟨d, u, heq⟩ := List.exists_cons_of_ne_nil hne
  have hprefix := List.isPrefixOf_iff_prefix.mp (Bool.and_eq_true_iff.mp h).1
  rw [heq, List.cons_prefix_cons] at hprefix
  exact ⟨u, by rw [heq, hprefix.1], hprefix.2⟩

/-- In a text in which targets stand inside of brackets exactly if their places do, the form of each
replacement is the one for its place. -/
theorem Substitution.applyPlaced_spec {r : Substitution} {heads source : Text} (hr : r.Keeps heads)
    (skip : ℕ) (previous : Option Char) (inside : Bool) {t : Placed}
    (hskip : ∀ c ∈ (textOf t).take skip, isBracket c = false)
    (hcontext : InContext source (r.target.take 1) inside t) :
    textOf (r.applyPlaced source skip previous t) = r.applyFrom skip previous inside (textOf t) ∧
      Rewritten heads inside t (r.applyPlaced source skip previous t) := by
  obtain ⟨hne, htarget, hreplacement⟩ := hr
  induction t generalizing skip previous inside with
  | nil => exact ⟨rfl, .nil⟩
  | cons p rest ih =>
    obtain ⟨c, i⟩ := p
    obtain ⟨hplace, hrest⟩ := hcontext
    rw [textOf_cons] at hskip ⊢
    cases skip with
    | succ skip =>
      obtain ⟨hc, hskip⟩ := List.forall_mem_cons.mp hskip
      rw [insideAfter_of_not_isBracket hc] at hrest
      obtain ⟨htext, hrewritten⟩ := ih skip (some c) inside hskip hrest
      rw [applyPlaced, applyFrom, insideAfter_of_not_isBracket hc]
      exact ⟨htext, .drop hc hrewritten⟩
    | zero =>
      cases hoccurs : r.occursAt previous (c :: textOf rest) with
      | false =>
        obtain ⟨htext, hrewritten⟩ := ih 0 (some c) _ (by simp) hrest
        rw [applyPlaced, hoccurs, applyFrom_of_not_occursAt hoccurs, ← htext]
        exact ⟨rfl, .keep hrewritten⟩
      | true =>
        obtain ⟨u, heq, hu⟩ := target_of_occursAt hne hoccurs
        rw [heq] at htarget hplace
        obtain ⟨hc, hbrackets⟩ := List.forall_mem_cons.mp htarget
        rw [insideAfter_of_not_isBracket hc] at hrest
        have hinside : inside = isInside (source.take i) := hplace (by simp)
        -- the rest of the target is skipped, and holds no brackets
        obtain ⟨htext, hrewritten⟩ := ih u.length (some c) inside
          (by rwa [← List.prefix_iff_eq_take.mp hu]) hrest
        have hlength : r.target.length - 1 = u.length := by rw [heq]; rfl
        rw [applyPlaced, if_pos hoccurs, applyFrom_of_occursAt hoccurs, insideAfter_of_not_isBracket hc,
          textOf_append, textOf_placedAt, hlength, htext, ← hinside]
        refine ⟨rfl, ?_⟩
        obtain hinsert | ⟨hhead, hinsert⟩ := hreplacement inside
        · exact .drop hc (.insert hinsert hrewritten)
        · rw [heq] at hhead
          obtain ⟨s, hs⟩ := List.head?_eq_some_iff.mp hhead
          rw [hs] at hinsert ⊢
          refine .keep ?_
          rw [insideAfter_of_not_isBracket hc]
          exact .insert hinsert hrewritten

theorem Stage.runByPlace_spec {s : Stage} {heads source : Text} {t : Placed} (hs : s.Keeps heads)
    (hcontext : InContext source s.heads false t) :
    textOf (s.runByPlace source t) = s.run (textOf t) ∧ Rewritten heads false t (s.runByPlace source t) := by
  cases s with
  | regularize => exact ⟨by simp [runByPlace, run, textOf, Hebrew.regularize], rewritten_regularize hs t⟩
  | compose => exact ⟨textOf_composePlaced t, rewritten_compose hs t false⟩
  | substitute r => exact Substitution.applyPlaced_spec hs 0 none false (by simp) hcontext
  | collapseBlanks => exact ⟨textOf_collapsePlaced false t, rewritten_collapseBlanks hs false t⟩
  | dropNonLetters => exact ⟨textOf_filter (fun c => !Hebrew.isNonLetter c) t, rewritten_dropNonLetters t⟩

/-! ## All stages -/

/-- What is known of a text with places that some stages have left, if the targets of the later stages
begin with the given characters. -/
structure Follows (source heads text : Text) (t : Placed) : Prop where
  textOf_eq : textOf t = text
  inContext : InContext source heads false t
  sublist : (t.filter fun p => heads.contains p.1).Sublist source.zipIdx
  addsPairs : AddsPairs false (bracketsOf source.zipIdx) (bracketsOf t)

theorem follows_zipIdx (source heads : Text) : Follows source heads source source.zipIdx where
  textOf_eq := textOf_zipIdx source 0
  inContext := inContext_zipIdx heads [] source
  sublist := List.filter_sublist
  addsPairs := .refl _ _

theorem Follows.step {s : Stage} {source heads text : Text} {t : Placed} (hs : s.Keeps heads)
    (h : Follows source (s.heads ++ heads) text t) :
    Follows source heads (s.run text) (s.runByPlace source t) := by
  obtain ⟨htext, hrewritten⟩ :=
    Stage.runByPlace_spec hs (h.inContext.mono fun _ => List.mem_append_left heads)
  refine ⟨by rw [htext, h.textOf_eq], ?_, ?_, h.addsPairs.trans hrewritten.addsPairs⟩
  · exact hrewritten.inContext (h.inContext.mono fun _ => List.mem_append_right s.heads)
  · refine hrewritten.sublist.trans (.trans (List.monotone_filter_right t fun p hp => ?_) h.sublist)
    simp only [List.contains_iff_mem] at hp ⊢
    exact List.mem_append_right s.heads hp

/-- The induction is on the stages that are done. -/
theorem Follows.steps {done todo : List Stage} {source text : Text} {t : Placed}
    (hcompatible : Compatible (done ++ todo))
    (h : Follows source ((done ++ todo).flatMap Stage.heads) text t) :
    Follows source (todo.flatMap Stage.heads) (run done text)
      (done.foldl (fun t s => s.runByPlace source t) t) := by
  induction done generalizing text t with
  | nil => exact h
  | cons s done ih => exact ih hcompatible.2 (h.step hcompatible.1)

theorem follows_stages {inBlock : Bool} {done todo : List Stage} (h : stages inBlock = done ++ todo)
    (source : Text) :
    Follows source (todo.flatMap Stage.heads) (run done source) (runByPlace done source) :=
  Follows.steps (h ▸ compatible_stages inBlock) (follows_zipIdx source _)

theorem textOf_runByPlace (inBlock : Bool) (source : Text) :
    textOf (runByPlace (stages inBlock) source) = run (stages inBlock) source :=
  (follows_stages (List.append_nil _).symm source).textOf_eq

/-! ## What is left of a source -/

theorem Substitution.mem_applyFrom {r : Substitution} {c : Char} {t : Text} {skip : ℕ}
    {previous : Option Char} {inside : Bool} (hc : c ∈ r.applyFrom skip previous inside t) :
    c ∈ t ∨ c ∈ r.inside ++ r.outside := by
  induction t generalizing skip previous inside with
  | nil => exact absurd hc List.not_mem_nil
  | cons d t ih =>
    cases skip with
    | succ skip => exact (ih hc).imp_left (List.mem_cons_of_mem d)
    | zero =>
      rw [applyFrom] at hc
      split at hc
      · obtain hc | hc := List.mem_append.mp hc
        · right
          cases inside with
          | true => exact List.mem_append_left _ hc
          | false => exact List.mem_append_right _ hc
        · exact (ih hc).imp_left (List.mem_cons_of_mem d)
      · obtain rfl | hc := List.mem_cons.mp hc
        · exact .inl List.mem_cons_self
        · exact (ih hc).imp_left (List.mem_cons_of_mem d)

theorem Stage.mem_run {s : Stage} {c : Char} {t : Text} (hc : c ∈ s.run t) : c ∈ t ∨ c ∈ s.inserts := by
  cases s with
  | regularize =>
    obtain ⟨d, hd, rfl⟩ := List.mem_map.mp hc
    obtain h | ⟨f, hf, -, h⟩ := Hebrew.toRegular_cases d
    · exact .inl (h.symm ▸ hd)
    · exact .inr (h.symm ▸ List.mem_map_of_mem hf)
  | compose => exact (Hebrew.mem_compose hc).imp_right (by simp [inserts])
  | substitute r => exact Substitution.mem_applyFrom hc
  | collapseBlanks =>
    obtain rfl | h := mem_collapseBlanks hc
    · exact .inr (by decide)
    · exact .inl h.1
  | dropNonLetters => exact .inl (List.mem_of_mem_filter hc)

theorem run_append (done todo : List Stage) (source : Text) :
    run (done ++ todo) source = run todo (run done source) := List.foldl_append

theorem not_mem_run {todo : List Stage} {c : Char} (htodo : ∀ s ∈ todo, c ∉ s.inserts) {t : Text}
    (ht : c ∉ t) : c ∉ run todo t := by
  induction todo generalizing t with
  | nil => exact ht
  | cons s todo ih =>
    obtain ⟨hs, htodo⟩ := List.forall_mem_cons.mp htodo
    exact ih htodo fun hc => (Stage.mem_run hc).elim ht hs

/-- A character is gone if one stage leaves none of it and no later stage puts it in. -/
theorem not_mem_run_stages {inBlock : Bool} {c : Char} (done : List Stage) (s : Stage) (todo : List Stage)
    (h : stages inBlock = done ++ s :: todo) (hs : ∀ t, c ∉ s.run t)
    (htodo : ∀ s ∈ todo, c ∉ s.inserts) (source : Text) : c ∉ run (stages inBlock) source := by
  rw [h, run_append]
  exact not_mem_run htodo (hs _)

/-- The characters that are replaced wherever they stand. -/
def replaced : Text := Hebrew.finalForms.map Prod.fst ++ [bareShin, '@', '#']

theorem not_mem_regularize {c : Char} (hc : c ∈ Hebrew.finalForms.map Prod.fst) (t : Text) :
    c ∉ Hebrew.regularize t := by
  have hforms : ∀ f ∈ Hebrew.finalForms, ∀ g ∈ Hebrew.finalForms, g.2 ≠ f.1 := by decide
  have hlookup : ∀ f ∈ Hebrew.finalForms, toRegular f.1 ≠ f.1 := by decide
  obtain ⟨f, hf, rfl⟩ := List.mem_map.mp hc
  intro hmem
  obtain ⟨d, -, hd⟩ := List.mem_map.mp hmem
  obtain h | ⟨g, hg, -, h⟩ := Hebrew.toRegular_cases d
  · rw [h] at hd
    exact hlookup f hf (hd ▸ h)
  · exact hforms f hf g hg (h.symm.trans hd)

theorem not_mem_run_of_mem_replaced {c : Char} (hc : c ∈ replaced) (inBlock : Bool) (source : Text) :
    c ∉ run (stages inBlock) source := by
  obtain hc | hc := List.mem_append.mp hc
  · have hlater : ∀ inBlock, ∀ s ∈ (stages inBlock).tail, ∀ c ∈ Hebrew.finalForms.map Prod.fst,
        c ∉ s.inserts := by decide
    exact not_mem_run_stages [] .regularize (stages inBlock).tail rfl (not_mem_regularize hc)
      (fun s hs => hlater inBlock s hs c hc) source
  · obtain rfl | rfl | rfl : c = bareShin ∨ c = '@' ∨ c = '#' := by simpa using hc
    · refine not_mem_run_stages ((stages inBlock).take 5) (.substitute loneShin)
        ((stages inBlock).drop 6) (by cases inBlock <;> rfl)
        (Substitution.not_mem_apply rfl rfl (by decide) (by decide)) (by cases inBlock <;> decide) source
    · refine not_mem_run_stages (stages inBlock).dropLast.dropLast
        (.substitute matresSubstitution) [.substitute anyLetterSubstitution]
        (by cases inBlock <;> rfl) (Substitution.not_mem_apply rfl rfl (by decide) (by decide))
        (by decide) source
    · refine not_mem_run_stages (stages inBlock).dropLast (.substitute anyLetterSubstitution) []
        (by cases inBlock <;> rfl) (Substitution.not_mem_apply rfl rfl (by decide) (by decide))
        (by simp) source

/-! ## Whole patterns -/

theorem normalizeBlock_eq_run (source : Text) : normalizeBlock source = run (stages true) source := rfl

theorem normalizeSource_eq_run (source : Text) :
    normalizeSource source = insertTagSlots (run (stages false) source) := rfl

/-- A slot for a tag holds no brackets, and nothing that is replaced. -/
theorem filter_insertTagSlots {P : Char → Bool} (hP : ∀ c ∈ tagSlot, P c = false) (t : Text) :
    (insertTagSlots t).filter P = t.filter P := by
  have hslot : tagSlot.filter P = [] := List.filter_eq_nil_iff.mpr (by simpa using hP)
  fun_induction insertTagSlots t with
  | case1 => rfl
  | case2 rest ih => rw [List.filter_cons, List.filter_cons, ih]
  | case3 c rest hc ih =>
    rw [List.filter_cons, List.filter_append, hslot, List.nil_append, List.filter_cons, ih,
      List.filter_cons, List.filter_cons]
  | case4 c rest hrest ih => rw [List.filter_cons, List.filter_cons, ih]

theorem not_mem_insertTagSlots {c : Char} (hslot : c ∉ tagSlot) {t : Text} (ht : c ∉ t) :
    c ∉ insertTagSlots t := by
  have hP : ∀ d ∈ tagSlot, (d == c) = false := fun d hd =>
    beq_eq_false_iff_ne.mpr (ne_of_mem_of_not_mem hd hslot)
  intro hc
  have hmem : c ∈ (insertTagSlots t).filter (· == c) := List.mem_filter.mpr ⟨hc, beq_self_eq_true c⟩
  rw [filter_insertTagSlots hP] at hmem
  exact ht (List.mem_of_mem_filter hmem)

/-- Whether the pattern for an unclosed bracket occurs in a text is whether the last bracket of the text is
an opening one. The text between two stages is what the stages make of a source with places, where the
form of a replacement depends on the brackets of the source before the place of the target; and the
brackets of the text say the same of each target that occurs. What targets begin with is the source's own,
so is every bracket but for pairs that stand outside of brackets, and final forms, bare shins and signs
are gone. -/
theorem rewriting_keeps_context [Pattern.CharNames] (source : Text) :
    (∃ p, Pattern.parse "\\[[^\\]]*$".toList = .ok p ∧ ∀ t, p.occursIn t = isInside t ∧
      (isInside t = true ↔ (t.filter isBracket).getLast? = some '[')) ∧
    normalizeBlock source = run (stages true) source ∧
    normalizeSource source = insertTagSlots (run (stages false) source) ∧
    textOf (bracketsOf (runByPlace (stages true) source)) = (normalizeBlock source).filter isBracket ∧
    textOf (bracketsOf (runByPlace (stages false) source)) = (normalizeSource source).filter isBracket ∧
    (∀ inBlock done todo, stages inBlock = done ++ todo →
      textOf (runByPlace done source) = run done source ∧
      ((runByPlace done source).filter fun p =>
        (todo.flatMap Stage.heads).contains p.1).Sublist source.zipIdx ∧
      AddsPairs false (bracketsOf source.zipIdx) (bracketsOf (runByPlace done source)) ∧
      ∀ r later before c i rest, todo = .substitute r :: later →
        runByPlace done source = before ++ (c, i) :: rest →
        r.occursAt (textOf before).getLast? (c :: textOf rest) = true →
        source[i]? = some c ∧ isInside (textOf before) = isInside (source.take i)) ∧
    ∀ c ∈ replaced, c ∉ normalizeBlock source ∧ c ∉ normalizeSource source := by
  refine ⟨⟨_, parse_unclosed, fun t => ⟨occursIn_unclosed t, isInside_iff_getLast?⟩⟩,
    normalizeBlock_eq_run source, normalizeSource_eq_run source, ?_, ?_, ?_, ?_⟩
  · rw [textOf_bracketsOf, textOf_runByPlace, normalizeBlock_eq_run]
  · rw [textOf_bracketsOf, textOf_runByPlace, normalizeSource_eq_run, filter_insertTagSlots (by decide)]
  · intro inBlock done todo hstages
    have hfollows := follows_stages hstages source
    refine ⟨hfollows.textOf_eq, hfollows.sublist, hfollows.addsPairs, ?_⟩
    rintro r later before c i rest rfl hsplit hoccurs
    have hkeeps := (hstages ▸ compatible_stages inBlock).of_append.1
    obtain ⟨u, htarget, -⟩ := Substitution.target_of_occursAt hkeeps.1 hoccurs
    have hhead : c ∈ (Stage.substitute r :: later).flatMap Stage.heads :=
      List.mem_append_left _ (by simp [Stage.heads, htarget])
    have hcontext := hfollows.inContext
    have hsource := hfollows.sublist.subset (a := (c, i))
    rw [hsplit] at hcontext hsource
    refine ⟨List.mem_zipIdx_iff_getElem?.mp (hsource ?_), (inContext_append.mp hcontext).2.1 hhead⟩
    exact List.mem_filter.mpr ⟨by simp, List.contains_iff_mem.mpr hhead⟩
  · exact fun c hc => ⟨not_mem_run_of_mem_replaced hc true source, not_mem_insertTagSlots
      ((by decide : ∀ c ∈ replaced, c ∉ tagSlot) c hc) (not_mem_run_of_mem_replaced hc false source)⟩

/-- The first bracket closes nothing and the second is not closed. The last sign stands inside of it. -/
theorem rewriting_keeps_context_of_unbalanced :
    let source := "ש]@[ש#".toList
    let done := (stages true).take 7
    let before := (runByPlace done source).dropLast
    (runByPlace done source = before ++ [('#', 5)] ∧
      anyLetterSubstitution.occursAt (textOf before).getLast? ['#'] = true) ∧
    isInside (textOf before) = isInside (source.take 5) ∧ isInside (source.take 5) = true ∧
    normalizeBlock source = shinOrSinSet ++ "][אהוי]*[".toList ++ shinOrSin ++ "א-ת".toList := by
  intro source done before
  have hsplit : runByPlace done source = before ++ [('#', 5)] := by decide +kernel
  have hoccurs : anyLetterSubstitution.occursAt (textOf before).getLast? ['#'] = true := by decide +kernel
  obtain ⟨-, -, -, -, -, hstages, -⟩ := rewriting_keeps_context source
  obtain ⟨-, -, -, hplaces⟩ := hstages true done [.substitute anyLetterSubstitution] rfl
  obtain ⟨-, hinside⟩ := hplaces anyLetterSubstitution [] before '#' 5 [] rfl hsplit hoccurs
  exact ⟨⟨hsplit, hoccurs⟩, hinside, by decide, by decide +kernel⟩

end VerseSearch.Query
