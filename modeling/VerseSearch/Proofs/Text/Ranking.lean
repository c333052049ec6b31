import Mathlib.Algebra.Order.Ring.Rat
import Mathlib.Data.List.Nodup
import VerseSearch.Text.Similarity

/-! # Ranked candidates

* `Text.Best`: matches that are the best of the candidates for a text.
* `Text.Ranking.FindsBest`: a ranking finds the best matches.
* `Text.Ranking.findsBest_bySorting`: the ranking that sorts all candidates does.
-/

namespace VerseSearch.Text
set_option autoImplicit false

/-! ## Best matches -/

/-- The best matches for a text: candidates of at least a score, each at its place and none of them
twice, the best first, no more than `limit` of them and none that is left out better. -/
structure Best (score : Text → Text → ℚ) (t : Text) (candidates : List Text) (least : ℚ) (limit : ℕ)
    (found : List Match) : Prop where
  candidate : ∀ m ∈ found, candidates[m.place]? = some m.text
  scored : ∀ m ∈ found, m.score = score t m.text
  least_le : ∀ m ∈ found, least ≤ m.score
  places : (found.map (·.place)).Nodup
  descending : found.Pairwise fun m n => n.score ≤ m.score
  length_le : found.length ≤ limit
  complete : ∀ i u, candidates[i]? = some u → least ≤ score t u → i ∉ found.map (·.place) →
    found.length = limit ∧ ∀ m ∈ found, score t u ≤ m.score

/-- A ranking finds the best matches, whatever texts are scored by. -/
def Ranking.FindsBest (r : Ranking) : Prop := ∀ score t candidates least limit,
  Best score t candidates least limit (r.extract score t candidates least limit)

/-- Among candidates without repetitions no text is found twice. -/
theorem Best.nodup {score : Text → Text → ℚ} {t : Text} {candidates : List Text} {least : ℚ} {limit : ℕ}
    {found : List Match} (h : Best score t candidates least limit found) (hcandidates : candidates.Nodup) :
    (found.map (·.text)).Nodup := by
  refine List.Nodup.map_on (fun m hm n hn htext => ?_) (List.Nodup.of_map _ h.places)
  have hplaces : candidates[m.place]? = candidates[n.place]? := by
    rw [h.candidate m hm, h.candidate n hn, htext]
  have hlt := (List.getElem?_eq_some_iff.mp (h.candidate m hm)).1
  exact List.inj_on_of_nodup_map h.places hm hn ((List.getElem?_inj hlt hcandidates).mp hplaces)

/-! ## Sorting -/

section
variable {score : Text → Text → ℚ} {t : Text} {candidates : List Text}

@[simp] theorem mem_scored {m : Match} : m ∈ scored score t candidates ↔
    candidates[m.place]? = some m.text ∧ m.score = score t m.text := by
  simp only [scored, List.mem_map, Prod.exists, List.mem_zipIdx_iff_getElem?]
  constructor
  · rintro ⟨u, i, hu, rfl⟩
    exact ⟨hu, rfl⟩
  · rintro ⟨hu, hscore⟩
    exact ⟨m.text, m.place, hu, by rw [← hscore]⟩

theorem nodup_map_place_scored : ((scored score t candidates).map (·.place)).Nodup := by
  have hplaces : (scored score t candidates).map (·.place) = candidates.zipIdx.map (·.2) := by
    rw [scored, List.map_map]
    rfl
  rw [hplaces, List.zipIdx_map_snd]
  exact List.nodup_range'

/-- All candidates of at least a score, sorted, are cut after `limit` of them. -/
theorem best_bestMatches (least : ℚ) (limit : ℕ) :
    Best score t candidates least limit (bestMatches score t candidates least limit) := by
  let enough := (scored score t candidates).filter fun m => decide (least ≤ m.score)
  let sorted := enough.mergeSort fun m n => decide (n.score ≤ m.score)
  have hperm : sorted.Perm enough := List.mergeSort_perm _ _
  have hmem : ∀ m ∈ sorted.take limit, m ∈ scored score t candidates ∧ least ≤ m.score := fun m hm => by
    simpa [enough] using hperm.mem_iff.mp (List.mem_of_mem_take hm)
  have hsorted : sorted.Pairwise fun m n => n.score ≤ m.score := by
    refine (List.pairwise_mergeSort ?_ ?_ enough).imp of_decide_eq_true
    · intro a b c hab hbc
      exact decide_eq_true ((of_decide_eq_true hbc).trans (of_decide_eq_true hab))
    · intro a b
      simpa using le_total b.score a.score
  refine ⟨fun m hm => (mem_scored.mp (hmem m hm).1).1, fun m hm => (mem_scored.mp (hmem m hm).1).2,
    fun m hm => (hmem m hm).2, ?_, hsorted.sublist (List.take_sublist _ _), List.length_take_le _ _, ?_⟩
  · have hplaces : (sorted.map (·.place)).Nodup := (hperm.map _).nodup_iff.mpr
      (nodup_map_place_scored.sublist (List.filter_sublist.map _))
    exact hplaces.sublist ((List.take_sublist _ _).map _)
  · intro i u hu hleast hleft
    -- a candidate that is left out stands behind the cut
    have hin : (⟨u, score t u, i⟩ : Match) ∈ sorted := hperm.mem_iff.mpr <| by
      simpa [enough] using ⟨hu, hleast⟩
    rw [← List.take_append_drop limit sorted] at hin hsorted
    obtain htake | hdrop := List.mem_append.mp hin
    · exact absurd (List.mem_map_of_mem htake) hleft
    · refine ⟨?_, fun m hm => (List.pairwise_append.mp hsorted).2.2 m hm _ hdrop⟩
      have hlong : limit < sorted.length := by
        by_contra hshort
        rw [List.drop_eq_nil_of_le (Nat.not_lt.mp hshort)] at hdrop
        cases hdrop
      exact List.length_take_of_le hlong.le

end

theorem Ranking.findsBest_bySorting : Ranking.bySorting.FindsBest :=
  fun _ _ _ least limit => best_bestMatches least limit

end VerseSearch.Text
