import VerseSearch.Bundle
import VerseSearch.Proofs.Bundle.Ingestion
import VerseSearch.Proofs.Wire.Base64Meaning

/-! # A bundle gives back what was read

* `Lexicon.encodeEntries_eq`: the bytes of entries are the bytes of their words, each with the code
  of its category as its tag.
* `Lexicon.decode_encode`: an ingested lexicon comes back with its sentinels and searchable forms.
* `Bundle.load_build`: an encodable corpus and an ingested lexicon have a bundle, and loading it
  gives both back.
* `Bundle.load_build_of_read`: the same for whatever was read from lines.
-/

namespace VerseSearch
set_option autoImplicit false

/-! ## Words as text -/

theorem TaggedWord.decodeText_encodeText {a : Alphabet} {ws : List TaggedWord}
    (h : ∀ w ∈ ws, w.Encodable a) :
    ∃ t, encodeText a ws = .ok t ∧ decodeText a t = .ok ws := by
  obtain ⟨bytes, hb⟩ := encode_isOk h
  refine ⟨Base64.encode bytes, by rw [encodeText, hb]; rfl, ?_⟩
  rw [decodeText, Base64.decode_encode]
  exact decode_encode h hb

/-! ## Lexicons as text -/

theorem Category.code_of_known : ∀ c ∈ Category.known, ∃ code < Category.known.length,
    c.code? = some code ∧ Category.ofCode code = c := by decide

/-- The word that stands for an entry in an encoded lexicon. -/
def Entry.coded (e : Entry) : TaggedWord := ⟨e.word, (e.category.code?.getD 0 : ℕ)⟩

namespace Entry

theorem Ingested.code? {e : Entry} (h : e.Ingested) :
    e.category.code? = some (e.category.code?.getD 0) := by
  cases h with
  | sentinel tag => rfl
  | word known =>
    obtain ⟨code, -, hcode, -⟩ := Category.code_of_known _ known
    rw [hcode]
    rfl

theorem Ingested.encodable {e : Entry} (h : e.Ingested) : e.coded.Encodable .hebrew := by
  cases h with
  | sentinel tag =>
    change TaggedWord.Encodable .hebrew ⟨[Hebrew.separator], (Category.known.length : ℕ)⟩
    refine ⟨by decide, fun c hc => ?_, by decide, by decide⟩
    obtain rfl := List.mem_singleton.mp hc
    decide
  | word known word_ne_nil contains =>
    obtain ⟨code, hlt, hcode, -⟩ := Category.code_of_known _ known
    have hlt : code < 11 := hlt
    refine ⟨word_ne_nil, contains, ?_, ?_⟩
    · exact Int.natCast_nonneg _
    · rw [coded, hcode, TaggedWord.tagLimit]
      simp only [Option.getD_some]
      omega

theorem Ingested.decodeEntry_coded {e : Entry} (h : e.Ingested) :
    Lexicon.decodeEntry e.tag e.coded = .ok e := by
  cases h with
  | sentinel tag => rfl
  | word known _ _ searchable =>
    obtain ⟨code, -, hcode, hof⟩ := Category.code_of_known _ known
    have hcategory : Category.ofCode e.coded.tag = e.category := by
      rw [coded, hcode]
      exact hof
    have hword : e.coded.word = e.word := rfl
    rw [Lexicon.decodeEntry, hcategory, hword, searchable]
    obtain ⟨tag, word, category, form⟩ := e
    change category ∈ Category.known at known
    cases category with
    | unknown => exact absurd known (by decide)
    | _ => rfl

end Entry

namespace Lexicon

theorem encodeEntries_eq {es : List Entry} (h : ∀ e ∈ es, e.Ingested) :
    encodeEntries es = (TaggedWord.encode .hebrew (es.map Entry.coded)).mapError .code := by
  induction es with
  | nil => rfl
  | cons e rest ih =>
    have he := h e (List.mem_cons_self ..)
    have hrest := ih fun x hx => h x (List.mem_cons_of_mem e hx)
    obtain ⟨symbols, hsymbols, hcons⟩ := TaggedWord.encode_cons he.encodable (rest.map Entry.coded)
    obtain ⟨symbols', hsymbols', hone⟩ := TaggedWord.encode_cons he.encodable []
    obtain rfl := Except.ok.inj (hsymbols.symm.trans hsymbols')
    rw [encodeEntries, he.code?]
    simp only
    rw [show (⟨e.word, (e.category.code?.getD 0 : ℕ)⟩ : TaggedWord) = e.coded from rfl, hone, hrest,
      List.map_cons, hcons, TaggedWord.encode_nil]
    cases TaggedWord.encode .hebrew (rest.map Entry.coded) with
    | error err => rfl
    | ok more => simp [Except.map, Except.mapError]

/-- Decoding entries from number `n` on gives those whose numbers start at `n`. -/
theorem decodeEntries_coded {es : List Entry} (n : ℕ) (done : List Entry)
    (h : ∀ i e, es[i]? = some e → e.tag = n + i ∧ e.Ingested) :
    decodeEntries n done (es.map Entry.coded) = .ok (done.reverse ++ es) := by
  induction es generalizing n done with
  | nil => simp [decodeEntries]
  | cons e rest ih =>
    obtain ⟨htag, he⟩ := h 0 e rfl
    have hdecode := he.decodeEntry_coded
    rw [htag, Nat.add_zero] at hdecode
    rw [List.map_cons, decodeEntries, hdecode]
    simp only
    rw [ih (n + 1) (e :: done)]
    · simp
    · intro i x hx
      obtain ⟨hx₁, hx₂⟩ := h (i + 1) x hx
      exact ⟨by omega, hx₂⟩

theorem decode_encode {l : Lexicon} (h : l.Ingested) :
    ∃ t, l.encode = .ok t ∧ decode t = .ok l := by
  have hall : ∀ e ∈ l.entries, e.Ingested := by
    intro e he
    obtain ⟨n, hn⟩ := List.mem_iff_getElem?.mp he
    exact (h n e hn).2
  have hcoded : ∀ w ∈ l.entries.map Entry.coded, w.Encodable .hebrew := by
    intro w hw
    obtain ⟨e, he, rfl⟩ := List.mem_map.mp hw
    exact (hall e he).encodable
  obtain ⟨bytes, hb⟩ := TaggedWord.encode_isOk hcoded
  refine ⟨Base64.encode bytes, ?_, ?_⟩
  · rw [encode, encodeEntries_eq hall, hb]
    rfl
  · have hentries : decodeEntries 0 [] (l.entries.map Entry.coded) = .ok l.entries :=
      decodeEntries_coded 0 [] fun i e he => by simpa using h i e he
    rw [decode, TaggedWord.decodeText, Base64.decode_encode]
    simp only
    rw [TaggedWord.decode_encode hcoded hb]
    simp only
    rw [hentries]
    rfl

end Lexicon

@[simp] theorem Corpus.mapNames_mapNames {ν μ κ : Type} (f : ν → μ) (g : μ → κ) (c : Corpus ν) :
    (c.mapNames f).mapNames g = c.mapNames (g ∘ f) := by
  simp only [mapNames, List.map_map]
  rfl

@[simp] theorem Corpus.mapNames_id {ν : Type} (c : Corpus ν) : c.mapNames id = c := by
  simp only [mapNames, id, List.map_id']

namespace Bundle

/-! ## Parts of a bundle -/

/-- What goes out and comes back item by item does so as a list. -/
theorem collect_collect {α β γ ε ε' : Type} {out : α → Except ε β} {back : β → Except ε' γ}
    {g : α → γ} {xs : List α} (h : ∀ a ∈ xs, ∃ b, out a = .ok b ∧ back b = .ok (g a)) :
    ∃ bs, collect out xs = .ok bs ∧ collect back bs = .ok (xs.map g) := by
  induction xs with
  | nil => exact ⟨[], rfl, rfl⟩
  | cons a rest ih =>
    obtain ⟨b, hout, hback⟩ := h a (List.mem_cons_self ..)
    obtain ⟨bs, houts, hbacks⟩ := ih fun x hx => h x (List.mem_cons_of_mem a hx)
    refine ⟨b :: bs, ?_, ?_⟩
    · rw [collect, hout, houts]
      rfl
    · rw [collect, hback, hbacks]
      rfl

theorem loadVerse_buildVerse {v : Verse} (h : ∀ w ∈ v, w.Encodable .hebrew) :
    ∃ j, buildVerse v = .ok j ∧ loadVerse j = .ok v := by
  obtain ⟨t, hout, hback⟩ := TaggedWord.decodeText_encodeText h
  refine ⟨.str t, by rw [buildVerse, hout]; rfl, ?_⟩
  rw [loadVerse, textOf]
  simp only
  rw [hback]
  rfl

theorem loadChapter_buildChapter {c : Chapter} (h : ∀ v ∈ c, ∀ w ∈ v, w.Encodable .hebrew) :
    ∃ j, buildChapter c = .ok j ∧ loadChapter j = .ok c := by
  obtain ⟨bs, hout, hback⟩ := collect_collect fun v hv => loadVerse_buildVerse (h v hv)
  refine ⟨.arr bs, by rw [buildChapter, hout]; rfl, ?_⟩
  rw [loadChapter, parts]
  simp only
  rw [hback, List.map_id']

theorem loadBook_buildBook {ν : Type} (nameJson : ν → Json) {b : Book ν}
    (h : ∀ c ∈ b.chapters, ∀ v ∈ c, ∀ w ∈ v, w.Encodable .hebrew) :
    ∃ j, buildBook (nameJson b.name) b.chapters = .ok j ∧
      loadBook j = .ok ⟨nameJson b.name, b.chapters⟩ := by
  obtain ⟨bs, hout, hback⟩ := collect_collect fun c hc => loadChapter_buildChapter (h c hc)
  refine ⟨_, by rw [buildBook, hout]; rfl, ?_⟩
  rw [List.map_id'] at hback
  have hname : part "name" (Json.ofFields [("name", nameJson b.name), ("chapters", .arr bs)]) =
      .ok (nameJson b.name) := rfl
  have hchapters : part "chapters"
      (Json.ofFields [("name", nameJson b.name), ("chapters", .arr bs)]) = .ok (.arr bs) := rfl
  rw [loadBook, hname]
  simp only
  rw [hchapters]
  simp only [parts]
  rw [hback]
  rfl

/-! ## Whole bundles -/

theorem load_of_parts {fields : List (Text × Json)} {books lexicon : Json}
    {loaded : List (Book Json)} {l : Lexicon}
    (hversion : isVersion ((Json.lookup? "version".toList fields).getD .null) = true)
    (hbooks : part "books" (.obj fields) = .ok books) (hloaded : loadBooks books = .ok loaded)
    (hlexicon : part "lexicon" (.obj fields) = .ok lexicon) (hl : loadLexicon lexicon = .ok l) :
    load (.obj fields) = .ok (⟨loaded⟩, l) := by
  rw [load]
  simp only [hversion, if_true, hbooks, hlexicon, bind, Except.bind, hloaded, hl]
  rfl

/-- An encodable corpus and an ingested lexicon have a bundle, and loading it gives both back. -/
theorem load_build {ν : Type} (nameJson : ν → Json) {c : Corpus ν} {l : Lexicon}
    (hc : c.Encodable) (hl : l.Ingested) :
    ∃ bundle, buildWith nameJson c l = .ok bundle ∧ load bundle = .ok (c.mapNames nameJson, l) := by
  have hbooks : ∀ b ∈ c.books, ∃ j, buildBook (nameJson b.name) b.chapters = .ok j ∧
      loadBook j = .ok ⟨nameJson b.name, b.chapters⟩ := by
    intro b hb
    exact loadBook_buildBook nameJson (Corpus.encodable_iff.mp hc b hb)
  obtain ⟨books, hout, hback⟩ := collect_collect hbooks
  obtain ⟨t, hencode, hdecode⟩ := Lexicon.decode_encode hl
  refine ⟨_, by rw [buildWith, hout]; simp only [hencode]; rfl, ?_⟩
  have hloaded : loadBooks (.arr books) =
      .ok (c.books.map fun b => ⟨nameJson b.name, b.chapters⟩) := by
    rw [loadBooks, parts]
    exact hback
  have hlexicon : loadLexicon (.str t) = .ok l := by
    rw [loadLexicon, textOf]
    simp only [hdecode]
  exact load_of_parts rfl rfl hloaded rfl hlexicon

/-- Whatever was read from lines, with any restriction to books, has a bundle, and loading the
bundle gives back the same corpus and the same lexicon. -/
theorem load_build_of_read [Pattern.CharNames] {bookFilter : Option Text} {lines rows : List Text}
    {c : Corpus Text}
    {l : Lexicon} (hc : Corpus.read bookFilter lines = .ok c) (hl : Lexicon.ofLines rows = .ok l) :
    ∃ bundle loaded, build c l = .ok bundle ∧ load bundle = .ok (loaded, l) ∧
      loaded = c.mapNames Json.str ∧ loaded.mapNames nameText = c := by
  obtain ⟨bundle, hbuild, hload⟩ :=
    load_build Json.str (Corpus.encodable_of_read hc) (Lexicon.ingested_of_ofLines hl)
  refine ⟨bundle, _, hbuild, hload, rfl, ?_⟩
  rw [Corpus.mapNames_mapNames]
  exact Corpus.mapNames_id c

/-- The corpus of one word and the lexicon of the entry with number one, after a gap. -/
theorem load_build_of_first_word :
    Corpus.read none ["Genesis\t1\t1\tאב\t1".toList] =
        .ok ⟨[⟨"בראשית".toList, [[[⟨['א', 'ב'], 1⟩]]]⟩]⟩ ∧
      Lexicon.ofLines ["| אב | אב | Noun | [ 1 ](https://biblehub.com/hebrew/1.htm) |".toList] =
        .ok ⟨[.sentinel 0, ⟨1, ['א', 'ב'], .noun, ['א', 'ב']⟩]⟩ ∧
      ∃ bundle loaded, build ⟨[⟨"בראשית".toList, [[[⟨['א', 'ב'], 1⟩]]]⟩]⟩
          ⟨[.sentinel 0, ⟨1, ['א', 'ב'], .noun, ['א', 'ב']⟩]⟩ = .ok bundle ∧
        load bundle = .ok (loaded, ⟨[.sentinel 0, ⟨1, ['א', 'ב'], .noun, ['א', 'ב']⟩]⟩) ∧
        loaded = (⟨[⟨"בראשית".toList, [[[⟨['א', 'ב'], 1⟩]]]⟩]⟩ : Corpus Text).mapNames Json.str ∧
        loaded.mapNames nameText = ⟨[⟨"בראשית".toList, [[[⟨['א', 'ב'], 1⟩]]]⟩]⟩ := by
  have hc : Corpus.read none ["Genesis\t1\t1\tאב\t1".toList] =
      .ok ⟨[⟨"בראשית".toList, [[[⟨['א', 'ב'], 1⟩]]]⟩]⟩ := by decide +kernel
  have hl : Lexicon.ofLines
      ["| אב | אב | Noun | [ 1 ](https://biblehub.com/hebrew/1.htm) |".toList] =
        .ok ⟨[.sentinel 0, ⟨1, ['א', 'ב'], .noun, ['א', 'ב']⟩]⟩ := by decide +kernel
  exact ⟨hc, hl, load_build_of_read hc hl⟩

end Bundle

end VerseSearch
