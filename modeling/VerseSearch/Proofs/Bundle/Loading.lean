import VerseSearch.Proofs.Bundle.RoundTrip
import VerseSearch.Proofs.Wire.UniqueBytes

/-! # What loading establishes

* `Lexicon.decode_cases`: the only thing that keeps a text from being a lexicon is its bytes.
* `Bundle.loadBook_eq` and its like: loading is a sequence of steps, each of which may fail.
* `Bundle.Holds`: a value that holds a corpus and a lexicon; `Bundle.load_eq_ok_iff`.
* `Bundle.Unloadable`: the two ways in which the parts of a value fail.
* `Bundle.FailsIn`: steps of loading that fail in these ways only.
* `Bundle.load_outcomes`: an object of any shape is loaded if it holds a corpus and a lexicon. Otherwise
  it has another version, a part of the wrong shape, or a corrupt text.
* `Bundle.load_rebuilds`: what was loaded has a bundle, and loading that gives it once more.
-/

namespace VerseSearch
set_option autoImplicit false

/-! ## Texts -/

theorem TaggedWord.encodable_of_decodeText {a : Alphabet} {t : Text} {ws : List TaggedWord}
    (h : decodeText a t = .ok ws) : ∀ w ∈ ws, w.Encodable a := by
  rw [decodeText] at h
  cases hbytes : Base64.decode t with
  | error e => rw [hbytes] at h; cases h
  | ok bytes =>
    rw [hbytes] at h
    exact encodable_of_encode (encode_of_decode h)

theorem Category.ofCode_cases (code : ℤ) : ofCode code = .unknown ∨ ofCode code ∈ known := by
  cases code with
  | negSucc n => exact .inl rfl
  | ofNat n =>
    rw [ofCode]
    cases hn : known[n]? with
    | none => exact .inl rfl
    | some c => exact .inr (List.mem_of_getElem? hn)

namespace Lexicon

/-- A word of symbols has an entry: the sentinel if its tag is no code of a category. -/
theorem decodeEntry_spec (tag : ℕ) {w : TaggedWord} (hw : w.Encodable .hebrew) :
    ∃ e, decodeEntry tag w = .ok e ∧ e.tag = tag ∧ e.Ingested := by
  obtain ⟨n, hn⟩ := Hebrew.normalize_of_contains hw.contains
  have hform := Hebrew.searchable_of_normalize hn
  unfold decodeEntry
  split
  · exact ⟨_, rfl, rfl, .sentinel tag⟩
  · next hknown =>
    have hmem := (Category.ofCode_cases w.tag).resolve_left hknown
    rw [hform]
    exact ⟨_, rfl, rfl, .word hmem hw.word_ne_nil hw.contains hform⟩

theorem decodeEntries_spec {ws : List TaggedWord} (hws : ∀ w ∈ ws, w.Encodable .hebrew) (tag : ℕ)
    (done : List Entry) : ∃ es, decodeEntries tag done ws = .ok (done.reverse ++ es) ∧
      ∀ i e, es[i]? = some e → e.tag = tag + i ∧ e.Ingested := by
  induction ws generalizing tag done with
  | nil => exact ⟨[], by rw [decodeEntries, List.append_nil], by simp⟩
  | cons w rest ih =>
    obtain ⟨hw, hrest⟩ := List.forall_mem_cons.mp hws
    obtain ⟨e, he, htag, hingested⟩ := decodeEntry_spec tag hw
    obtain ⟨es, hes, hall⟩ := ih hrest (tag + 1) (e :: done)
    refine ⟨e :: es, ?_, fun i x hx => ?_⟩
    · rw [decodeEntries, he]
      simp only [hes, List.reverse_cons, List.append_assoc, List.singleton_append]
    · cases i with
      | zero =>
        obtain rfl := Option.some.inj hx
        exact ⟨htag, hingested⟩
      | succ i =>
        obtain ⟨hx₁, hx₂⟩ := hall i x hx
        exact ⟨by omega, hx₂⟩

/-- Only bytes can keep a text from being a lexicon: their words have searchable forms. -/
theorem decode_cases (t : Text) :
    (∃ e, TaggedWord.decodeText .hebrew t = .error e ∧ decode t = .error (.code e)) ∨
      ∃ l, decode t = .ok l ∧ l.Ingested := by
  rw [decode]
  cases hwords : TaggedWord.decodeText .hebrew t with
  | error e => exact .inl ⟨e, rfl, rfl⟩
  | ok ws =>
    obtain ⟨es, hes, hall⟩ := decodeEntries_spec (TaggedWord.encodable_of_decodeText hwords) 0 []
    refine .inr ⟨⟨es⟩, ?_, fun i e he => ?_⟩
    · simp only [hes]
      rfl
    · simpa using hall i e he

end Lexicon

namespace Bundle

/-! ## Loading as a sequence of steps -/

theorem collect_cons {α β ε : Type} (f : α → Except ε β) (a : α) (rest : List α) :
    collect f (a :: rest) = f a >>= fun b => (collect f rest).map (b :: ·) := by
  rw [collect]
  cases f a <;> rfl

theorem loadVerse_eq (value : Json) : loadVerse value =
    textOf value >>= fun t => (TaggedWord.decodeText .hebrew t).mapError .code := by
  rw [loadVerse]
  cases textOf value <;> rfl

theorem loadChapter_eq (value : Json) : loadChapter value = parts value >>= collect loadVerse := by
  rw [loadChapter]
  cases parts value <;> rfl

theorem loadBook_eq (value : Json) : loadBook value =
    part "name" value >>= fun name => part "chapters" value >>= fun chapters =>
      parts chapters >>= fun cs => (collect loadChapter cs).map (Book.mk name) := by
  rw [loadBook]
  cases part "name" value with
  | error e => rfl
  | ok name =>
    cases part "chapters" value with
    | error e => rfl
    | ok chapters =>
      simp only [bind, Except.bind]
      cases parts chapters <;> rfl

theorem loadBooks_eq (value : Json) : loadBooks value = parts value >>= collect loadBook := by
  rw [loadBooks]
  cases parts value <;> rfl

/-- A book of one chapter is loaded if its verses are. -/
theorem loadBooks_of_chapter (name : Json) {verses : List Json} {ch : Chapter}
    (h : collect loadVerse verses = .ok ch) :
    loadBooks (.arr [Json.ofFields [("name", name), ("chapters", .arr [.arr verses])]]) =
      .ok [⟨name, [ch]⟩] := by
  have hchapter : loadChapter (.arr verses) = .ok ch := h
  have hbook : loadBook (Json.ofFields [("name", name), ("chapters", .arr [.arr verses])]) =
      .ok ⟨name, [ch]⟩ := by
    rw [loadBook_eq]
    change (collect loadChapter [.arr verses]).map (Book.mk name) = _
    rw [collect_cons, hchapter]
    rfl
  rw [loadBooks_eq]
  change collect loadBook [Json.ofFields [("name", name), ("chapters", .arr [.arr verses])]] = _
  rw [collect_cons, hbook]
  rfl

theorem loadLexicon_eq (value : Json) : loadLexicon value =
    textOf value >>= fun t => (Lexicon.decode t).mapError fun
      | .code e => .code e
      | .invalidCharacter e => .invalidCharacter e := by
  rw [loadLexicon]
  cases textOf value with
  | error e => rfl
  | ok t =>
    simp only [bind, Except.bind]
    cases Lexicon.decode t with
    | error e => cases e <;> rfl
    | ok l => rfl

theorem load_obj {fields : List (Text × Json)}
    (hversion : isVersion ((Json.lookup? "version".toList fields).getD .null) = true) :
    load (.obj fields) = part "books" (.obj fields) >>= fun books => loadBooks books >>= fun loaded =>
      part "lexicon" (.obj fields) >>= fun lexicon => (loadLexicon lexicon).map fun l =>
        (⟨loaded⟩, l) := by
  rw [load]
  simp only [hversion, if_true]
  rfl

/-! ## What a value holds -/

theorem collect_eq_ok_iff {α β ε : Type} {f : α → Except ε β} {R : α → β → Prop}
    (hf : ∀ {a b}, f a = .ok b ↔ R a b) {xs : List α} {ys : List β} :
    collect f xs = .ok ys ↔ List.Forall₂ R xs ys := by
  induction xs generalizing ys with
  | nil => simp [collect, eq_comm]
  | cons a rest ih =>
    rw [collect_cons, bind_eq_ok_iff, List.forall₂_cons_left_iff]
    constructor
    · rintro ⟨b, hb, h⟩
      obtain ⟨bs, hbs, rfl⟩ := ok_of_map h
      exact ⟨b, bs, hf.mp hb, ih.mp hbs, rfl⟩
    · rintro ⟨b, bs, hb, hbs, rfl⟩
      exact ⟨b, hf.mpr hb, by rw [ih.mpr hbs]; rfl⟩

/-- The value is the text of the words of a verse. -/
def IsVerse (value : Json) (v : Verse) : Prop :=
  ∃ t, value = .str t ∧ TaggedWord.decodeText .hebrew t = .ok v

/-- The parts of the value are the verses of a chapter. -/
def IsChapter (value : Json) (ch : Chapter) : Prop :=
  ∃ items, parts value = .ok items ∧ List.Forall₂ IsVerse items ch

/-- The value has the name of a book and its chapters. -/
def IsBook (value : Json) (b : Book Json) : Prop :=
  part "name" value = .ok b.name ∧ ∃ chapters items, part "chapters" value = .ok chapters ∧
    parts chapters = .ok items ∧ List.Forall₂ IsChapter items b.chapters

/-- The value has the books of a corpus and the text of a lexicon. -/
def Holds (value : Json) (c : Corpus Json) (l : Lexicon) : Prop :=
  (∃ books items, part "books" value = .ok books ∧ parts books = .ok items ∧
    List.Forall₂ IsBook items c.books) ∧
  ∃ t, part "lexicon" value = .ok (.str t) ∧ Lexicon.decode t = .ok l

@[simp] theorem textOf_eq_ok_iff {value : Json} {t : Text} : textOf value = .ok t ↔ value = .str t := by
  cases value <;> simp [textOf]

theorem loadVerse_eq_ok_iff {value : Json} {v : Verse} :
    loadVerse value = .ok v ↔ IsVerse value v := by
  rw [loadVerse_eq, bind_eq_ok_iff]
  refine exists_congr fun t => and_congr textOf_eq_ok_iff ⟨ok_of_mapError, fun h => ?_⟩
  rw [h]
  rfl

theorem loadChapter_eq_ok_iff {value : Json} {ch : Chapter} :
    loadChapter value = .ok ch ↔ IsChapter value ch := by
  rw [loadChapter_eq, bind_eq_ok_iff]
  simp only [collect_eq_ok_iff loadVerse_eq_ok_iff, IsChapter]

theorem loadBook_eq_ok_iff {value : Json} {b : Book Json} :
    loadBook value = .ok b ↔ IsBook value b := by
  rw [loadBook_eq, IsBook]
  constructor
  · intro h
    obtain ⟨name, hname, h⟩ := ok_of_bind h
    obtain ⟨chapters, hchapters, h⟩ := ok_of_bind h
    obtain ⟨items, hitems, h⟩ := ok_of_bind h
    obtain ⟨loaded, hloaded, rfl⟩ := ok_of_map h
    exact ⟨hname, chapters, items, hchapters, hitems,
      (collect_eq_ok_iff loadChapter_eq_ok_iff).mp hloaded⟩
  · rintro ⟨hname, chapters, items, hchapters, hitems, hloaded⟩
    have hloaded := (collect_eq_ok_iff loadChapter_eq_ok_iff).mpr hloaded
    rw [hname, bind_eq_ok_iff]
    refine ⟨_, rfl, bind_eq_ok_iff.mpr ⟨chapters, hchapters, bind_eq_ok_iff.mpr ⟨items, hitems, ?_⟩⟩⟩
    rw [hloaded]
    rfl

theorem loadBooks_eq_ok_iff {value : Json} {books : List (Book Json)} : loadBooks value = .ok books ↔
    ∃ items, parts value = .ok items ∧ List.Forall₂ IsBook items books := by
  rw [loadBooks_eq, bind_eq_ok_iff]
  simp only [collect_eq_ok_iff loadBook_eq_ok_iff]

theorem loadLexicon_eq_ok_iff {value : Json} {l : Lexicon} :
    loadLexicon value = .ok l ↔ ∃ t, value = .str t ∧ Lexicon.decode t = .ok l := by
  rw [loadLexicon_eq, bind_eq_ok_iff]
  exact exists_congr fun t => and_congr textOf_eq_ok_iff ⟨ok_of_mapError, fun h => by rw [h]; rfl⟩

theorem load_eq_ok_iff {fields : List (Text × Json)} {c : Corpus Json} {l : Lexicon}
    (hversion : isVersion ((Json.lookup? "version".toList fields).getD .null) = true) :
    load (.obj fields) = .ok (c, l) ↔ Holds (.obj fields) c l := by
  rw [load_obj hversion, Holds]
  constructor
  · intro h
    obtain ⟨books, hbooks, h⟩ := ok_of_bind h
    obtain ⟨loaded, hloaded, h⟩ := ok_of_bind h
    obtain ⟨lexicon, hlexicon, h⟩ := ok_of_bind h
    obtain ⟨l', hl', heq⟩ := ok_of_map h
    obtain ⟨rfl, rfl⟩ := Prod.mk.inj heq
    obtain ⟨items, hitems, hall⟩ := loadBooks_eq_ok_iff.mp hloaded
    obtain ⟨t, rfl, ht⟩ := loadLexicon_eq_ok_iff.mp hl'
    exact ⟨⟨books, items, hbooks, hitems, hall⟩, t, hlexicon, ht⟩
  · rintro ⟨⟨books, items, hbooks, hitems, hall⟩, t, hlexicon, ht⟩
    have hloaded := loadBooks_eq_ok_iff.mpr ⟨items, hitems, hall⟩
    have hl := loadLexicon_eq_ok_iff.mpr ⟨t, rfl, ht⟩
    exact load_obj hversion ▸ load_of_parts hversion hbooks hloaded hlexicon hl

theorem IsVerse.encodable {value : Json} {v : Verse} (h : IsVerse value v) :
    ∀ w ∈ v, w.Encodable .hebrew := by
  obtain ⟨t, -, ht⟩ := h
  exact TaggedWord.encodable_of_decodeText ht

theorem Holds.encodable {value : Json} {c : Corpus Json} {l : Lexicon} (h : Holds value c l) :
    c.Encodable := by
  obtain ⟨⟨books, items, -, -, hbooks⟩, -⟩ := h
  rw [Corpus.encodable_iff]
  intro b hb ch hch v hv
  obtain ⟨_, -, -, _, _, -, -, hchapters⟩ := exists_of_forall₂ hbooks b hb
  obtain ⟨_, -, _, -, hverses⟩ := exists_of_forall₂ hchapters ch hch
  obtain ⟨_, -, hverse⟩ := exists_of_forall₂ hverses v hv
  exact hverse.encodable

theorem Holds.ingested {value : Json} {c : Corpus Json} {l : Lexicon} (h : Holds value c l) :
    l.Ingested := by
  obtain ⟨-, t, -, ht⟩ := h
  obtain ⟨e, -, hdecode⟩ | ⟨l', hdecode, hl'⟩ := Lexicon.decode_cases t
  · rw [hdecode] at ht
    cases ht
  · rw [hdecode] at ht
    exact Except.ok.inj ht ▸ hl'

/-! ## Failures -/

/-- The text is a string of the value: the value itself, a part of it or in a part of it. -/
inductive TextIn : Json → Text → Prop
  | here (t : Text) : TextIn (.str t) t
  | item {value item : Json} {items : List Json} {t : Text} (h : parts value = .ok items)
      (hmem : item ∈ items) (ht : TextIn item t) : TextIn value t
  | field {key : String} {value field : Json} {t : Text} (h : part key value = .ok field)
      (ht : TextIn field t) : TextIn value t

/-- Why a value is not loaded: it or a part of it has the wrong shape, or a text in it stands for no
words. -/
inductive Unloadable (value : Json) : LoadError → Prop
  | shape (e : ShapeError) : Unloadable value (.shape e)
  | corrupt {t : Text} {e : CodeError} (ht : TextIn value t)
      (h : TaggedWord.decodeText .hebrew t = .error e) : Unloadable value (.code e)

/-- The step fails only because the value is not loaded. -/
def FailsIn {α : Type} (value : Json) (x : Except LoadError α) : Prop :=
  ∀ e, x = .error e → Unloadable value e

namespace FailsIn

variable {α β : Type} {value : Json}

theorem ok (a : α) : FailsIn value (.ok a) := nofun

theorem error {e : LoadError} (h : Unloadable value e) : FailsIn (α := α) value (.error e) :=
  fun _ heq => Except.error.inj heq ▸ h

theorem bind {x : Except LoadError α} {f : α → Except LoadError β} (hx : FailsIn value x)
    (hf : ∀ a, x = .ok a → FailsIn value (f a)) : FailsIn value (x >>= f) := by
  cases x with
  | error e => exact error (hx e rfl)
  | ok a => exact hf a rfl

theorem map {x : Except LoadError α} (hx : FailsIn value x) (f : α → β) :
    FailsIn value (x.map f) := by
  cases x with
  | error e => exact error (hx e rfl)
  | ok a => exact ok (f a)

theorem collect {f : α → Except LoadError β} {xs : List α} (hf : ∀ a ∈ xs, FailsIn value (f a)) :
    FailsIn value (collect f xs) := by
  induction xs with
  | nil => exact ok []
  | cons a rest ih =>
    obtain ⟨ha, hrest⟩ := List.forall_mem_cons.mp hf
    rw [collect_cons]
    exact ha.bind fun b _ => (ih hrest).map (b :: ·)

theorem of_item {item : Json} {items : List Json} {x : Except LoadError α}
    (h : parts value = .ok items) (hmem : item ∈ items) (hx : FailsIn item x) :
    FailsIn value x := by
  intro e he
  cases hx e he with
  | shape e => exact .shape e
  | corrupt ht h' => exact .corrupt (.item h hmem ht) h'

theorem of_field {key : String} {field : Json} {x : Except LoadError α}
    (h : part key value = .ok field) (hx : FailsIn field x) : FailsIn value x := by
  intro e he
  cases hx e he with
  | shape e => exact .shape e
  | corrupt ht h' => exact .corrupt (.field h ht) h'

end FailsIn

theorem failsIn_parts (value : Json) : FailsIn value (parts value) := by
  cases value with
  | arr | str | obj => exact .ok _
  | null | bool | int | real => exact .error (.shape _)

theorem failsIn_part (key : String) (value : Json) : FailsIn value (part key value) := by
  unfold part
  split
  · split
    · exact .ok _
    · exact .error (.shape _)
  all_goals exact .error (.shape _)

theorem failsIn_textOf (value : Json) : FailsIn value (textOf value) := by
  cases value with
  | str => exact .ok _
  | null | bool | int | real | arr | obj => exact .error (.shape _)

theorem failsIn_loadVerse (value : Json) : FailsIn value (loadVerse value) := by
  rw [loadVerse_eq]
  refine (failsIn_textOf value).bind fun t ht => ?_
  obtain rfl := textOf_eq_ok_iff.mp ht
  cases hwords : TaggedWord.decodeText .hebrew t with
  | ok ws => exact .ok ws
  | error e => exact .error (.corrupt (.here t) hwords)

theorem failsIn_loadChapter (value : Json) : FailsIn value (loadChapter value) := by
  rw [loadChapter_eq]
  refine (failsIn_parts value).bind fun items hitems => .collect fun item hitem => ?_
  exact .of_item hitems hitem (failsIn_loadVerse item)

theorem failsIn_loadBook (value : Json) : FailsIn value (loadBook value) := by
  rw [loadBook_eq]
  refine (failsIn_part "name" value).bind fun name _ => ?_
  refine (failsIn_part "chapters" value).bind fun chapters hchapters => .of_field hchapters ?_
  refine (failsIn_parts chapters).bind fun items hitems => .map (.collect fun item hitem => ?_) _
  exact .of_item hitems hitem (failsIn_loadChapter item)

theorem failsIn_loadBooks (value : Json) : FailsIn value (loadBooks value) := by
  rw [loadBooks_eq]
  refine (failsIn_parts value).bind fun items hitems => .collect fun item hitem => ?_
  exact .of_item hitems hitem (failsIn_loadBook item)

-- A lexicon is not refused for a word without searchable form, since there is none.
theorem failsIn_loadLexicon (value : Json) : FailsIn value (loadLexicon value) := by
  rw [loadLexicon_eq]
  refine (failsIn_textOf value).bind fun t ht => ?_
  obtain rfl := textOf_eq_ok_iff.mp ht
  obtain ⟨e, hwords, hdecode⟩ | ⟨l, hdecode, -⟩ := Lexicon.decode_cases t
  · rw [hdecode]
    exact .error (.corrupt (.here t) hwords)
  · rw [hdecode]
    exact .ok l

theorem failsIn_load {fields : List (Text × Json)}
    (hversion : isVersion ((Json.lookup? "version".toList fields).getD .null) = true) :
    FailsIn (.obj fields) (load (.obj fields)) := by
  rw [load_obj hversion]
  refine (failsIn_part "books" _).bind fun books hbooks => ?_
  refine (FailsIn.of_field hbooks (failsIn_loadBooks books)).bind fun _ _ => ?_
  refine (failsIn_part "lexicon" _).bind fun lexicon hlexicon => .map ?_ _
  exact .of_field hlexicon (failsIn_loadLexicon lexicon)

/-! ## Whole bundles -/

theorem load_of_isVersion_eq_false {fields : List (Text × Json)}
    (hversion : isVersion ((Json.lookup? "version".toList fields).getD .null) = false) :
    load (.obj fields) = .error
      (.unsupportedVersion ((Json.lookup? "version".toList fields).getD .null).shown) := by
  rw [load]
  exact if_neg (by rw [hversion]; exact Bool.false_ne_true)

theorem holds_of_load {value : Json} {c : Corpus Json} {l : Lexicon}
    (h : load value = .ok (c, l)) : Holds value c l := by
  cases value with
  | null | bool | int | real | str | arr => cases h
  | obj fields =>
    cases hversion : isVersion ((Json.lookup? "version".toList fields).getD .null) with
    | false =>
      rw [load_of_isVersion_eq_false hversion] at h
      cases h
    | true => exact (load_eq_ok_iff hversion).mp h

/-- An object of any shape that has the version of bundles is loaded if it holds a corpus and a
lexicon. If it does not, then a part of it has the wrong shape, or a text in it stands for no words.
There is no other failure: whatever words bytes give, they have searchable forms. -/
theorem load_outcomes (fields : List (Text × Json)) :
    let version := (Json.lookup? "version".toList fields).getD .null
    isVersion version = false ∧ load (.obj fields) = .error (.unsupportedVersion version.shown) ∨
      isVersion version = true ∧
        ((∃ c l, Holds (.obj fields) c l ∧ load (.obj fields) = .ok (c, l)) ∨
          (∀ c l, ¬ Holds (.obj fields) c l) ∧
            ((∃ e, load (.obj fields) = .error (.shape e)) ∨
              ∃ e t, load (.obj fields) = .error (.code e) ∧ TextIn (.obj fields) t ∧
                TaggedWord.decodeText .hebrew t = .error e)) := by
  intro version
  cases hversion : isVersion version with
  | false => exact .inl ⟨rfl, load_of_isVersion_eq_false hversion⟩
  | true =>
    refine .inr ⟨rfl, ?_⟩
    cases hresult : load (.obj fields) with
    | ok loaded => exact .inl ⟨loaded.1, loaded.2, (load_eq_ok_iff hversion).mp hresult, rfl⟩
    | error e =>
      refine .inr ⟨fun c l hholds => ?_, ?_⟩
      · rw [(load_eq_ok_iff hversion).mpr hholds] at hresult
        cases hresult
      · cases failsIn_load hversion e hresult with
        | shape e => exact .inl ⟨e, rfl⟩
        | corrupt ht h => exact .inr ⟨_, _, rfl, ht, h⟩

/-- Whatever value was loaded, the corpus and the lexicon have a bundle, and loading the bundle gives
both back. -/
theorem load_rebuilds {value : Json} {c : Corpus Json} {l : Lexicon}
    (h : load value = .ok (c, l)) :
    ∃ bundle, buildWith id c l = .ok bundle ∧ load bundle = .ok (c, l) := by
  have hholds := holds_of_load h
  obtain ⟨bundle, hbuild, hload⟩ := load_build id hholds.encodable hholds.ingested
  rw [Corpus.mapNames_id] at hload
  exact ⟨bundle, hbuild, hload⟩

/-- A name that is no text, a verse with bits left over in its base64, and a lexicon whose first entry
has a word but no category. -/
theorem load_rebuilds_of_spare_bits :
    let verses : List Json := [.str "AYIAAR==".toList]
    let book := Json.ofFields [("name", .null), ("chapters", .arr [.arr verses])]
    let value := Json.ofFields [("version", .bool true), ("books", .arr [book]),
      ("lexicon", .str "gQD/AYIAAh==".toList)]
    let c : Corpus Json := ⟨[⟨.null, [[[⟨['א', 'ב'], 1⟩]]]⟩]⟩
    let l : Lexicon := ⟨[.sentinel 0, ⟨1, ['א', 'ב'], .noun, ['א', 'ב']⟩]⟩
    load value = .ok (c, l) ∧
      ∃ bundle, buildWith id c l = .ok bundle ∧ load bundle = .ok (c, l) := by
  intro verses book value c l
  have hverse : TaggedWord.decodeText .hebrew "AYIAAR==".toList = .ok [⟨['א', 'ב'], 1⟩] := by
    decide +kernel
  have hlexicon : Lexicon.decode "gQD/AYIAAh==".toList = .ok l := by decide +kernel
  have hverses : collect loadVerse verses = .ok [[⟨['א', 'ב'], 1⟩]] := by
    simp only [verses, collect, loadVerse, textOf, hverse]
    rfl
  have hload : load value = .ok (c, l) :=
    load_of_parts rfl rfl (loadBooks_of_chapter .null hverses) rfl
      (by simp only [loadLexicon, textOf, hlexicon])
  exact ⟨hload, load_rebuilds hload⟩

end Bundle

end VerseSearch
