import HabrDigest.Lib.Lines
import HabrDigest.Notifier.DigestWriter

/-!
# The lines of a digest

`RenderDigestMarkdown` writes a digest line by line, and each line has a kind: a heading, a
summary, the numbered item of an article, and the lines below it.  Which kinds there are and
in which order is fixed by the shape of the digest: how many articles it has, and which of
them have an author, hubs and a date (`schema`).

The texts are put into the lines as they are.  The parser trims titles and names at their
ends only, so a line break inside one survives, and the rest of the text begins a line of its
own, which may look like anything, a numbered item included.  The web page escapes the same
texts; here nothing does.  A line break is a line feed, as for `std::getline`; a carriage return
on its own, which some readers of Markdown take for one, ends no line here.

`digestLines` are the lines as they are written and `Lines.lines` the lines as they are read.
They agree exactly when no text has a line break in it, because otherwise there are too many;
`markdown_lines_iff` is the condition, and under it two digests of one shape cannot be told
apart by their kinds of lines.
-/

namespace HabrDigest
namespace Notifier

open Messaging Lines

/-- The terminator of a line. -/
def newline : UInt8 := 0x0A

/-! ## The lines that are written -/

/-- The lines of an article. -/
def articleLines (position : ℕ) (article : DigestArticle) : List Bytes :=
  [Numeral.digits position ++ utf8 ". **[" ++ article.title ++ utf8 "](" ++ article.url ++
    utf8 ")**"] ++
  (if article.author = [] then [] else [utf8 "   - author: " ++ article.author]) ++
  (if article.hubs = [] then [] else [utf8 "   - hubs: " ++ joinHubs article.hubs]) ++
  (if article.publishedAt = [] then [] else [utf8 "   - published: " ++ article.publishedAt]) ++
  [utf8 "   - rating " ++ Numeral.ofInt article.votes.toInt ++ utf8 " · views " ++
    Numeral.ofInt article.views.toInt ++ utf8 " · bookmarks " ++
    Numeral.ofInt article.bookmarks.toInt ++ utf8 " · comments " ++
    Numeral.ofInt article.comments.toInt,
  utf8 "   - score " ++ fixedOne article.score, []]

/-- The lines of the articles, from a position on. -/
def articlesLines : ℕ → List DigestArticle → List Bytes
  | _, [] => []
  | position, article :: articles =>
    articleLines position article ++ articlesLines (position + 1) articles

/-- The lines of a digest. -/
def digestLines (digest : DigestReadyMessage) : List Bytes :=
  [utf8 "# Habr digest — " ++ digest.generatedAt, [],
    utf8 "Top " ++ Numeral.digits digest.articles.length ++ utf8 " of the last " ++
      Numeral.digits digest.periodHours.toNat ++ utf8 " hours. _trace_id: " ++ digest.traceId ++
      utf8 "_", []] ++
  articlesLines 1 digest.articles

theorem renderArticle_eq (position : ℕ) (article : DigestArticle) :
    renderArticle position article = unlines newline (articleLines position article) := by
  have hitem : utf8 ")**\n" = utf8 ")**" ++ [newline] := by decide
  have hone : utf8 "\n" = [newline] := by decide
  have htwo : utf8 "\n\n" = [newline, newline] := by decide
  unfold renderArticle articleLines
  rw [hitem, hone, htwo]
  by_cases hauthor : article.author = [] <;> by_cases hhubs : article.hubs = [] <;>
    by_cases hpublished : article.publishedAt = [] <;>
    simp [unlines, hauthor, hhubs, hpublished]

theorem renderArticles_eq (position : ℕ) (articles : List DigestArticle) :
    renderArticles position articles = unlines newline (articlesLines position articles) := by
  induction articles generalizing position with
  | nil => rfl
  | cons article articles ih =>
    rw [renderArticles, articlesLines, unlines_append, renderArticle_eq, ih]

/-- **The digest is written line by line.** -/
theorem renderDigestMarkdown_eq (digest : DigestReadyMessage) :
    renderDigestMarkdown digest = unlines newline (digestLines digest) := by
  have hblank : utf8 "\n\n" = newline :: newline :: [] := by decide
  have hend : utf8 "_\n\n" = utf8 "_" ++ newline :: newline :: [] := by decide
  rw [renderDigestMarkdown, digestLines, unlines_append, renderArticles_eq, hblank, hend]
  simp [unlines]

/-! ## The kinds of lines -/

/-- What a line of the file looks like. -/
inductive LineKind where
  | heading
  | summary
  /-- `k. **[...](...)**`. -/
  | item (position : ℕ)
  | author
  | hubs
  | published
  | rating
  | score
  | blank
  | other
  deriving DecidableEq, Repr

/-- The lines that are known by their beginning. -/
def beginnings : List (Bytes × LineKind) :=
  [(utf8 "# ", .heading), (utf8 "Top ", .summary), (utf8 "   - author: ", .author),
    (utf8 "   - hubs: ", .hubs), (utf8 "   - published: ", .published),
    (utf8 "   - rating ", .rating), (utf8 "   - score ", .score)]

/-- The position of a numbered item, if a line looks like one. -/
def itemPosition (line : Bytes) : Option ℕ :=
  let number := line.takeWhile Numeral.isDigit
  let text := line.dropWhile Numeral.isDigit
  if number ≠ [] ∧ utf8 ". **[" <+: text ∧ utf8 "](" <:+: text ∧ utf8 ")**" <:+ text then
    some (Numeral.value number)
  else none

/-- The kind of a line. -/
def lineKind (line : Bytes) : LineKind :=
  if line = [] then .blank
  else
    match beginnings.find? (·.1.isPrefixOf line) with
    | some (_, kind) => kind
    | none =>
      match itemPosition line with
      | some position => .item position
      | none => .other

/-- What the shape of a digest says about an article. -/
structure ArticleShape where
  hasAuthor : Bool
  hasHubs : Bool
  hasPublished : Bool
  deriving DecidableEq, Repr

/-- The shape of an article. -/
def articleShape (article : DigestArticle) : ArticleShape :=
  ⟨article.author ≠ [], article.hubs ≠ [], article.publishedAt ≠ []⟩

/-- The shape of a digest. -/
def shape (digest : DigestReadyMessage) : List ArticleShape := digest.articles.map articleShape

/-- The kinds of the lines of an article. -/
def articleKinds (position : ℕ) (s : ArticleShape) : List LineKind :=
  [.item position] ++ (if s.hasAuthor then [.author] else []) ++
    (if s.hasHubs then [.hubs] else []) ++ (if s.hasPublished then [.published] else []) ++
    [.rating, .score, .blank]

/-- The kinds of the lines of the articles, from a position on. -/
def articlesKinds : ℕ → List ArticleShape → List LineKind
  | _, [] => []
  | position, s :: shapes => articleKinds position s ++ articlesKinds (position + 1) shapes

/-- **The kinds of lines that a shape prescribes.** -/
def schema (shapes : List ArticleShape) : List LineKind :=
  [.heading, .blank, .summary, .blank] ++ articlesKinds 1 shapes

/-! ## The kinds of the lines that are written -/

theorem lineKind_heading (s : Bytes) : lineKind (utf8 "# Habr digest — " ++ s) = .heading := rfl

theorem lineKind_summary (s : Bytes) : lineKind (utf8 "Top " ++ s) = .summary := rfl

theorem lineKind_author (s : Bytes) : lineKind (utf8 "   - author: " ++ s) = .author := rfl

theorem lineKind_hubs (s : Bytes) : lineKind (utf8 "   - hubs: " ++ s) = .hubs := rfl

theorem lineKind_published (s : Bytes) : lineKind (utf8 "   - published: " ++ s) = .published :=
  rfl

theorem lineKind_rating (s : Bytes) : lineKind (utf8 "   - rating " ++ s) = .rating := rfl

theorem lineKind_score (s : Bytes) : lineKind (utf8 "   - score " ++ s) = .score := rfl

/-- A line that begins with a digit has none of the fixed beginnings. -/
theorem find?_beginnings_eq_none {d : UInt8} (hd : Numeral.isDigit d = true) (s : Bytes) :
    beginnings.find? (·.1.isPrefixOf (d :: s)) = none := by
  have hfirst : ∀ p ∈ beginnings, p.1.head?.any (!Numeral.isDigit ·) = true := by decide
  refine List.find?_eq_none.mpr fun p hp hprefix => ?_
  have hany := hfirst p hp
  obtain ⟨t, ht⟩ := List.isPrefixOf_iff_prefix.mp hprefix
  cases hbeginning : p.1 with
  | nil => exact absurd hany (by simp [hbeginning])
  | cons b u =>
    rw [hbeginning] at hany ht
    have hb : b = d := (List.cons.inj ht).1
    exact absurd hany (by simp [hb, hd])

/-- **A numbered item** is known by its number. -/
theorem lineKind_item (position : ℕ) (title url : Bytes) :
    lineKind (Numeral.digits position ++ utf8 ". **[" ++ title ++ utf8 "](" ++ url ++
      utf8 ")**") = .item position := by
  obtain ⟨d, ds, hdigits⟩ := List.exists_cons_of_ne_nil (Numeral.digits_ne_nil position)
  have hall : ∀ b ∈ Numeral.digits position, Numeral.isDigit b = true := fun _ =>
    Numeral.isDigit_of_mem_digits
  have hd : Numeral.isDigit d = true := hall d (by simp [hdigits])
  have hdot : utf8 ". **[" ++ title ++ utf8 "](" ++ url ++ utf8 ")**" =
      0x2E :: (utf8 " **[" ++ title ++ utf8 "](" ++ url ++ utf8 ")**") := by
    have htext : utf8 ". **[" = 0x2E :: utf8 " **[" := by decide
    simp only [htext, List.cons_append]
  have hitem : itemPosition (Numeral.digits position ++ utf8 ". **[" ++ title ++ utf8 "](" ++
      url ++ utf8 ")**") = some position := by
    have hnumber : utf8 ". **[" <+: utf8 ". **[" ++ title ++ utf8 "](" ++ url ++ utf8 ")**" := by
      simp only [List.append_assoc]
      exact List.prefix_append _ _
    have hlink : utf8 "](" <:+: utf8 ". **[" ++ title ++ utf8 "](" ++ url ++ utf8 ")**" := by
      rw [List.append_assoc _ url]
      exact List.infix_append _ _ _
    have hend : utf8 ")**" <:+ utf8 ". **[" ++ title ++ utf8 "](" ++ url ++ utf8 ")**" :=
      List.suffix_append _ _
    have happend : Numeral.digits position ++ utf8 ". **[" ++ title ++ utf8 "](" ++ url ++
        utf8 ")**" = Numeral.digits position ++
          (utf8 ". **[" ++ title ++ utf8 "](" ++ url ++ utf8 ")**") := by
      simp only [List.append_assoc]
    have htake : (Numeral.digits position ++ utf8 ". **[" ++ title ++ utf8 "](" ++ url ++
        utf8 ")**").takeWhile Numeral.isDigit = Numeral.digits position := by
      rw [happend, List.takeWhile_append_of_pos hall, hdot,
        List.takeWhile_cons_of_neg (by decide), List.append_nil]
    have hdrop : (Numeral.digits position ++ utf8 ". **[" ++ title ++ utf8 "](" ++ url ++
        utf8 ")**").dropWhile Numeral.isDigit =
          utf8 ". **[" ++ title ++ utf8 "](" ++ url ++ utf8 ")**" := by
      rw [happend, List.dropWhile_append_of_pos hall, hdot,
        List.dropWhile_cons_of_neg (by decide)]
    unfold itemPosition
    rw [htake, hdrop]
    dsimp only
    rw [if_pos ⟨Numeral.digits_ne_nil position, hnumber, hlink, hend⟩, Numeral.value_digits]
  unfold lineKind
  rw [if_neg (by simp [hdigits]), hitem]
  simp only [hdigits, List.cons_append, find?_beginnings_eq_none hd]

theorem map_lineKind_articleLines (position : ℕ) (article : DigestArticle) :
    (articleLines position article).map lineKind =
      articleKinds position (articleShape article) := by
  have hitem := lineKind_item position article.title article.url
  have hblank : lineKind [] = .blank := rfl
  simp only [List.append_assoc] at hitem
  unfold articleLines articleKinds articleShape
  by_cases hauthor : article.author = [] <;> by_cases hhubs : article.hubs = [] <;>
    by_cases hpublished : article.publishedAt = [] <;>
    simp [hauthor, hhubs, hpublished, hitem, hblank, lineKind_author, lineKind_hubs,
      lineKind_published, lineKind_rating, lineKind_score]

theorem map_lineKind_articlesLines (position : ℕ) (articles : List DigestArticle) :
    (articlesLines position articles).map lineKind =
      articlesKinds position (articles.map articleShape) := by
  induction articles generalizing position with
  | nil => rfl
  | cons article articles ih =>
    rw [articlesLines, List.map_append, map_lineKind_articleLines, ih, List.map_cons,
      articlesKinds]

/-- **What is written has the kinds that the shape prescribes.** -/
theorem map_lineKind_digestLines (digest : DigestReadyMessage) :
    (digestLines digest).map lineKind = schema (shape digest) := by
  have hblank : lineKind [] = .blank := rfl
  rw [digestLines, List.map_append, map_lineKind_articlesLines]
  simp only [List.map_cons, List.map_nil, List.append_assoc, lineKind_heading, lineKind_summary,
    hblank]
  rfl

/-! ## Line breaks -/

/-- Numbers have no line break. -/
theorem newline_notMem_of_isNumeric {s : Bytes} (h : ∀ b ∈ s, Numeral.isNumeric b = true) :
    newline ∉ s := fun hmem => absurd (h newline hmem) (by decide)

theorem newline_notMem_digits (n : ℕ) : newline ∉ Numeral.digits n :=
  newline_notMem_of_isNumeric Numeral.isNumeric_digits

theorem newline_notMem_ofInt (z : ℤ) : newline ∉ Numeral.ofInt z :=
  newline_notMem_of_isNumeric (Numeral.isNumeric_ofInt z)

theorem newline_notMem_fixedOne (x : Double) : newline ∉ fixedOne x :=
  newline_notMem_of_isNumeric (isNumeric_fixedOne x)

/-- The separator has no line break, so only the names can bring one. -/
theorem newline_mem_joinHubs {hubs : List Bytes} :
    newline ∈ joinHubs hubs ↔ ∃ hub ∈ hubs, newline ∈ hub := by
  have hseparator : newline ∉ utf8 ", " := by decide
  induction hubs with
  | nil => simp [joinHubs]
  | cons hub hubs ih =>
    cases hubs with
    | nil => simp [joinHubs]
    | cons hub' hubs =>
      have hjoin : joinHubs (hub :: hub' :: hubs) =
          hub ++ (utf8 ", " ++ joinHubs (hub' :: hubs)) := by
        rw [joinHubs, List.intersperse_cons_cons, List.flatten_cons, List.flatten_cons, joinHubs]
      rw [hjoin, List.mem_append, List.mem_append]
      simp only [hseparator, false_or, ih, List.mem_cons, exists_eq_or_imp]

/-- The texts that an article brings along. -/
def articleTexts (article : DigestArticle) : List Bytes :=
  [article.title, article.url, article.author] ++ article.hubs ++ [article.publishedAt]

/-- **The texts that are put into the file as they are.** -/
def insertedTexts (digest : DigestReadyMessage) : List Bytes :=
  [digest.generatedAt, digest.traceId] ++ digest.articles.flatMap articleTexts

theorem newline_mem_item (position : ℕ) (title url : Bytes) :
    newline ∈ Numeral.digits position ++ utf8 ". **[" ++ title ++ utf8 "](" ++ url ++
      utf8 ")**" ↔ newline ∈ title ∨ newline ∈ url := by
  have hopen : newline ∉ utf8 ". **[" := by decide
  have hlink : newline ∉ utf8 "](" := by decide
  have hclose : newline ∉ utf8 ")**" := by decide
  simp only [List.mem_append, newline_notMem_digits, hopen, hlink, hclose, or_false, false_or]

/-- The lines of the counters and of the score are made of numbers. -/
theorem newline_notMem_counters (article : DigestArticle) :
    newline ∉ utf8 "   - rating " ++ Numeral.ofInt article.votes.toInt ++ utf8 " · views " ++
      Numeral.ofInt article.views.toInt ++ utf8 " · bookmarks " ++
      Numeral.ofInt article.bookmarks.toInt ++ utf8 " · comments " ++
      Numeral.ofInt article.comments.toInt := by
  have hrating : newline ∉ utf8 "   - rating " := by decide
  have hviews : newline ∉ utf8 " · views " := by decide
  have hbookmarks : newline ∉ utf8 " · bookmarks " := by decide
  have hcomments : newline ∉ utf8 " · comments " := by decide
  simp only [List.mem_append, newline_notMem_ofInt, hrating, hviews, hbookmarks, hcomments,
    or_false, not_false_eq_true]

theorem newline_notMem_score (x : Double) : newline ∉ utf8 "   - score " ++ fixedOne x := by
  have hscore : newline ∉ utf8 "   - score " := by decide
  exact List.not_mem_append hscore (newline_notMem_fixedOne x)

/-- A line that is left out of an article without the text breaks only where the text does. -/
theorem newline_mem_optional {α : Type*} {s : List α} [Decidable (s = [])]
    (beginning text : Bytes) (hbeginning : newline ∉ beginning)
    (htext : s = [] → newline ∉ text) :
    (∃ l ∈ (if s = [] then [] else [beginning ++ text]), newline ∈ l) ↔ newline ∈ text := by
  split
  · next hs => simp [htext hs]
  · simp [hbeginning]

/-- **The lines of an article break** where one of its texts does. -/
theorem newline_mem_articleLines (position : ℕ) (article : DigestArticle) :
    (∃ l ∈ articleLines position article, newline ∈ l) ↔
      ∃ s ∈ articleTexts article, newline ∈ s := by
  have hauthor := newline_mem_optional (s := article.author) (utf8 "   - author: ")
    article.author (by decide) fun h => h ▸ List.not_mem_nil
  have hhubs := newline_mem_optional (s := article.hubs) (utf8 "   - hubs: ")
    (joinHubs article.hubs) (by decide) fun h => h ▸ List.not_mem_nil
  have hpublished := newline_mem_optional (s := article.publishedAt) (utf8 "   - published: ")
    article.publishedAt (by decide) fun h => h ▸ List.not_mem_nil
  have hitem := newline_mem_item position article.title article.url
  have hcounters := newline_notMem_counters article
  have hscore := newline_notMem_score article.score
  unfold articleLines articleTexts
  simp only [List.mem_append, or_and_right, exists_or, hauthor, hhubs, hpublished,
    newline_mem_joinHubs, List.mem_cons, List.not_mem_nil, or_false, exists_eq_left]
  simp only [List.mem_append] at hitem hcounters hscore
  simp only [hitem, hcounters, hscore, or_false]
  simp only [or_assoc]

/-- **The lines of a digest break** where one of its texts does. -/
theorem newline_mem_articlesLines (position : ℕ) (articles : List DigestArticle) :
    (∃ l ∈ articlesLines position articles, newline ∈ l) ↔
      ∃ s ∈ articles.flatMap articleTexts, newline ∈ s := by
  induction articles generalizing position with
  | nil => simp [articlesLines]
  | cons article articles ih =>
    simp only [articlesLines, List.flatMap_cons, List.mem_append, or_and_right, exists_or, ih,
      newline_mem_articleLines]

theorem newline_mem_digestLines (digest : DigestReadyMessage) :
    (∃ l ∈ digestLines digest, newline ∈ l) ↔ ∃ s ∈ insertedTexts digest, newline ∈ s := by
  have hheading : newline ∉ utf8 "# Habr digest — " := by decide
  have htop : newline ∉ utf8 "Top " := by decide
  have hof : newline ∉ utf8 " of the last " := by decide
  have hhours : newline ∉ utf8 " hours. _trace_id: " := by decide
  have hend : newline ∉ utf8 "_" := by decide
  simp only [digestLines, insertedTexts, List.mem_append, or_and_right, exists_or,
    newline_mem_articlesLines, List.mem_cons, List.not_mem_nil, or_false, exists_eq_left,
    newline_notMem_digits, hheading, htop, hof, hhours, hend, false_or]

/-! ## The lines that are read -/

/-- The kinds of the lines of the file. -/
def fileKinds (digest : DigestReadyMessage) : List LineKind :=
  (lines newline (renderDigestMarkdown digest)).map lineKind

/-- No text that is put into the file has a line break. -/
def Unbroken (digest : DigestReadyMessage) : Prop := ∀ s ∈ insertedTexts digest, newline ∉ s

theorem unbroken_iff (digest : DigestReadyMessage) :
    Unbroken digest ↔ ∀ l ∈ digestLines digest, newline ∉ l := by
  have h := not_congr (newline_mem_digestLines digest)
  simp only [not_exists, not_and] at h
  exact h.symm

/-- **The file has the lines that its shape prescribes**, exactly when no text breaks one.  A
text that does makes one line more, whatever the lines then look like. -/
theorem fileKinds_eq_schema_iff (digest : DigestReadyMessage) :
    fileKinds digest = schema (shape digest) ↔ Unbroken digest := by
  rw [fileKinds, renderDigestMarkdown_eq, unbroken_iff]
  constructor
  · intro h
    have hlength := congrArg List.length h
    rw [← map_lineKind_digestLines, List.length_map, List.length_map] at hlength
    exact (length_lines_unlines_iff _).mp hlength
  · intro h
    rw [lines_unlines h, map_lineKind_digestLines]

/-- The numbers of the items, in the order of the lines. -/
def itemNumbers (kinds : List LineKind) : List ℕ :=
  kinds.filterMap fun
    | .item position => some position
    | _ => none

theorem itemNumbers_articlesKinds (position : ℕ) (shapes : List ArticleShape) :
    itemNumbers (articlesKinds position shapes) = List.range' position shapes.length := by
  induction shapes generalizing position with
  | nil => rfl
  | cons s shapes ih =>
    have harticle : itemNumbers (articleKinds position s) = [position] := by
      obtain ⟨hasAuthor, hasHubs, hasPublished⟩ := s
      cases hasAuthor <;> cases hasHubs <;> cases hasPublished <;> rfl
    rw [articlesKinds, itemNumbers, List.filterMap_append, ← itemNumbers, ← itemNumbers, harticle,
      ih, List.length_cons, List.range'_succ]
    rfl

/-- **A shape prescribes one item for each article**, in order. -/
theorem itemNumbers_schema (shapes : List ArticleShape) :
    itemNumbers (schema shapes) = List.range' 1 shapes.length := by
  rw [← itemNumbers_articlesKinds 1 shapes]
  rfl

/-- **No text forges a line**, exactly when none has a line break in it.  Two digests of one
shape then have lines of the same kinds in the same places, and the numbered items are those
of the articles. -/
theorem markdown_lines_iff (digest other : DigestReadyMessage)
    (hshape : shape other = shape digest) :
    fileKinds digest = schema (shape digest) ∧ fileKinds other = fileKinds digest ∧
        itemNumbers (fileKinds digest) = List.range' 1 digest.articles.length ↔
      Unbroken digest ∧ Unbroken other := by
  have hkinds := fileKinds_eq_schema_iff digest
  have hother := fileKinds_eq_schema_iff other
  rw [hshape] at hother
  constructor
  · rintro ⟨hdigest, hsame, -⟩
    exact ⟨hkinds.mp hdigest, hother.mp (hsame.trans hdigest)⟩
  · rintro ⟨hdigest, hunbroken⟩
    have hschema := hkinds.mpr hdigest
    refine ⟨hschema, (hother.mpr hunbroken).trans hschema.symm, ?_⟩
    rw [hschema, itemNumbers_schema, shape, List.length_map]

/-- An article whose title is one line. -/
def plainDigest : DigestReadyMessage := { articles := [{ title := utf8 "a" }] }

/-- The title has a line break, and the second line of it is written like an item. -/
def forgedDigest : DigestReadyMessage :=
  { articles := [{ title := utf8 "a](b)**\n2. **[c" }] }

/-- An article with everything, and one without a date. -/
def fullDigest (title author hub : String) : DigestReadyMessage where
  generatedAt := utf8 "2024-05-01T10:00:00Z"
  traceId := utf8 "t"
  articles :=
    [{ title := utf8 title, url := utf8 "https://habr.com/1", author := utf8 author,
       hubs := [utf8 hub, utf8 "C++"], publishedAt := utf8 "2024-05-01T09:00:00Z", votes := 3 },
     { title := utf8 "b", author := utf8 author, hubs := [utf8 hub] }]

/-- Other texts, and the same lines. -/
theorem markdown_lines_plain :
    fileKinds (fullDigest "a" "x" "Lean") = schema (shape (fullDigest "a" "x" "Lean")) ∧
      fileKinds (fullDigest "1. c" "y\r z" "Go") = fileKinds (fullDigest "a" "x" "Lean") ∧
        itemNumbers (fileKinds (fullDigest "a" "x" "Lean")) = [1, 2] :=
  (markdown_lines_iff (fullDigest "a" "x" "Lean") (fullDigest "1. c" "y\r z" "Go")
    (by decide)).mpr ⟨by unfold Unbroken; decide, by unfold Unbroken; decide⟩

/-- One article, two items. -/
theorem markdown_lines_forged :
    shape forgedDigest = shape plainDigest ∧
      (fileKinds forgedDigest).length ≠ (fileKinds plainDigest).length ∧
      forgedDigest.articles.length = 1 ∧ itemNumbers (fileKinds forgedDigest) = [1, 2] := by
  decide +kernel

end Notifier
end HabrDigest
