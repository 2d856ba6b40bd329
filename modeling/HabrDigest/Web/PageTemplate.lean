import HabrDigest.Lib.Escaping
import HabrDigest.Lib.Template
import HabrDigest.Web.HtmlView

/-!
# The template of the page

What stands on the page comes from strangers: titles, names and hubs of scraped articles.  The
structure of the page must not.  `pageTemplate` is the page with slots, and it is a function
of the shape of the digests alone: how many there are, how many articles each has, and which
articles of the latest one have an author, a date and how many hubs.  `pageSlots` are the
fields in the order of the slots.

`fills_renderPage` says that the page is the template with the fields in its slots, each
escaped for HTML or written as a number.  The rest follows from what escaped texts are: the
markup of two pages of one shape is the same, and the tag that begins an item occurs in the
page once for every article, in the order of the digest.
-/

namespace HabrDigest
namespace Web

open Messaging Numeral Template

/-! ## Escaping for HTML -/

/-- The five entities. -/
def html : Escaping UInt8 where
  mark := 0x26
  table := [(0x26, utf8 "amp;"), (0x3C, utf8 "lt;"), (0x3E, utf8 "gt;"), (0x22, utf8 "quot;"),
    (0x27, utf8 "#39;")]
  mark_mem := ⟨(0x26, utf8 "amp;"), List.mem_cons_self .., rfl⟩
  prefix_free := by decide
  notMem_word := by decide

theorem escapeHtml_eq (value : Bytes) : escapeHtml value = html.escape value := by
  refine congrArg (value.flatMap ·) (funext fun ch => ?_)
  by_cases hamp : ch = 0x26
  · subst hamp; decide
  by_cases hlt : ch = 0x3C
  · subst hlt; decide
  by_cases hgt : ch = 0x3E
  · subst hgt; decide
  by_cases hquot : ch = 0x22
  · subst hquot; decide
  by_cases hapos : ch = 0x27
  · subst hapos; decide
  have hnone : html.table.find? (·.1 = ch) = none := by
    simp [html, Ne.symm hamp, Ne.symm hlt, Ne.symm hgt, Ne.symm hquot, Ne.symm hapos]
  simp only [Escaping.escapeOne, hnone, hamp, hlt, hgt, hquot, hapos, if_false]

/-! ## The slots -/

/-- What is put into a slot. -/
inductive Slot where
  | text (field : Bytes)
  | counter (value : Int64)
  | score (value : Double)
  | hours (value : UInt32)
  deriving DecidableEq, Repr

/-- How it is written. -/
def Slot.content (negatedMin : Int64) : Slot → Bytes
  | text field => escapeHtml field
  | counter value => formatNumber negatedMin value
  | score value => formatScore value
  | hours value => Numeral.digits value.toNat

theorem isNumeric_groupDigits {digits : Bytes} (h : ∀ b ∈ digits, isNumeric b = true)
    (seen : ℕ) : ∀ b ∈ groupDigits seen digits, isNumeric b = true := by
  induction digits generalizing seen with
  | nil => exact fun b hb => absurd hb List.not_mem_nil
  | cons digit digits ih =>
    obtain ⟨hdigit, hdigits⟩ := List.forall_mem_cons.mp h
    have hblank : ∀ b ∈ (if 0 < seen ∧ seen % 3 = 0 then utf8 " " else []),
        isNumeric b = true := by
      split <;> decide
    rw [groupDigits]
    exact List.forall_mem_append.mpr
      ⟨hblank, List.forall_mem_cons.mpr ⟨hdigit, ih hdigits (seen + 1)⟩⟩

theorem isNumeric_formatNumber (negatedMin value : Int64) :
    ∀ b ∈ formatNumber negatedMin value, isNumeric b = true := by
  have hout : ∀ z : ℤ, ∀ b ∈ groupDigits 0 (Numeral.ofInt z).reverse, isNumeric b = true :=
    fun z => isNumeric_groupDigits (fun b hb => isNumeric_ofInt z b (List.mem_reverse.mp hb)) 0
  intro b hb
  rw [formatNumber, List.mem_reverse] at hb
  split at hb
  · rcases List.mem_append.mp hb with hb | hb
    · exact hout _ b hb
    · exact List.mem_singleton.mp hb ▸ by decide
  · exact hout _ b hb

/-- **What is put into a slot is escaped.** -/
theorem escaped_content (negatedMin : Int64) (slot : Slot) :
    html.Escaped (slot.content negatedMin) := by
  have hnumeric : ∀ {s : Bytes}, (∀ b ∈ s, isNumeric b = true) → html.Escaped s := by
    have hsymbols : ∀ p ∈ html.table, isNumeric p.1 = false := by decide
    intro s hs
    refine Escaping.escaped_of_notMem fun p hp hmem => ?_
    exact absurd (hs _ hmem) (by simp [hsymbols p hp])
  cases slot with
  | text field =>
    rw [Slot.content, escapeHtml_eq]
    exact Escaping.escaped_escape field
  | counter value => exact hnumeric (isNumeric_formatNumber negatedMin value)
  | score value => exact hnumeric (Notifier.isNumeric_fixedOne value)
  | hours value => exact hnumeric isNumeric_digits

/-! ## Shapes -/

/-- What the template knows of an article. -/
structure ItemShape where
  hasAuthor : Bool
  hasPublished : Bool
  hubs : ℕ
  deriving DecidableEq, Repr

/-- What the template knows of the digests, if there are any. -/
structure PageShape where
  /-- The articles of the latest digest. -/
  items : List ItemShape
  /-- How many articles the others have. -/
  archive : List ℕ
  deriving DecidableEq, Repr

def itemShape (article : DigestArticle) : ItemShape :=
  ⟨article.author ≠ [], article.publishedAt ≠ [], article.hubs.length⟩

/-- The shape of the digests. -/
def pageShape : List DigestReadyMessage → Option PageShape
  | [] => none
  | latest :: previous =>
    some ⟨latest.articles.map itemShape, previous.map (·.articles.length)⟩

/-! ## Articles -/

/-- The tag that begins an item. -/
def itemTag : Bytes := utf8 "<div class=\"item\">"

/-- The line below the title. -/
def bylineTemplate (s : ItemShape) : List (Fragment UInt8) :=
  if s.hasAuthor then
    [.literal (utf8 "<div class=\"byline\">"), .slot] ++
      (if s.hasPublished then [.literal (utf8 " · "), .slot] else []) ++
      [.literal (utf8 "</div>")]
  else []

/-- The hubs, each in a box of its own. -/
def hubsTemplate (hubs : ℕ) : List (Fragment UInt8) :=
  if hubs = 0 then []
  else
    [.literal (utf8 "<div class=\"hubs\">")] ++
      (List.replicate hubs
        [.literal (utf8 "<span class=\"hub\">"), .slot, .literal (utf8 "</span>")]).flatten ++
      [.literal (utf8 "</div>")]

/-- A number with its label. -/
def spanTemplate (label : Bytes) : List (Fragment UInt8) :=
  [.literal label, .slot, .literal (utf8 "</b></span>")]

/-- An article behind the tag that begins it. -/
def itemTemplate (rank : ℕ) (s : ItemShape) : List (Fragment UInt8) :=
  [.literal (utf8 "<div class=\"rank\">"), .literal (Numeral.digits rank),
    .literal (utf8 "</div>"), .literal (utf8 "<div class=\"body\">"),
    .literal (utf8 "<div class=\"title\"><a href=\""), .slot,
    .literal (utf8 "\" target=\"_blank\" rel=\"noopener noreferrer\">"), .slot,
    .literal (utf8 "</a></div>")] ++
  bylineTemplate s ++
  hubsTemplate s.hubs ++
  [.literal (utf8 "<div class=\"stats\">")] ++
  spanTemplate (utf8 "<span>рейтинг <b>") ++
  spanTemplate (utf8 "<span>просмотры <b>") ++
  spanTemplate (utf8 "<span>закладки <b>") ++
  spanTemplate (utf8 "<span>комментарии <b>") ++
  spanTemplate (utf8 "<span>score <b>") ++
  [.literal (utf8 "</div>"), .literal (utf8 "</div></div>")]

/-- The fields below the title. -/
def bylineSlots (article : DigestArticle) : List Slot :=
  if article.author = [] then []
  else
    .text article.author ::
      (if article.publishedAt = [] then [] else [.text article.publishedAt])

/-- The fields of an article. -/
def itemSlots (article : DigestArticle) : List Slot :=
  [.text article.url, .text article.title] ++ bylineSlots article ++
  article.hubs.map .text ++
  [.counter article.votes, .counter article.views, .counter article.bookmarks,
    .counter article.comments, .score article.score]

theorem fills_byline (negatedMin : Int64) (article : DigestArticle) :
    Fills (bylineTemplate (itemShape article))
      ((bylineSlots article).map (Slot.content negatedMin))
      (renderByline article) := by
  have hend := Fills.of_literal (utf8 "</div>")
  unfold bylineTemplate bylineSlots itemShape renderByline
  by_cases hauthor : article.author = []
  · simpa [hauthor] using Fills.nil
  by_cases hpublished : article.publishedAt = []
  · have hbyline := (hend.slot (escapeHtml article.author)).literal (utf8 "<div class=\"byline\">")
    simpa [hauthor, hpublished, Slot.content] using hbyline
  · have hdate := (hend.slot (escapeHtml article.publishedAt)).literal (utf8 " · ")
    have hbyline := (hdate.slot (escapeHtml article.author)).literal
      (utf8 "<div class=\"byline\">")
    simpa [hauthor, hpublished, Slot.content] using hbyline

theorem fills_hubs (negatedMin : Int64) (hubs : List Bytes) :
    Fills (hubsTemplate hubs.length) (hubs.map fun hub => (Slot.text hub).content negatedMin)
      (renderHubs hubs) := by
  have hboxes : Fills
      (List.replicate hubs.length
        [.literal (utf8 "<span class=\"hub\">"), .slot, .literal (utf8 "</span>")]).flatten
      (hubs.map fun hub => (Slot.text hub).content negatedMin)
      (hubs.flatMap
        fun hub => utf8 "<span class=\"hub\">" ++ escapeHtml hub ++ utf8 "</span>") := by
    induction hubs with
    | nil => exact .nil
    | cons hub hubs ih =>
      have hbox := ((ih.literal (utf8 "</span>")).slot (escapeHtml hub)).literal
        (utf8 "<span class=\"hub\">")
      simpa [List.replicate_succ, Slot.content] using hbox
  unfold hubsTemplate renderHubs
  by_cases hhubs : hubs = []
  · simpa [hhubs] using Fills.nil
  · have hall := (hboxes.append (Fills.of_literal (utf8 "</div>"))).literal
      (utf8 "<div class=\"hubs\">")
    simpa [hhubs] using hall

theorem fills_span (label content : Bytes) :
    Fills (spanTemplate label) [content] (label ++ content ++ utf8 "</b></span>") := by
  rw [List.append_assoc]
  exact ((Fills.of_literal (utf8 "</b></span>")).slot content).literal label

/-- **An article is its template filled with its fields.** -/
theorem fills_renderArticle (negatedMin : Int64) (rank : ℕ) (article : DigestArticle) :
    Fills (.literal itemTag :: itemTemplate rank (itemShape article))
      ((itemSlots article).map (Slot.content negatedMin))
      (renderArticle negatedMin rank article) := by
  have htitle : Fills _ _ _ :=
    .literal itemTag (.literal (utf8 "<div class=\"rank\">") (.literal (Numeral.digits rank)
      (.literal (utf8 "</div>") (.literal (utf8 "<div class=\"body\">")
      (.literal (utf8 "<div class=\"title\"><a href=\"") (.slot (escapeHtml article.url)
      (.literal (utf8 "\" target=\"_blank\" rel=\"noopener noreferrer\">")
      (.slot (escapeHtml article.title) (.of_literal (utf8 "</a></div>"))))))))))
  have hend : Fills _ _ _ :=
    .literal (utf8 "</div>") (.of_literal (utf8 "</div></div>"))
  have hitem := ((((((((htitle.append (fills_byline negatedMin article)).append
    (fills_hubs negatedMin article.hubs)).append
    (.of_literal (utf8 "<div class=\"stats\">"))).append
    (fills_span (utf8 "<span>рейтинг <b>") (formatNumber negatedMin article.votes))).append
    (fills_span (utf8 "<span>просмотры <b>") (formatNumber negatedMin article.views))).append
    (fills_span (utf8 "<span>закладки <b>") (formatNumber negatedMin article.bookmarks))).append
    (fills_span (utf8 "<span>комментарии <b>") (formatNumber negatedMin article.comments))).append
    (fills_span (utf8 "<span>score <b>") (formatScore article.score))).append hend
  refine hitem.of_eq ?_ ?_ ?_
  · simp only [itemTemplate, itemShape, List.append_assoc, List.cons_append, List.nil_append]
  · simp only [itemSlots, List.map_append, List.map_map, List.map_cons, List.map_nil,
      Slot.content, Function.comp_def, List.append_assoc, List.cons_append, List.nil_append,
      List.append_nil]
  · unfold renderArticle itemTag
    simp only [List.append_assoc]

/-- The articles of the latest digest, from a rank on. -/
def itemsTemplate : ℕ → List ItemShape → List (Fragment UInt8)
  | _, [] => []
  | rank, s :: shapes =>
    .literal itemTag :: itemTemplate rank s ++ itemsTemplate (rank + 1) shapes

theorem fills_renderItems (negatedMin : Int64) (rank : ℕ) (articles : List DigestArticle) :
    Fills (itemsTemplate rank (articles.map itemShape))
      ((articles.flatMap itemSlots).map (Slot.content negatedMin))
      (renderItems negatedMin rank articles) := by
  induction articles generalizing rank with
  | nil => exact .nil
  | cons article articles ih =>
    rw [List.map_cons, itemsTemplate, List.flatMap_cons, List.map_append, renderItems]
    exact (fills_renderArticle negatedMin rank article).append (ih (rank + 1))

/-! ## The page -/

/-- What stands in front of the digests. -/
def headTemplate : List (Fragment UInt8) :=
  [.literal (utf8 "<!doctype html><html lang=\"ru\"><head><meta charset=\"utf-8\">"),
    .literal (utf8 "<meta name=\"viewport\" content=\"width=device-width, initial-scale=1\">"),
    .literal (utf8 "<meta http-equiv=\"refresh\" content=\"30\">"),
    .literal (utf8 "<title>Habr digest</title><style>"), .literal kStyle,
    .literal (utf8 "</style></head><body><div class=\"wrap\">"),
    .literal (utf8 "<header><h1>Habr digest</h1>")]

/-- The page before the first digest. -/
def emptyTemplate : List (Fragment UInt8) :=
  [.literal (utf8 "<div class=\"meta\">Ожидаем первый дайджест от storage.</div></header>"),
    .literal
      (utf8 "<div class=\"empty\">Пока пусто.<br>Дайджест появится здесь, как только storage "),
    .literal (utf8 "опубликует его в <code>digest_ready</code>.</div>")]

/-- What is said about the latest digest. -/
def metaTemplate (count : ℕ) : List (Fragment UInt8) :=
  [.literal (utf8 "<div class=\"meta\">Топ "), .literal (Numeral.digits count),
    .literal (utf8 " за последние "), .slot, .literal (utf8 " ч · собран "), .slot,
    .literal (utf8 " · trace_id <code>"), .slot, .literal (utf8 "</code></div></header>")]

/-- The list of the digests before the latest one. -/
def archiveTemplate (counts : List ℕ) : List (Fragment UInt8) :=
  if counts = [] then []
  else
    [.literal (utf8 "<div class=\"archive\"><h2>Предыдущие дайджесты</h2><ul>")] ++
      counts.flatMap
        (fun count => [.literal (utf8 "<li>"), .slot, .literal (utf8 " — "),
          .literal (Numeral.digits count), .literal (utf8 " статей</li>")]) ++
      [.literal (utf8 "</ul></div>")]

/-- **The template of the page**, a function of the shape. -/
def pageTemplate : Option PageShape → List (Fragment UInt8)
  | none => headTemplate ++ emptyTemplate ++ [.literal (utf8 "</div></body></html>")]
  | some s =>
    headTemplate ++ metaTemplate s.items.length ++ itemsTemplate 1 s.items ++
      archiveTemplate s.archive ++ [.literal (utf8 "</div></body></html>")]

/-- **The fields in the order of the slots.** -/
def pageSlots : List DigestReadyMessage → List Slot
  | [] => []
  | latest :: previous =>
    [.hours latest.periodHours, .text latest.generatedAt, .text latest.traceId] ++
      latest.articles.flatMap itemSlots ++ previous.map (Slot.text ·.generatedAt)

theorem fills_renderArchive (negatedMin : Int64) (previous : List DigestReadyMessage) :
    Fills (archiveTemplate (previous.map (·.articles.length)))
      ((previous.map (Slot.text ·.generatedAt)).map (Slot.content negatedMin))
      (renderArchive previous) := by
  have hlist : Fills
      ((previous.map (·.articles.length)).flatMap
        fun count => [.literal (utf8 "<li>"), .slot, .literal (utf8 " — "),
          .literal (Numeral.digits count), .literal (utf8 " статей</li>")])
      ((previous.map (Slot.text ·.generatedAt)).map (Slot.content negatedMin))
      (previous.flatMap
        fun digest => utf8 "<li>" ++ escapeHtml digest.generatedAt ++ utf8 " — " ++
          Numeral.digits digest.articles.length ++ utf8 " статей</li>") := by
    induction previous with
    | nil => exact .nil
    | cons digest previous ih =>
      have hline : Fills _ _ _ :=
        .literal (utf8 "<li>") (.slot (escapeHtml digest.generatedAt) (.literal (utf8 " — ")
        (.literal (Numeral.digits digest.articles.length)
        (.of_literal (utf8 " статей</li>")))))
      simpa [Slot.content] using hline.append ih
  unfold archiveTemplate renderArchive
  by_cases hprevious : previous = []
  · simpa [hprevious] using Fills.nil
  · have hall := (hlist.append (.of_literal (utf8 "</ul></div>"))).literal
      (utf8 "<div class=\"archive\"><h2>Предыдущие дайджесты</h2><ul>")
    simpa [hprevious] using hall

/-- The items stand between what is said about the latest digest and the archive. -/
theorem exists_renderPage_cons (negatedMin : Int64) (latest : DigestReadyMessage)
    (previous : List DigestReadyMessage) :
    ∃ front back,
      renderPage negatedMin (latest :: previous) =
        front ++ (renderItems negatedMin 1 latest.articles ++ back) ∧
      Fills (headTemplate ++ metaTemplate latest.articles.length)
        (([.hours latest.periodHours, .text latest.generatedAt, .text latest.traceId] :
          List Slot).map (Slot.content negatedMin)) front ∧
      Fills (archiveTemplate (previous.map (·.articles.length)) ++
          [.literal (utf8 "</div></body></html>")])
        ((previous.map (Slot.text ·.generatedAt)).map (Slot.content negatedMin)) back := by
  have hhead : Fills headTemplate [] _ :=
    .literal _ (.literal _ (.literal _ (.literal _ (.literal _ (.literal _ (.of_literal _))))))
  have hmeta : Fills (metaTemplate latest.articles.length) _ _ :=
    .literal _ (.literal _ (.literal _ (.slot (Numeral.digits latest.periodHours.toNat)
    (.literal _ (.slot (escapeHtml latest.generatedAt) (.literal _
    (.slot (escapeHtml latest.traceId) (.of_literal _))))))))
  have hback := (fills_renderArchive negatedMin previous).append
    (Fills.of_literal (utf8 "</div></body></html>"))
  rw [List.append_nil] at hback
  refine ⟨_, _, ?_, hhead.append hmeta, hback⟩
  unfold renderPage
  simp only [List.append_assoc]

/-- **The page is the template filled with the fields.** -/
theorem fills_renderPage (negatedMin : Int64) (digests : List DigestReadyMessage) :
    Fills (pageTemplate (pageShape digests))
      ((pageSlots digests).map (Slot.content negatedMin)) (renderPage negatedMin digests) := by
  cases digests with
  | nil =>
    have hempty : Fills (headTemplate ++ emptyTemplate) _ _ :=
      .literal _ (.literal _ (.literal _ (.literal _ (.literal _ (.literal _ (.literal _
        (.literal _ (.literal _ (.of_literal _)))))))))
    refine (hempty.append (.of_literal (utf8 "</div></body></html>"))).of_eq rfl rfl ?_
    unfold renderPage
    simp only [List.append_assoc]
  | cons latest previous =>
    obtain ⟨front, back, hpage, hfront, hback⟩ := exists_renderPage_cons negatedMin latest previous
    rw [hpage]
    refine (hfront.append ((fills_renderItems negatedMin 1 latest.articles).append hback)).of_eq
      ?_ ?_ rfl
    · rw [pageShape, pageTemplate, List.length_map]
      simp only [List.append_assoc]
    · rw [pageSlots, List.map_append, List.map_append, List.append_assoc]

/-! ## Where items begin -/

theorem itemTag_head : itemTag.head? = some 0x3C := by decide

theorem apart_digits (n : ℕ) : Apart itemTag (Numeral.digits n) :=
  apart_of_notMem itemTag_head fun h => absurd (Numeral.isDigit_of_mem_digits h) (by decide)

/-- No item begins in a field. -/
theorem apart_content (negatedMin : Int64) (slot : Slot) :
    Apart itemTag (slot.content negatedMin) :=
  apart_of_notMem itemTag_head
    ((escaped_content negatedMin slot).notMem (0x3C, utf8 "lt;") (by decide) (by decide))

theorem clear_bylineTemplate (s : ItemShape) : Clear itemTag (bylineTemplate s) := by
  have hboth : Clear itemTag [.literal (utf8 "<div class=\"byline\">"), .slot,
      .literal (utf8 " · "), .slot, .literal (utf8 "</div>")] :=
    ⟨by decide, by decide, by decide, trivial⟩
  have hauthor : Clear itemTag [.literal (utf8 "<div class=\"byline\">"), .slot,
      .literal (utf8 "</div>")] := ⟨by decide, by decide, trivial⟩
  unfold bylineTemplate
  cases s.hasAuthor <;> cases s.hasPublished
  · trivial
  · trivial
  · exact hauthor
  · exact hboth

theorem clear_hubsTemplate (hubs : ℕ) : Clear itemTag (hubsTemplate hubs) := by
  have hboxes : Clear itemTag (List.replicate hubs
      [.literal (utf8 "<span class=\"hub\">"), .slot, .literal (utf8 "</span>")]).flatten := by
    induction hubs with
    | zero => trivial
    | succ hubs ih =>
      rw [List.replicate_succ, List.flatten_cons]
      exact clear_append.mpr ⟨⟨by decide, by decide, trivial⟩, ih⟩
  unfold hubsTemplate
  split
  · trivial
  · exact clear_append.mpr
      ⟨clear_append.mpr ⟨⟨by decide, trivial⟩, hboxes⟩, ⟨by decide, trivial⟩⟩

theorem clear_spanTemplate {label : Bytes} (h : Apart itemTag label) :
    Clear itemTag (spanTemplate label) := ⟨h, by decide, trivial⟩

/-- An item contains no other one. -/
theorem clear_itemTemplate (rank : ℕ) (s : ItemShape) : Clear itemTag (itemTemplate rank s) := by
  unfold itemTemplate
  simp only [clear_append]
  refine ⟨⟨⟨⟨⟨⟨⟨⟨⟨?_, clear_bylineTemplate s⟩, clear_hubsTemplate s.hubs⟩, ?_⟩,
    clear_spanTemplate (by decide)⟩, clear_spanTemplate (by decide)⟩,
    clear_spanTemplate (by decide)⟩, clear_spanTemplate (by decide)⟩,
    clear_spanTemplate (by decide)⟩, ?_⟩
  · exact ⟨by decide, apart_digits rank, by decide, by decide, by decide, by decide, by decide,
      trivial⟩
  · exact ⟨by decide, trivial⟩
  · exact ⟨by decide, by decide, trivial⟩

theorem clear_headTemplate : Clear itemTag headTemplate := by
  have hstyle : Apart itemTag kStyle := apart_of_notMem itemTag_head (by decide +kernel)
  exact ⟨by decide, by decide, by decide, by decide, hstyle, by decide, by decide, trivial⟩

theorem clear_emptyTemplate : Clear itemTag emptyTemplate :=
  ⟨by decide, by decide, by decide, trivial⟩

theorem clear_metaTemplate (count : ℕ) : Clear itemTag (metaTemplate count) :=
  ⟨by decide, apart_digits count, by decide, by decide, by decide, by decide, trivial⟩

theorem clear_archiveTemplate (counts : List ℕ) : Clear itemTag (archiveTemplate counts) := by
  have hlist : Clear itemTag (counts.flatMap fun count =>
      [.literal (utf8 "<li>"), .slot, .literal (utf8 " — "), .literal (Numeral.digits count),
        .literal (utf8 " статей</li>")]) := by
    induction counts with
    | nil => trivial
    | cons count counts ih =>
      rw [List.flatMap_cons]
      exact clear_append.mpr
        ⟨⟨by decide, by decide, apart_digits count, by decide, trivial⟩, ih⟩
  unfold archiveTemplate
  split
  · trivial
  · exact clear_append.mpr
      ⟨clear_append.mpr ⟨⟨by decide, trivial⟩, hlist⟩, ⟨by decide, trivial⟩⟩

/-- **Each article is one item**, and the items are in the order of the articles. -/
theorem occurrences_renderItems (negatedMin : Int64) (rank : ℕ) (articles : List DigestArticle)
    {rest : Bytes} (hrest : occurrences itemTag rest = []) :
    List.Forall₂ (· <+: ·)
      (List.zipWith (renderArticle negatedMin) (List.range' rank articles.length) articles)
      (occurrences itemTag (renderItems negatedMin rank articles ++ rest)) := by
  induction articles generalizing rank with
  | nil =>
    rw [renderItems, List.nil_append, hrest]
    exact .nil
  | cons article articles ih =>
    obtain ⟨text, htext, hfills⟩ := (fills_renderArticle negatedMin rank article).exists_of_literal
    have hbehind := hfills.occurrences_append (clear_itemTemplate rank _)
      (List.forall_mem_map.mpr fun slot _ => apart_content negatedMin slot)
      (renderItems negatedMin (rank + 1) articles ++ rest)
    rw [List.length_cons, List.range'_succ, List.zipWith_cons_cons, renderItems,
      List.append_assoc, htext, List.append_assoc,
      occurrences_marker_append (by decide) (by decide), hbehind]
    refine .cons ?_ (ih (rank + 1))
    rw [← List.append_assoc]
    exact List.prefix_append _ _

/-- The articles that the page shows one by one. -/
def shownArticles : List DigestReadyMessage → List DigestArticle
  | [] => []
  | latest :: _ => latest.articles

/-- The items of the page, with their ranks. -/
def pageItems (negatedMin : Int64) (digests : List DigestReadyMessage) : List Bytes :=
  List.zipWith (renderArticle negatedMin) (List.range' 1 (shownArticles digests).length)
    (shownArticles digests)

/-- **The items of the page** begin where the tag occurs, and nowhere else. -/
theorem occurrences_renderPage (negatedMin : Int64) (digests : List DigestReadyMessage) :
    List.Forall₂ (· <+: ·) (pageItems negatedMin digests)
      (occurrences itemTag (renderPage negatedMin digests)) := by
  have hslots : ∀ slots : List Slot, ∀ v ∈ slots.map (Slot.content negatedMin),
      Apart itemTag v := fun _ => List.forall_mem_map.mpr fun slot _ => apart_content negatedMin slot
  have hend : Clear itemTag [.literal (utf8 "</div></body></html>")] := ⟨by decide, trivial⟩
  cases digests with
  | nil =>
    have hpage := (fills_renderPage negatedMin []).occurrences_append
      (clear_append.mpr ⟨clear_append.mpr ⟨clear_headTemplate, clear_emptyTemplate⟩, hend⟩)
      (hslots _) []
    rw [List.append_nil] at hpage
    rw [hpage]
    exact .nil
  | cons latest previous =>
    obtain ⟨front, back, hpage, hfront, hback⟩ := exists_renderPage_cons negatedMin latest previous
    have hfrontClear := clear_append.mpr
      ⟨clear_headTemplate, clear_metaTemplate latest.articles.length⟩
    have hbackClear := clear_append.mpr
      ⟨clear_archiveTemplate (previous.map (·.articles.length)), hend⟩
    have hnone := hback.occurrences_append hbackClear (hslots _) []
    rw [List.append_nil] at hnone
    rw [hpage, hfront.occurrences_append hfrontClear (hslots _)]
    exact occurrences_renderItems negatedMin 1 latest.articles hnone

/-- The symbols that markup is made of. -/
def isMarkup (b : UInt8) : Bool := (utf8 "<>\"'").contains b

theorem isMarkup_content (negatedMin : Int64) (slot : Slot) :
    ∀ b ∈ slot.content negatedMin, isMarkup b = false := by
  intro b hb
  have hescaped := (escaped_content negatedMin slot).notMem
  have hsymbols : ∀ b' ∈ utf8 "<>\"'", ∃ p ∈ html.table, p.1 ≠ html.mark ∧ p.1 = b' := by decide
  rw [isMarkup, List.contains_eq_mem, decide_eq_false_iff_not]
  intro hmarkup
  obtain ⟨p, hp, hne, heq⟩ := hsymbols b hmarkup
  exact hescaped p hp hne (heq ▸ hb)

/-- **The shape decides about the markup.** -/
theorem filter_isMarkup_renderPage {negatedMin : Int64} {digests : List DigestReadyMessage} :
    (renderPage negatedMin digests).filter isMarkup =
      (literals (pageTemplate (pageShape digests))).filter isMarkup :=
  (fills_renderPage negatedMin digests).filter_eq
    (List.forall_mem_map.mpr fun slot _ => isMarkup_content negatedMin slot)

/-- **The content of the digests cannot change the structure of the page.**  The page is the
template of its shape with the fields in the slots; what is in a slot is escaped, and a text is
read back from it; the markup is the same on every page of the shape; and the items are those
of the articles, in order and with their ranks. -/
theorem renderPage_structure (negatedMin : Int64) (digests : List DigestReadyMessage) :
    Fills (pageTemplate (pageShape digests))
        ((pageSlots digests).map (Slot.content negatedMin)) (renderPage negatedMin digests) ∧
      (∀ slot ∈ pageSlots digests, html.Escaped (slot.content negatedMin)) ∧
      (∀ field, Slot.text field ∈ pageSlots digests →
        html.unescape ((Slot.text field).content negatedMin) = field) ∧
      (∀ negatedMin' digests', pageShape digests' = pageShape digests →
        (renderPage negatedMin' digests').filter isMarkup =
          (renderPage negatedMin digests).filter isMarkup) ∧
      List.Forall₂ (· <+: ·) (pageItems negatedMin digests)
        (occurrences itemTag (renderPage negatedMin digests)) := by
  refine ⟨fills_renderPage negatedMin digests, fun slot _ => escaped_content negatedMin slot,
    fun field _ => ?_, fun negatedMin' digests' hshape => ?_,
    occurrences_renderPage negatedMin digests⟩
  · rw [Slot.content, escapeHtml_eq, Escaping.unescape_escape]
  · rw [filter_isMarkup_renderPage, filter_isMarkup_renderPage, hshape]

end Web
end HabrDigest
