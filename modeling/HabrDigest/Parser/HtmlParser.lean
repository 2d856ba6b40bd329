import HabrDigest.Lib.Strto
import HabrDigest.Lib.XPath
import HabrDigest.Messaging.Messages

/-!
# `HtmlParser`

`services/parser/src/html_parser.cpp`.  What libxml2 makes of the bytes is an input: a
forest of nodes, or nothing where it cannot parse the document at all.  `Libxml2` says
what is relied on of it, that its strings are UTF-8 without a NUL.  Everything after that
is here: the queries, the trimming, the counters, and the loop over the article nodes.

`parse_valid` is what the rest of the pipeline needs of it.  Every string of every
article it returns is cut out of the document by trimming, which never cuts a character,
so it is text; the one exception is a link that is not absolute, which is put behind
`base_url`, and that is a string of the configuration.
-/

namespace HabrDigest
namespace Parser

open Messaging

/-- The HTML reader of libxml2. -/
structure Libxml2 where
  /-- `htmlReadMemory(buffer, size, ...)`: the nodes of the document, or none where it returns
  no document. -/
  htmlReadMemory : Bytes → Int32 → Option (List Node)
  /-- The strings of a document are UTF-8 and end with a NUL. -/
  texts : ∀ buffer size forest, htmlReadMemory buffer size = some forest →
    Node.AllTextsOf (fun s => Utf8.Valid s ∧ 0 ∉ s) forest

/-! ## Trimming -/

/-- The first loop of `Trim`: white space and U+00A0 skipped at the front. -/
def trimLeft : Bytes → Bytes
  | [] => []
  | b :: s =>
    if Strto.isSpace b then trimLeft s
    else
      match s with
      | [] => [b]
      | c :: t => if b = 0xC2 ∧ c = 0xA0 then trimLeft t else b :: c :: t

/-- The second loop of `Trim`, on the reversed text: white space and U+00A0 skipped at the
end. -/
def trimRightReversed : Bytes → Bytes
  | [] => []
  | b :: s =>
    if Strto.isSpace b then trimRightReversed s
    else
      match s with
      | [] => [b]
      | c :: t => if c = 0xC2 ∧ b = 0xA0 then trimRightReversed t else b :: c :: t

/-- `Trim`. -/
def trim (value : Bytes) : Bytes := (trimRightReversed (trimLeft value).reverse).reverse

/-! ## Reading nodes -/

/-- `HasClass`. -/
def hasClass (className : Bytes) : XPath.Predicate :=
  .contains
    (.concat (.literal (utf8 " ")) (.normalizeSpace (.attr (utf8 "class"))) (.literal (utf8 " ")))
    (.literal (utf8 " " ++ className ++ utf8 " "))

/-- The text that `HasClass` builds. -/
theorem render_hasClass (className : Bytes) :
    (hasClass className).render =
      utf8 "contains(concat(' ', normalize-space(@class), ' '), ' " ++ className ++ utf8 " ')" := by
  have hbefore : utf8 "contains(concat(' ', normalize-space(@class), ' '), ' " =
      utf8 "contains(" ++ (utf8 "concat(" ++ (utf8 "'" ++ utf8 " " ++ utf8 "'") ++ utf8 ", " ++
        (utf8 "normalize-space(" ++ (utf8 "@" ++ utf8 "class") ++ utf8 ")") ++ utf8 ", " ++
        (utf8 "'" ++ utf8 " " ++ utf8 "'") ++ utf8 ")") ++ utf8 ", " ++ (utf8 "'" ++ utf8 " ") := by
    decide +kernel
  have hafter : utf8 " ')" = utf8 " " ++ (utf8 "'" ++ utf8 ")") := by decide +kernel
  rw [hbefore, hafter]
  simp only [hasClass, XPath.Predicate.render, XPath.StringExpr.render, List.append_assoc]

/-- `Evaluate`, from an element. -/
def evaluate (node : Node) (path : XPath.Path) : List Node := path.evaluate node.children

/-- `FirstNode`. -/
def firstNode (nodes : List Node) : Option Node := nodes.head?

/-- `TextOf`. -/
def textOf : Option Node → Bytes
  | none => []
  | some node => trim node.content

/-- `AttributeOf`. -/
def attributeOf (node : Option Node) (name : Bytes) : Bytes :=
  match node with
  | none => []
  | some node =>
    match node.getProp name with
    | none => []
    | some value => trim value

/-- `TextAt`. -/
def textAt (node : Node) (path : XPath.Path) : Bytes := textOf (firstNode (evaluate node path))

/-- `AttributeAt`. -/
def attributeAt (node : Node) (path : XPath.Path) (name : Bytes) : Bytes :=
  attributeOf (firstNode (evaluate node path)) name

/-! ## Counters -/

/-- The loop of `ParseCount`: the cleaned text and the multiplier. -/
def scanCount : Bytes → Bytes → ℚ → Bytes × ℚ
  | [], cleaned, multiplier => (cleaned, multiplier)
  | ch :: raw, cleaned, multiplier =>
    if Numeral.isDigit ch ∨ ch = 0x2D ∨ ch = 0x2E ∨ ch = 0x2C then
      scanCount raw (cleaned ++ [if ch = 0x2C then 0x2E else ch]) multiplier
    else if ch = 0x4B ∨ ch = 0x6B then scanCount raw cleaned 1000
    else if ch = 0x4D ∨ ch = 0x6D then scanCount raw cleaned 1000000
    else if (ch :: raw).take 2 = [0xD0, 0x9A] then scanCount raw cleaned 1000
    else if (ch :: raw).take 2 = [0xD0, 0x9C] then scanCount raw cleaned 1000000
    else scanCount raw cleaned multiplier

/-- `ParseCount`. -/
def parseCount (r : Rounding) (raw : Bytes) : Int64 :=
  let (cleaned, multiplier) := scanCount raw [] 1
  if cleaned = [] ∨ cleaned = utf8 "-" ∨ cleaned = utf8 "." then 0
  else
    match Strto.stod r cleaned with
    | some x => (x.mul r (.finite multiplier)).toInt64
    | none => 0

/-! ## The queries -/

def articlesQuery : XPath.Path :=
  .step ⟨utf8 "article", hasClass (utf8 "tm-articles-list__item")⟩

def titleQuery : XPath.Path := .step ⟨utf8 "a", hasClass (utf8 "tm-title__link")⟩

def authorQuery : XPath.Path := .step ⟨utf8 "a", hasClass (utf8 "tm-user-info__username")⟩

def timeQuery : XPath.Path := .step ⟨utf8 "time", .hasAttribute (utf8 "datetime")⟩

def viewsQuery : XPath.Path :=
  .step ⟨utf8 "span",
    .and (hasClass (utf8 "tm-icon-counter__value")) (.hasAttribute (utf8 "title"))⟩

def votesQuery : XPath.Path := .step ⟨utf8 "span", hasClass (utf8 "tm-votes-meter__value")⟩

def bookmarksQuery : XPath.Path :=
  .under (.step ⟨utf8 "button", hasClass (utf8 "bookmarks-button")⟩)
    ⟨utf8 "span", hasClass (utf8 "counter")⟩

def commentsQuery : XPath.Path :=
  .under (.step ⟨utf8 "a", hasClass (utf8 "article-comments-counter-link")⟩)
    ⟨utf8 "span", hasClass (utf8 "value")⟩

def hubsQuery : XPath.Path := .step ⟨utf8 "a", hasClass (utf8 "tm-publication-hub__link")⟩

def complexityQuery : XPath.Path :=
  .step ⟨utf8 "span", hasClass (utf8 "tm-article-complexity__label")⟩

def readingTimeQuery : XPath.Path :=
  .step ⟨utf8 "span", hasClass (utf8 "tm-article-reading-time__label")⟩

/-! ## The parser -/

/-- `ParseResult`. -/
structure ParseResult where
  articles : List ParsedArticle := []
  skipped : ℕ := 0
  deriving DecidableEq, Repr

/-- `HtmlParser`: the base URL, and the library it calls. -/
structure HtmlParser where
  libxml2 : Libxml2
  rounding : Rounding
  baseUrl : Bytes := utf8 "https://habr.com"

/-- The link of an article: an absolute one as it is, any other one behind the base URL. -/
def resolve (baseUrl href : Bytes) : Bytes :=
  if href = [] then [] else if (utf8 "http").isPrefixOf href then href else baseUrl ++ href

/-- The non-empty texts of the hub links. -/
def hubsOf (articleNode : Node) : List Bytes :=
  ((evaluate articleNode hubsQuery).map fun node => textOf (some node)).filter (· ≠ [])

namespace HtmlParser

/-- One round of the loop of `Parse`: the article of a node, or none where it is skipped. -/
def parseArticle (p : HtmlParser) (articleNode : Node) : Option ParsedArticle :=
  let articleId := attributeOf (some articleNode) (utf8 "id")
  let titleNode := firstNode (evaluate articleNode titleQuery)
  let title := textOf titleNode
  let href := attributeOf titleNode (utf8 "href")
  if articleId = [] ∨ title = [] then none
  else
    let viewsTitle := attributeAt articleNode viewsQuery (utf8 "title")
    some
      { articleId := articleId
        url := resolve p.baseUrl href
        title := title
        author := textAt articleNode authorQuery
        publishedAt := attributeAt articleNode timeQuery (utf8 "datetime")
        hubs := hubsOf articleNode
        complexity := textAt articleNode complexityQuery
        readingTime := textAt articleNode readingTimeQuery
        votes := parseCount p.rounding (textAt articleNode votesQuery)
        views := parseCount p.rounding
          (if viewsTitle = [] then textAt articleNode viewsQuery else viewsTitle)
        bookmarks := parseCount p.rounding (textAt articleNode bookmarksQuery)
        comments := parseCount p.rounding (textAt articleNode commentsQuery) }

/-- What one article node adds to the result. -/
def visit (p : HtmlParser) (result : ParseResult) (articleNode : Node) : ParseResult :=
  match p.parseArticle articleNode with
  | none => { result with skipped := result.skipped + 1 }
  | some article => { result with articles := result.articles ++ [article] }

/-- The nodes the loop runs over: those `libxml2` finds in a document that is not empty. -/
def articleNodes (p : HtmlParser) (html : Bytes) : List Node :=
  if html = [] then []
  else
    match p.libxml2.htmlReadMemory html (Int32.ofNat html.length) with
    | none => []
    | some forest => articlesQuery.evaluate forest

/-- `HtmlParser::Parse`. -/
def parse (p : HtmlParser) (html : Bytes) : ParseResult :=
  (p.articleNodes html).foldl p.visit {}

/-- The articles of the result are those of the nodes that are not skipped, in order. -/
theorem parse_articles (p : HtmlParser) (html : Bytes) :
    (p.parse html).articles = (p.articleNodes html).filterMap p.parseArticle := by
  have hfold : ∀ (nodes : List Node) (result : ParseResult),
      (nodes.foldl p.visit result).articles =
        result.articles ++ nodes.filterMap p.parseArticle := by
    intro nodes
    induction nodes with
    | nil => intro result; simp
    | cons node nodes ih =>
      intro result
      rw [List.foldl_cons, ih, List.filterMap_cons]
      unfold visit
      cases p.parseArticle node <;> simp
  exact hfold _ _

end HtmlParser

/-! ## Which strings are text -/

/-- White space and U+00A0 are whole characters, so trimming keeps a text a text. -/
theorem valid_trimLeft {s : Bytes} (h : Utf8.Valid s) : Utf8.Valid (trimLeft s) := by
  fun_induction trimLeft s with
  | case1 => exact h
  | case2 b s hspace ih =>
    refine ih ((Utf8.Valid.of_append_left (s := [b]) h) (Utf8.valid_singleton ?_))
    exact Strto.lt_of_isSpace hspace
  | case3 b _ => exact h
  | case4 b c t _ hnbsp ih =>
    obtain ⟨rfl, rfl⟩ := hnbsp
    exact ih ((Utf8.Valid.of_append_left (s := [0xC2, 0xA0]) h) (by decide))
  | case5 b c t _ _ => exact h

theorem valid_trimRightReversed {s : Bytes} (h : Utf8.Valid s.reverse) :
    Utf8.Valid (trimRightReversed s).reverse := by
  fun_induction trimRightReversed s with
  | case1 => exact h
  | case2 b s hspace ih =>
    rw [List.reverse_cons] at h
    exact ih (h.of_append_right (Utf8.valid_singleton (Strto.lt_of_isSpace hspace)))
  | case3 b _ => exact h
  | case4 b c t _ hnbsp ih =>
    obtain ⟨rfl, rfl⟩ := hnbsp
    rw [List.reverse_cons, List.reverse_cons, List.append_assoc] at h
    exact ih (h.of_append_right (by decide))
  | case5 b c t _ _ => exact h

/-- **Trimming a text gives a text.** -/
theorem valid_trim {s : Bytes} (h : Utf8.Valid s) : Utf8.Valid (trim s) := by
  refine valid_trimRightReversed ?_
  rw [List.reverse_reverse]
  exact valid_trimLeft h

/-- A node of a document whose strings are text. -/
def TextNode (node : Node) : Prop := node.AllTexts Utf8.Valid

theorem TextNode.evaluate {node : Node} (h : TextNode node) {path : XPath.Path} :
    ∀ n ∈ evaluate node path, TextNode n := fun _ hn =>
  XPath.Path.allTexts_of_mem_evaluate h.children hn

theorem TextNode.firstNode {node : Node} (h : TextNode node) {path : XPath.Path} :
    ∀ n ∈ firstNode (Parser.evaluate node path), TextNode n := fun _ hn =>
  h.evaluate _ (List.mem_of_head? hn)

theorem valid_textOf {node : Option Node} (h : ∀ n ∈ node, TextNode n) :
    Utf8.Valid (textOf node) := by
  cases node with
  | none => exact Utf8.valid_nil
  | some n =>
    exact valid_trim (Node.AllTexts.content Utf8.valid_nil (fun _ _ => Utf8.Valid.append) (h n rfl))

theorem valid_attributeOf {node : Option Node} (h : ∀ n ∈ node, TextNode n) (name : Bytes) :
    Utf8.Valid (attributeOf node name) := by
  cases node with
  | none => exact Utf8.valid_nil
  | some n =>
    cases hv : n.getProp name with
    | none =>
      simp only [attributeOf, hv]
      exact Utf8.valid_nil
    | some v =>
      simp only [attributeOf, hv]
      exact valid_trim ((h n rfl).getProp hv)

/-- The link has to be put behind the base URL. -/
def IsRelative (href : Bytes) : Prop := href ≠ [] ∧ ¬ (utf8 "http").isPrefixOf href = true

instance (href : Bytes) : Decidable (IsRelative href) := inferInstanceAs (Decidable (_ ∧ _))

/-- Where the base URL is used, it decides whether the link is text. -/
theorem valid_resolve_iff (baseUrl : Bytes) {href : Bytes} (h : Utf8.Valid href) :
    Utf8.Valid (resolve baseUrl href) ↔ (IsRelative href → Utf8.Valid baseUrl) := by
  unfold resolve IsRelative
  by_cases hnil : href = []
  · simp [hnil, Utf8.valid_nil]
  · by_cases hhttp : (utf8 "http").isPrefixOf href = true
    · simp [hnil, hhttp, h]
    · rw [if_neg hnil, if_neg hhttp]
      exact ⟨fun hv _ => hv.of_append_right h, fun hv => (hv ⟨hnil, hhttp⟩).append h⟩

/-- The link of an article node, as the loop reads it. -/
def hrefOf (articleNode : Node) : Bytes :=
  attributeOf (firstNode (evaluate articleNode titleQuery)) (utf8 "href")

namespace HtmlParser

/-- The page has an article, not skipped, whose link is not absolute. -/
def UsesBaseUrl (p : HtmlParser) (html : Bytes) : Prop :=
  ∃ node ∈ p.articleNodes html, (p.parseArticle node).isSome = true ∧ IsRelative (hrefOf node)

/-- The article nodes of a page are text. -/
theorem textNode_of_mem_articleNodes {p : HtmlParser} {html : Bytes} {node : Node}
    (h : node ∈ p.articleNodes html) : TextNode node := by
  unfold articleNodes at h
  split at h
  · exact absurd h (by simp)
  · split at h
    · exact absurd h (by simp)
    · rename_i forest hforest
      have htexts := p.libxml2.texts _ _ _ hforest
      exact (XPath.Path.allTexts_of_mem_evaluate htexts h).imp fun _ hs => hs.1

/-- The strings of one article are text if its link is. -/
theorem valid_parseArticle_iff {p : HtmlParser} {node : Node} {a : ParsedArticle}
    (hnode : TextNode node) (ha : p.parseArticle node = some a) :
    (∀ s ∈ a.strings, Utf8.Valid s) ↔ (IsRelative (hrefOf node) → Utf8.Valid p.baseUrl) := by
  have hself : ∀ n ∈ some node, TextNode n := by rintro n ⟨⟩; exact hnode
  have hfirst : ∀ path, ∀ n ∈ firstNode (evaluate node path), TextNode n := fun _ =>
    hnode.firstNode
  have hhubs : ∀ s ∈ hubsOf node, Utf8.Valid s := by
    intro s hs
    obtain ⟨n, hn, rfl⟩ := List.mem_map.mp (List.mem_filter.mp hs).1
    exact valid_textOf (by rintro m ⟨⟩; exact hnode.evaluate _ hn)
  unfold parseArticle at ha
  dsimp only at ha
  split at ha
  · exact absurd ha (by simp)
  · obtain rfl := Option.some.inj ha
    simp only [ParsedArticle.strings, List.cons_append, List.nil_append, List.forall_mem_cons]
    have hurl := valid_resolve_iff p.baseUrl
      (valid_attributeOf (hfirst titleQuery) (utf8 "href"))
    rw [show IsRelative (hrefOf node) = IsRelative (attributeOf _ _) from rfl, ← hurl]
    exact ⟨fun h => h.2.1, fun h => ⟨valid_attributeOf hself _, h, valid_textOf (hfirst _),
      valid_textOf (hfirst _), valid_attributeOf (hfirst _) _, valid_textOf (hfirst _),
      valid_textOf (hfirst _), hhubs⟩⟩

/-- **Every string of a page is text**, if and only if the base URL is or no article needs
it. -/
theorem parse_valid_iff (p : HtmlParser) (html : Bytes) :
    (∀ a ∈ (p.parse html).articles, ∀ s ∈ a.strings, Utf8.Valid s) ↔
      (p.UsesBaseUrl html → Utf8.Valid p.baseUrl) := by
  rw [parse_articles]
  simp only [List.mem_filterMap]
  constructor
  · rintro h ⟨node, hnode, hkept, hrelative⟩
    obtain ⟨a, ha⟩ := Option.isSome_iff_exists.mp hkept
    exact (valid_parseArticle_iff (textNode_of_mem_articleNodes hnode) ha).mp
      (h a ⟨node, hnode, ha⟩) hrelative
  · rintro h a ⟨node, hnode, ha⟩
    refine (valid_parseArticle_iff (textNode_of_mem_articleNodes hnode) ha).mpr fun hrelative => ?_
    exact h ⟨node, hnode, Option.isSome_iff_exists.mpr ⟨a, ha⟩, hrelative⟩

end HtmlParser

end Parser
end HabrDigest
