import HabrDigest.Parser.HtmlParser

/-!
# One pass over the listing

`Parse` asks libxml2 eleven kinds of questions through one XPath context, and every question
begins by writing the node it is about into that context.  `HtmlParser` has the answers without
the context; here is the loop with it.  `Context` is what `xmlXPathContext` holds, and
`evaluateIn` writes the node and then evaluates: an expression that begins with `//` from the
document, one that begins with `.//` from the node.

`visitIn_run` is why the context can be left out: whatever it holds, one round of the loop
returns what `visit` returns, because nothing reads the context's node that a round before has
written.  From there on `parseIn_eq` is an induction over the nodes.

The rest is about what the rounds return.  A trimmed string has nothing left to trim
(`trimmed_trim`); every string of an article is cut out of the subtree of its node
(`ReadFrom`); and `parse_partitions_listing` puts together that each node is either an article
or counted as skipped.
-/

namespace HabrDigest
namespace Parser

open Messaging

/-! ## The context -/

/-- An `xmlXPathContext`: the document, and the node that relative paths start from. -/
structure Context where
  document : List Node
  node : Option Node

/-- An expression: `//` and a path, or `.//` and a path. -/
inductive Expression where
  | absolute (path : XPath.Path)
  | relative (path : XPath.Path)

/-- The nodes an expression leads to in a context. -/
def Expression.eval (ctx : Context) : Expression → List Node
  | absolute path => path.evaluate ctx.document
  | relative path =>
    match ctx.node with
    | none => []
    | some node => path.evaluate node.children

/-- `Evaluate`: the node is written into the context, and the expression evaluated there. -/
def evaluateIn (node : Option Node) (expression : Expression) : StateM Context (List Node) :=
  fun ctx => (expression.eval { ctx with node := node }, { ctx with node := node })

/-- `TextAt`. -/
def textAtIn (node : Node) (path : XPath.Path) : StateM Context Bytes := do
  let nodes ← evaluateIn (some node) (.relative path)
  return textOf (firstNode nodes)

/-- `AttributeAt`. -/
def attributeAtIn (node : Node) (path : XPath.Path) (name : Bytes) : StateM Context Bytes := do
  let nodes ← evaluateIn (some node) (.relative path)
  return attributeOf (firstNode nodes) name

/-- The text of the views: the attribute, or the content where it is empty. -/
def viewsIn (node : Node) : StateM Context Bytes := do
  let viewsTitle ← attributeAtIn node viewsQuery (utf8 "title")
  if viewsTitle = [] then textAtIn node viewsQuery else return viewsTitle

/-- One computation after another. -/
theorem bind_apply {α β : Type} (x : StateM Context α) (f : α → StateM Context β)
    (ctx : Context) : (x >>= f) ctx = f (x ctx).1 (x ctx).2 :=
  rfl

/-- A relative path is evaluated from the node that has just been written. -/
theorem evaluateIn_relative (node : Node) (path : XPath.Path) (ctx : Context) :
    evaluateIn (some node) (.relative path) ctx =
      (evaluate node path, { ctx with node := some node }) :=
  rfl

theorem textAtIn_run (node : Node) (path : XPath.Path) (ctx : Context) :
    textAtIn node path ctx = (textAt node path, { ctx with node := some node }) :=
  rfl

theorem attributeAtIn_run (node : Node) (path : XPath.Path) (name : Bytes) (ctx : Context) :
    attributeAtIn node path name ctx =
      (attributeAt node path name, { ctx with node := some node }) :=
  rfl

theorem viewsIn_run (node : Node) (ctx : Context) :
    viewsIn node ctx =
      (if attributeAt node viewsQuery (utf8 "title") = [] then textAt node viewsQuery
        else attributeAt node viewsQuery (utf8 "title"), { ctx with node := some node }) := by
  rw [viewsIn, bind_apply, attributeAtIn_run]
  dsimp only
  by_cases h : attributeAt node viewsQuery (utf8 "title") = []
  · rw [if_pos h, if_pos h, textAtIn_run]
  · rw [if_neg h, if_neg h]
    rfl

namespace HtmlParser

/-- One round of the loop of `Parse`. -/
def visitIn (p : HtmlParser) (result : ParseResult) (articleNode : Node) :
    StateM Context ParseResult := do
  let articleId := attributeOf (some articleNode) (utf8 "id")
  let titleNodes ← evaluateIn (some articleNode) (.relative titleQuery)
  let titleNode := firstNode titleNodes
  let title := textOf titleNode
  let href := attributeOf titleNode (utf8 "href")
  if articleId = [] ∨ title = [] then
    return { result with skipped := result.skipped + 1 }
  else
    let author ← textAtIn articleNode authorQuery
    let publishedAt ← attributeAtIn articleNode timeQuery (utf8 "datetime")
    let complexity ← textAtIn articleNode complexityQuery
    let readingTime ← textAtIn articleNode readingTimeQuery
    let views ← viewsIn articleNode
    let votes ← textAtIn articleNode votesQuery
    let bookmarks ← textAtIn articleNode bookmarksQuery
    let comments ← textAtIn articleNode commentsQuery
    let hubs ← evaluateIn (some articleNode) (.relative hubsQuery)
    return { result with
      articles := result.articles ++ [
        { articleId := articleId
          url := resolve p.baseUrl href
          title := title
          author := author
          publishedAt := publishedAt
          hubs := (hubs.map fun node => textOf (some node)).filter (· ≠ [])
          complexity := complexity
          readingTime := readingTime
          votes := parseCount p.rounding votes
          views := parseCount p.rounding views
          bookmarks := parseCount p.rounding bookmarks
          comments := parseCount p.rounding comments }] }

/-- The loop, over the nodes that the query for articles finds. -/
def visitAll (p : HtmlParser) : StateM Context ParseResult := do
  let articleNodes ← evaluateIn none (.absolute articlesQuery)
  articleNodes.foldlM p.visitIn {}

/-- `HtmlParser::Parse`, with the context. -/
def parseIn (p : HtmlParser) (html : Bytes) : ParseResult :=
  if html = [] then {}
  else
    match p.libxml2.htmlReadMemory html (Int32.ofNat html.length) with
    | none => {}
    | some forest => (p.visitAll.run ⟨forest, none⟩).1

/-- **A round does not depend on the context** it finds. -/
theorem visitIn_run (p : HtmlParser) (result : ParseResult) (articleNode : Node)
    (ctx : Context) : ((p.visitIn result articleNode).run ctx).1 = p.visit result articleNode := by
  rw [StateT.run, visitIn, visit, parseArticle, bind_apply, evaluateIn_relative]
  dsimp only
  split
  · rfl
  · simp only [bind_apply, textAtIn_run, attributeAtIn_run, viewsIn_run, evaluateIn_relative]
    rfl

/-- **The loop** over the nodes, whatever the context holds when it begins. -/
theorem foldlM_visitIn_run (p : HtmlParser) (nodes : List Node) (result : ParseResult)
    (ctx : Context) :
    ((nodes.foldlM p.visitIn result : StateM Context ParseResult) ctx).1 =
      nodes.foldl p.visit result := by
  induction nodes generalizing result ctx with
  | nil => rfl
  | cons node nodes ih =>
    have hround : (p.visitIn result node ctx).1 = p.visit result node := visitIn_run p result node ctx
    rw [List.foldlM_cons, bind_apply, ih, hround, List.foldl_cons]

/-- **The context can be left out.** -/
theorem parseIn_eq (p : HtmlParser) (html : Bytes) : p.parseIn html = p.parse html := by
  unfold parseIn parse articleNodes
  by_cases hempty : html = []
  · rw [if_pos hempty, if_pos hempty]
    rfl
  · rw [if_neg hempty, if_neg hempty]
    cases p.libxml2.htmlReadMemory html (Int32.ofNat html.length) with
    | none => rfl
    | some forest => exact foldlM_visitIn_run p _ {} _

/-- **Every node is counted once**, as an article or as skipped. -/
theorem length_articles_add_skipped (p : HtmlParser) (html : Bytes) :
    (p.parse html).articles.length + (p.parse html).skipped = (p.articleNodes html).length := by
  have hfold : ∀ (nodes : List Node) (result : ParseResult),
      (nodes.foldl p.visit result).articles.length + (nodes.foldl p.visit result).skipped =
        result.articles.length + result.skipped + nodes.length := by
    intro nodes
    induction nodes with
    | nil => intro result; rfl
    | cons node nodes ih =>
      intro result
      have hone : (p.visit result node).articles.length + (p.visit result node).skipped =
          result.articles.length + result.skipped + 1 := by
        unfold visit
        cases p.parseArticle node with
        | none => rfl
        | some article =>
          simp only [List.length_append, List.length_singleton]
          omega
      rw [List.foldl_cons, ih, hone, List.length_cons]
      omega
  rw [parse, hfold]
  exact Nat.zero_add _

end HtmlParser

/-! ## Trimming leaves nothing to trim -/

/-- The string neither starts nor ends with ASCII white space or with U+00A0. -/
structure Trimmed (s : Bytes) : Prop where
  head : ∀ b ∈ s.head?, Strto.isSpace b = false
  last : ∀ b ∈ s.getLast?, Strto.isSpace b = false
  prefix_nbsp : ¬ [0xC2, 0xA0] <+: s
  suffix_nbsp : ¬ [0xC2, 0xA0] <:+ s

/-- What either loop does, with the two bytes of U+00A0 in the order in which it meets them. -/
def skipBlank (x y : UInt8) : Bytes → Bytes
  | [] => []
  | b :: s =>
    if Strto.isSpace b then skipBlank x y s
    else
      match s with
      | [] => [b]
      | c :: t => if b = x ∧ c = y then skipBlank x y t else b :: c :: t

theorem skipBlank_space {b : UInt8} (h : Strto.isSpace b = true) {x y : UInt8} (s : Bytes) :
    skipBlank x y (b :: s) = skipBlank x y s := by
  rw [skipBlank.eq_def]
  exact if_pos h

theorem trimLeft_eq (s : Bytes) : trimLeft s = skipBlank 0xC2 0xA0 s := by
  fun_induction trimLeft s with
  | case1 => rfl
  | case2 b s hspace ih => rw [ih, skipBlank_space hspace]
  | case3 b hspace => exact (if_neg hspace).symm
  | case4 b hspace c t hnbsp ih => rw [ih, skipBlank, if_neg hspace, if_pos hnbsp]
  | case5 b hspace c t hnbsp => rw [skipBlank, if_neg hspace, if_neg hnbsp]

theorem trimRightReversed_eq (s : Bytes) : trimRightReversed s = skipBlank 0xA0 0xC2 s := by
  fun_induction trimRightReversed s with
  | case1 => rfl
  | case2 b s hspace ih => rw [ih, skipBlank_space hspace]
  | case3 b hspace => exact (if_neg hspace).symm
  | case4 b hspace c t hnbsp ih => rw [ih, skipBlank, if_neg hspace, if_pos hnbsp.symm]
  | case5 b hspace c t hnbsp => rw [skipBlank, if_neg hspace, if_neg (mt And.symm hnbsp)]

section SkipBlank

variable (x y : UInt8)

/-- A loop stops at a string that starts with nothing blank. -/
theorem skipBlank_head (s : Bytes) :
    (∀ b ∈ (skipBlank x y s).head?, Strto.isSpace b = false) ∧ ¬ [x, y] <+: skipBlank x y s := by
  fun_induction skipBlank x y s with
  | case1 => simp
  | case2 b s hspace ih => exact ih
  | case3 b hspace => simp_all
  | case4 b hspace c t hnbsp ih => exact ih
  | case5 b hspace c t hnbsp =>
    refine ⟨by simpa using hspace, fun hprefix => hnbsp ?_⟩
    obtain ⟨u, hu⟩ := hprefix
    simp only [List.cons_append, List.nil_append, List.cons.injEq] at hu
    exact ⟨hu.1.symm, hu.2.1.symm⟩

/-- A loop only takes bytes away. -/
theorem skipBlank_suffix (s : Bytes) : skipBlank x y s <:+ s := by
  fun_induction skipBlank x y s with
  | case1 => exact List.suffix_rfl
  | case2 b s hspace ih => exact ih.trans (List.suffix_cons b s)
  | case3 b hspace => exact List.suffix_rfl
  | case4 b hspace c t hnbsp ih =>
    exact (ih.trans (List.suffix_cons c t)).trans (List.suffix_cons b (c :: t))
  | case5 b hspace c t hnbsp => exact List.suffix_rfl

/-- A string that starts with nothing blank is left as it is. -/
theorem skipBlank_eq_self {s : Bytes} (hhead : ∀ b ∈ s.head?, Strto.isSpace b = false)
    (hpair : ¬ [x, y] <+: s) : skipBlank x y s = s := by
  fun_cases skipBlank x y s with
  | case1 => rfl
  | case2 b s hspace => exact absurd hspace (by simp [hhead b rfl])
  | case3 b hspace => rfl
  | case4 b hspace c t hnbsp =>
    obtain ⟨rfl, rfl⟩ := hnbsp
    exact absurd ⟨t, rfl⟩ hpair
  | case5 b hspace c t hnbsp => rfl

end SkipBlank

/-- **A trimmed string has nothing left to trim.** -/
theorem trimmed_trim (s : Bytes) : Trimmed (trim s) := by
  obtain ⟨hhead, hprefix⟩ := skipBlank_head 0xC2 0xA0 s
  obtain ⟨hlast, hsuffix⟩ := skipBlank_head 0xA0 0xC2 (trimLeft s).reverse
  rw [← trimLeft_eq] at hhead hprefix
  rw [← trimRightReversed_eq] at hlast hsuffix
  -- what is left is the beginning of what the first loop has left
  have hbegin : trim s <+: trimLeft s := by
    have h := List.reverse_prefix.mpr (skipBlank_suffix 0xA0 0xC2 (trimLeft s).reverse)
    rwa [← trimRightReversed_eq, List.reverse_reverse] at h
  refine ⟨fun b hb => ?_, fun b hb => ?_, fun h => hprefix (h.trans hbegin), fun h => ?_⟩
  · obtain ⟨t, ht⟩ := List.head?_eq_some_iff.mp hb
    obtain ⟨u, hu⟩ := hbegin
    refine hhead b ?_
    rw [← hu, ht]
    rfl
  · rw [trim, List.getLast?_reverse] at hb
    exact hlast b hb
  · rw [trim, ← List.reverse_reverse [0xC2, 0xA0], List.reverse_suffix] at h
    exact hsuffix h

theorem trimmed_nil : Trimmed [] := ⟨by simp, by simp, by simp, by simp⟩

/-! ## What an article is made of -/

/-- The nodes of a forest in document order. -/
def documentOrder (forest : List Node) : List Node := (Node.walkForest [] forest).map Prod.snd

/-- A path leads to nodes of the forest, in document order. -/
theorem evaluate_sublist (path : XPath.Path) (forest : List Node) :
    (path.evaluate forest).Sublist (documentOrder forest) :=
  List.Sublist.map Prod.snd List.filter_sublist

/-- The node and the nodes below it. -/
def subtree (node : Node) : List Node := node :: documentOrder node.children

theorem mem_subtree_of_mem_evaluate {node n : Node} {path : XPath.Path}
    (h : n ∈ evaluate node path) : n ∈ subtree node :=
  List.mem_cons_of_mem _ ((evaluate_sublist path node.children).subset h)

/-- The string is read off the subtree of a node: it is the trimmed content or the trimmed value of
an attribute of a node in it, or empty where there is none. -/
def ReadFrom (node : Node) (s : Bytes) : Prop :=
  s = [] ∨ ∃ n ∈ subtree node,
    s = trim n.content ∨ ∃ name value, n.getProp name = some value ∧ s = trim value

theorem ReadFrom.trimmed {node : Node} {s : Bytes} (h : ReadFrom node s) : Trimmed s := by
  rcases h with rfl | ⟨n, -, rfl | ⟨name, value, -, rfl⟩⟩
  · exact trimmed_nil
  · exact trimmed_trim _
  · exact trimmed_trim _

theorem readFrom_textOf {node : Node} {found : Option Node} (h : ∀ n ∈ found, n ∈ subtree node) :
    ReadFrom node (textOf found) := by
  cases found with
  | none => exact Or.inl rfl
  | some n => exact Or.inr ⟨n, h n rfl, Or.inl rfl⟩

theorem readFrom_attributeOf {node : Node} {found : Option Node}
    (h : ∀ n ∈ found, n ∈ subtree node) (name : Bytes) :
    ReadFrom node (attributeOf found name) := by
  cases found with
  | none => exact Or.inl rfl
  | some n =>
    cases hvalue : n.getProp name with
    | none =>
      left
      simp only [attributeOf, hvalue]
    | some value =>
      right
      refine ⟨n, h n rfl, Or.inr ⟨name, value, hvalue, ?_⟩⟩
      simp only [attributeOf, hvalue]

/-- The first node that a query finds is in the subtree. -/
theorem mem_subtree_firstNode {node : Node} {path : XPath.Path} :
    ∀ n ∈ firstNode (evaluate node path), n ∈ subtree node := fun _ hn =>
  mem_subtree_of_mem_evaluate (List.mem_of_head? hn)

/-- The node has an id and a title, after trimming. -/
def isListed (node : Node) : Bool :=
  attributeOf (some node) (utf8 "id") ≠ [] &&
    textOf (firstNode (evaluate node titleQuery)) ≠ []

/-- The article that the listing owes to a node. -/
structure IsArticleOf (p : HtmlParser) (node : Node) (a : ParsedArticle) : Prop where
  articleId : a.articleId = attributeOf (some node) (utf8 "id")
  title : a.title = textOf (firstNode (evaluate node titleQuery))
  /-- Every text is read off the subtree of the node, and trimmed. -/
  texts : ∀ s ∈ [a.articleId, a.title, a.author, a.publishedAt, a.complexity, a.readingTime] ++
    a.hubs, ReadFrom node s ∧ Trimmed s
  /-- So is what the counters are parsed from. -/
  counters : ∀ c ∈ [a.votes, a.views, a.bookmarks, a.comments],
    ∃ s, ReadFrom node s ∧ c = parseCount p.rounding s
  /-- The hubs are the texts of the hub links below the node that are not empty, in order. -/
  hubs : a.hubs = ((evaluate node hubsQuery).map fun n => trim n.content).filter (· ≠ [])
  /-- The link is absent, or absolute, or behind the base URL. -/
  url : a.url = [] ∨ (utf8 "http" <+: a.url ∧ ReadFrom node a.url) ∨
    ∃ href, href ≠ [] ∧ href = hrefOf node ∧ ReadFrom node href ∧ a.url = p.baseUrl ++ href

/-- What `Parse` makes of the link of a node. -/
theorem resolve_cases (baseUrl : Bytes) (node : Node) :
    resolve baseUrl (hrefOf node) = [] ∨
      (utf8 "http" <+: resolve baseUrl (hrefOf node) ∧
        ReadFrom node (resolve baseUrl (hrefOf node))) ∨
      ∃ href, href ≠ [] ∧ href = hrefOf node ∧ ReadFrom node href ∧
        resolve baseUrl (hrefOf node) = baseUrl ++ href := by
  have hhref : ReadFrom node (hrefOf node) := readFrom_attributeOf mem_subtree_firstNode _
  by_cases hempty : hrefOf node = []
  · exact Or.inl (if_pos hempty)
  · right
    by_cases hhttp : (utf8 "http").isPrefixOf (hrefOf node) = true
    · left
      rw [resolve, if_neg hempty, if_pos hhttp]
      exact ⟨List.isPrefixOf_iff_prefix.mp hhttp, hhref⟩
    · right
      refine ⟨hrefOf node, hempty, rfl, hhref, ?_⟩
      rw [resolve, if_neg hempty, if_neg hhttp]

namespace HtmlParser

/-- **An article node makes an article of its own subtree**, exactly where it has an id and a
title. -/
theorem parseArticle_spec (p : HtmlParser) (node : Node) :
    (isListed node = false ∧ p.parseArticle node = none) ∨
      (isListed node = true ∧ ∃ a, p.parseArticle node = some a ∧ IsArticleOf p node a) := by
  by_cases hskip : attributeOf (some node) (utf8 "id") = [] ∨
      textOf (firstNode (evaluate node titleQuery)) = []
  · left
    refine ⟨?_, if_pos hskip⟩
    rcases hskip with h | h <;> simp [isListed, h]
  · right
    obtain ⟨hid, htitle⟩ := not_or.mp hskip
    have hself : ∀ n ∈ some node, n ∈ subtree node := by
      rintro n ⟨⟩
      exact List.mem_cons_self ..
    have htext : ∀ path, ReadFrom node (textAt node path) := fun _ =>
      readFrom_textOf mem_subtree_firstNode
    have hattribute : ∀ path name, ReadFrom node (attributeAt node path name) := fun _ =>
      readFrom_attributeOf mem_subtree_firstNode
    have hhubs : ∀ s ∈ hubsOf node, ReadFrom node s := by
      intro s hs
      obtain ⟨n, hn, rfl⟩ := List.mem_map.mp (List.mem_filter.mp hs).1
      exact readFrom_textOf (by rintro m ⟨⟩; exact mem_subtree_of_mem_evaluate hn)
    refine ⟨by simp [isListed, hid, htitle], _, if_neg hskip, ?_⟩
    refine ⟨rfl, rfl, ?_, ?_, rfl, ?_⟩
    · have hread : ∀ s ∈ [attributeOf (some node) (utf8 "id"), textAt node titleQuery,
          textAt node authorQuery, attributeAt node timeQuery (utf8 "datetime"),
          textAt node complexityQuery, textAt node readingTimeQuery] ++ hubsOf node,
          ReadFrom node s := by
        simp only [List.cons_append, List.nil_append, List.forall_mem_cons]
        exact ⟨readFrom_attributeOf hself _, htext _, htext _, hattribute _ _, htext _, htext _,
          hhubs⟩
      exact fun s hs => ⟨hread s hs, (hread s hs).trimmed⟩
    · have hviews : ReadFrom node
          (if attributeAt node viewsQuery (utf8 "title") = [] then textAt node viewsQuery
            else attributeAt node viewsQuery (utf8 "title")) := by
        split
        · exact htext _
        · exact hattribute _ _
      simp only [List.forall_mem_cons]
      exact ⟨⟨_, htext votesQuery, rfl⟩, ⟨_, hviews, rfl⟩, ⟨_, htext bookmarksQuery, rfl⟩,
        ⟨_, htext commentsQuery, rfl⟩, by simp⟩
    · exact resolve_cases p.baseUrl node

/-- The articles of a list of nodes, next to the nodes they come from. -/
theorem forall₂_parseArticle (p : HtmlParser) (nodes : List Node) :
    List.Forall₂ (IsArticleOf p) (nodes.filter isListed) (nodes.filterMap p.parseArticle) := by
  induction nodes with
  | nil => exact .nil
  | cons node nodes ih =>
    rcases p.parseArticle_spec node with ⟨hlisted, hnone⟩ | ⟨hlisted, a, hsome, ha⟩
    · rw [List.filter_cons_of_neg (by simp [hlisted]), List.filterMap_cons_none hnone]
      exact ih
    · rw [List.filter_cons_of_pos hlisted, List.filterMap_cons_some hsome]
      exact .cons ha ih

end HtmlParser

/-- Behind a base URL that begins with `http`, every link does that is not empty. -/
theorem IsArticleOf.prefix_http {p : HtmlParser} {node : Node} {a : ParsedArticle}
    (h : IsArticleOf p node a) (hbase : utf8 "http" <+: p.baseUrl) (hurl : a.url ≠ []) :
    utf8 "http" <+: a.url := by
  rcases h.url with hnil | ⟨hhttp, -⟩ | ⟨href, -, -, -, heq⟩
  · exact absurd hnil hurl
  · exact hhttp
  · rw [heq]
    exact hbase.trans (List.prefix_append _ _)

namespace HtmlParser

/-- **`Parse` partitions the listing.**  For every page and every base URL: articles and skipped
nodes together are as many as the article nodes, which stand in the document in this order; the
articles are, in that order, one for each node that has an id and a title, made of the subtree of
the node; behind a base URL that begins with `http` every link that is not empty does; and what a
round of the loop returns does not depend on the context that the rounds before have left. -/
theorem parse_partitions_listing (p : HtmlParser) (html : Bytes) :
    (p.parseIn html).articles.length + (p.parseIn html).skipped =
        (p.articleNodes html).length ∧
    (∀ forest, p.libxml2.htmlReadMemory html (Int32.ofNat html.length) = some forest →
      (p.articleNodes html).Sublist (documentOrder forest)) ∧
    List.Forall₂ (IsArticleOf p) ((p.articleNodes html).filter isListed)
      (p.parseIn html).articles ∧
    (utf8 "http" <+: p.baseUrl →
      ∀ a ∈ (p.parseIn html).articles, a.url ≠ [] → utf8 "http" <+: a.url) ∧
    ∀ (result : ParseResult) (node : Node) (ctx ctx' : Context),
      ((p.visitIn result node).run ctx).1 = ((p.visitIn result node).run ctx').1 := by
  have hall := p.forall₂_parseArticle (p.articleNodes html)
  rw [parseIn_eq, parse_articles]
  refine ⟨?_, fun forest hforest => ?_, hall, fun hbase a ha hurl => ?_, fun _ _ _ _ => ?_⟩
  · rw [← parse_articles]
    exact p.length_articles_add_skipped html
  · unfold articleNodes
    split
    · exact List.nil_sublist _
    · rw [hforest]
      exact evaluate_sublist _ _
  · obtain ⟨node, -, hnode⟩ := List.mem_filterMap.mp ha
    rcases p.parseArticle_spec node with ⟨-, hnone⟩ | ⟨-, b, hsome, hb⟩
    · exact absurd (hnode.symm.trans hnone) (by simp)
    · obtain rfl := Option.some.inj (hnode.symm.trans hsome)
      exact hb.prefix_http hbase hurl
  · rw [visitIn_run, visitIn_run]

end HtmlParser

end Parser
end HabrDigest
