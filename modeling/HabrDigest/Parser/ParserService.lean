import HabrDigest.Common.TimeUtil
import HabrDigest.Messaging.Consume
import HabrDigest.Parser.HtmlParser

/-!
# The parser service

`services/parser/src/parser_service.cpp`: one page in, one message with all its articles
out.  A payload that does not decode is rejected, a page without articles is acknowledged,
and otherwise the articles are published before the page is acknowledged; if they cannot be
published the page goes back to its queue.

`dump` stands outside of every `try` block of the handler, so a message that cannot be
encoded leaves it as an exception.  `handleRawArticles_throws_iff` says when that happens:
everything that comes from the page or from its message is text, so it is up to the base URL
alone, on a page that uses it.  Apart from that, a page is settled for good only when its
articles have been published (`pageDone_of_handleRawArticles`).
-/

namespace HabrDigest
namespace Parser

open Messaging Common

/-- The message of a page. -/
def parsedMessage (raw : RawArticlesMessage) (articles : List ParsedArticle) (now : ℤ) :
    ParsedArticlesMessage where
  fetchId := raw.fetchId
  sourceUrl := raw.sourceUrl
  parsedAt := nowIso8601Utc now
  traceId := raw.traceId
  articles := articles

/-- `ParserService::HandleRawArticles`, at a second, where `publishes` is what `Publish`
returns. -/
def handleRawArticles (n : Nlohmann) (p : HtmlParser) (now : ℤ) (publishes : Bool)
    (payload : Bytes) : Handled :=
  match n.decode RawArticlesMessage.codec payload with
  | none => ⟨some .kReject, []⟩
  | some raw =>
    let result := p.parse raw.rawHtml
    if result.articles = [] then ⟨some .kAck, []⟩
    else
      match n.encode ParsedArticlesMessage.codec (parsedMessage raw result.articles now) with
      | none => ⟨none, []⟩
      | some out => if publishes then ⟨some .kAck, [out]⟩ else ⟨some .kRequeue, []⟩

/-- **When the articles of a page can be encoded.** -/
theorem encode_parsed_isSome_iff (n : Nlohmann) (p : HtmlParser) (now : ℤ) {payload : Bytes}
    {raw : RawArticlesMessage} (hraw : n.decode RawArticlesMessage.codec payload = some raw) :
    (n.encode ParsedArticlesMessage.codec
      (parsedMessage raw (p.parse raw.rawHtml).articles now)).isSome = true ↔
        (p.UsesBaseUrl raw.rawHtml → Utf8.Valid p.baseUrl) := by
  obtain ⟨j, hj, hfrom⟩ := Option.bind_eq_some_iff.mp hraw
  have hvalid := RawArticlesMessage.valid_of_decode (n.validUtf8_of_parse _ _ hj) hfrom
  simp only [RawArticlesMessage.strings, List.forall_mem_cons] at hvalid
  rw [Nlohmann.encode_isSome_iff, ParsedArticlesMessage.validUtf8_toJson, ← p.parse_valid_iff]
  simp only [ParsedArticlesMessage.strings, parsedMessage, List.cons_append, List.nil_append,
    List.forall_mem_cons, List.forall_mem_flatMap]
  exact ⟨fun h => h.2.2.2.2, fun h =>
    ⟨hvalid.1, hvalid.2.1, valid_nowIso8601Utc now, hvalid.2.2.2.2.1, h⟩⟩

/-- A page that uses the base URL has an article. -/
theorem articles_ne_nil_of_usesBaseUrl {p : HtmlParser} {html : Bytes} (h : p.UsesBaseUrl html) :
    (p.parse html).articles ≠ [] := by
  obtain ⟨node, hnode, hkept, -⟩ := h
  obtain ⟨a, ha⟩ := Option.isSome_iff_exists.mp hkept
  rw [p.parse_articles]
  exact List.ne_nil_of_mem (List.mem_filterMap.mpr ⟨node, hnode, ha⟩)

/-- **When the handler throws**: on a page that uses the base URL, which is no text. -/
theorem handleRawArticles_throws_iff (n : Nlohmann) (p : HtmlParser) (now : ℤ) (publishes : Bool)
    (payload : Bytes) :
    (handleRawArticles n p now publishes payload).result = none ↔
      ∃ raw, n.decode RawArticlesMessage.codec payload = some raw ∧
        p.UsesBaseUrl raw.rawHtml ∧ ¬ Utf8.Valid p.baseUrl := by
  unfold handleRawArticles
  cases hraw : n.decode RawArticlesMessage.codec payload with
  | none => simp
  | some raw =>
    have hencodes := encode_parsed_isSome_iff n p now hraw
    simp only [Option.some.injEq, exists_eq_left']
    by_cases hempty : (p.parse raw.rawHtml).articles = []
    · rw [if_pos hempty]
      exact iff_of_false (by simp) fun h => articles_ne_nil_of_usesBaseUrl h.1 hempty
    · rw [if_neg hempty, ← Classical.not_imp, ← hencodes]
      cases n.encode ParsedArticlesMessage.codec (parsedMessage raw _ now) with
      | none => simp
      | some out => cases publishes <;> simp

/-- What has to be published before a page may be gone for good: nothing where the payload is
no page, or the page has no articles, and otherwise a message with the articles of the
page. -/
def PageDone (n : Nlohmann) (p : HtmlParser) (published : List Bytes) (payload : Bytes) : Prop :=
  n.decode RawArticlesMessage.codec payload = none ∨
    ∃ raw, n.decode RawArticlesMessage.codec payload = some raw ∧
      ((p.parse raw.rawHtml).articles = [] ∨
        ∃ out ∈ published, ∃ m, n.decode ParsedArticlesMessage.codec out = some m ∧
          m.fetchId = raw.fetchId ∧ m.sourceUrl = raw.sourceUrl ∧ m.traceId = raw.traceId ∧
          m.articles = (p.parse raw.rawHtml).articles)

theorem PageDone.mono {n : Nlohmann} {p : HtmlParser} {published published' : List Bytes}
    {payload : Bytes} (hsub : published ⊆ published') (h : PageDone n p published payload) :
    PageDone n p published' payload := by
  refine h.imp_right ?_
  rintro ⟨raw, hraw, harticles⟩
  refine ⟨raw, hraw, harticles.imp_right ?_⟩
  rintro ⟨out, hout, hm⟩
  exact ⟨out, hsub hout, hm⟩

/-- **A page is settled for good only when it is done**, if its articles can be encoded. -/
theorem pageDone_of_handleRawArticles (n : Nlohmann) (p : HtmlParser) (now : ℤ) (publishes : Bool)
    {payload : Bytes}
    (hbase : ∀ raw, n.decode RawArticlesMessage.codec payload = some raw →
      p.UsesBaseUrl raw.rawHtml → Utf8.Valid p.baseUrl)
    (hfinal : (handleRawArticles n p now publishes payload).decision ≠ .kRequeue) :
    PageDone n p (handleRawArticles n p now publishes payload).published payload := by
  cases hraw : n.decode RawArticlesMessage.codec payload with
  | none => exact Or.inl hraw
  | some raw =>
    refine Or.inr ⟨raw, hraw, ?_⟩
    unfold handleRawArticles at hfinal ⊢
    rw [hraw] at hfinal ⊢
    dsimp only at hfinal ⊢
    by_cases hempty : (p.parse raw.rawHtml).articles = []
    · exact Or.inl hempty
    · rw [if_neg hempty] at hfinal ⊢
      have hencodes := (encode_parsed_isSome_iff n p now hraw).mpr (hbase raw hraw)
      obtain ⟨out, hout⟩ := Option.isSome_iff_exists.mp hencodes
      rw [hout] at hfinal ⊢
      cases publishes with
      | false => exact absurd rfl hfinal
      | true =>
        refine Or.inr ⟨out, List.mem_singleton_self out, _,
          Nlohmann.decode_encode_of_lossless (ParsedArticlesMessage.lossless _) hout, ?_⟩
        exact ⟨rfl, rfl, rfl, rfl⟩

end Parser
end HabrDigest
