import HabrDigest.Lib.Lines
import HabrDigest.Notifier.DigestWriter

/-!
# The web page

`services/web/src/html_view.cpp`: one page of HTML from the digests that are kept, the newest
first.  The latest digest is shown article by article, the others are only listed.

`FormatNumber` negates a negative counter, and for the least one the language says nothing
about the result.  Here it yields some `int64_t`, and `negatedMin` is that one; a compiler need not
even do that.
-/

namespace HabrDigest
namespace Web

open Messaging

/-- `kStyle`. -/
def kStyle : Bytes :=
  Lines.unlines 0x0A ([
    "",
    ":root \x7b",
    "  --bg: #f6f7f9; --card: #ffffff; --text: #1a1d21; --muted: #6b7280;",
    "  --accent: #2563eb; --line: #e3e6ea; --chip: #eef1f5;",
    "\x7d",
    "@media (prefers-color-scheme: dark) \x7b",
    "  :root \x7b",
    "    --bg: #16181c; --card: #1e2126; --text: #e8eaed; --muted: #9aa3ad;",
    "    --accent: #7aa2f7; --line: #2c3138; --chip: #262b32;",
    "  \x7d",
    "\x7d",
    "* \x7b box-sizing: border-box; \x7d",
    "body \x7b",
    "  margin: 0; padding: 32px 20px 64px;",
    "  background: var(--bg); color: var(--text);",
    "  font: 15px/1.55 -apple-system, BlinkMacSystemFont, \"Segoe UI\", Roboto, " ++
      "Helvetica, Arial, sans-serif;",
    "\x7d",
    ".wrap \x7b max-width: 820px; margin: 0 auto; \x7d",
    "header \x7b margin-bottom: 28px; \x7d",
    "h1 \x7b margin: 0 0 6px; font-size: 24px; letter-spacing: -0.01em; \x7d",
    ".meta \x7b color: var(--muted); font-size: 13px; \x7d",
    ".meta code \x7b font-family: ui-monospace, SFMono-Regular, Menlo, monospace; " ++
      "font-size: 12px; \x7d",
    ".item \x7b",
    "  background: var(--card); border: 1px solid var(--line); border-radius: 10px;",
    "  padding: 14px 16px; margin-bottom: 10px; display: flex; gap: 14px;",
    "\x7d",
    ".rank \x7b color: var(--muted); font-variant-numeric: tabular-nums; font-size: " ++
      "18px; min-width: 26px; \x7d",
    ".body \x7b min-width: 0; flex: 1; \x7d",
    ".title \x7b font-size: 16px; font-weight: 600; margin-bottom: 5px; \x7d",
    ".title a \x7b color: var(--text); text-decoration: none; \x7d",
    ".title a:hover \x7b color: var(--accent); text-decoration: underline; \x7d",
    ".byline \x7b color: var(--muted); font-size: 13px; margin-bottom: 8px; \x7d",
    ".hubs \x7b display: flex; flex-wrap: wrap; gap: 5px; margin-bottom: 8px; \x7d",
    ".hub \x7b background: var(--chip); color: var(--muted); border-radius: 5px; " ++
      "padding: 2px 7px; font-size: 12px; \x7d",
    ".stats \x7b display: flex; flex-wrap: wrap; gap: 14px; font-size: 13px; color: var(--muted);",
    "         font-variant-numeric: tabular-nums; \x7d",
    ".stats b \x7b color: var(--text); font-weight: 600; \x7d",
    ".empty \x7b",
    "  background: var(--card); border: 1px dashed var(--line); border-radius: 10px;",
    "  padding: 32px; text-align: center; color: var(--muted);",
    "\x7d",
    ".archive \x7b margin-top: 34px; border-top: 1px solid var(--line); padding-top: 16px; \x7d",
    ".archive h2 \x7b font-size: 13px; text-transform: uppercase; letter-spacing: 0.06em;",
    "              color: var(--muted); margin: 0 0 10px; font-weight: 600; \x7d",
    ".archive ul \x7b margin: 0; padding-left: 18px; color: var(--muted); font-size: 13px; \x7d",
    "footer \x7b margin-top: 28px; color: var(--muted); font-size: 12px; \x7d",
    "footer a \x7b color: var(--accent); \x7d"].map utf8)

/-- `EscapeHtml`. -/
def escapeHtml (value : Bytes) : Bytes :=
  value.flatMap fun ch =>
    if ch = 0x26 then utf8 "&amp;"
    else if ch = 0x3C then utf8 "&lt;"
    else if ch = 0x3E then utf8 "&gt;"
    else if ch = 0x22 then utf8 "&quot;"
    else if ch = 0x27 then utf8 "&#39;"
    else [ch]

/-- `-value`, with what the least value gives. -/
def negated (negatedMin value : Int64) : Int64 :=
  if value = Int64.minValue then negatedMin else -value

/-- The loop of `FormatNumber`, over the digits from the last one. -/
def groupDigits : ℕ → Bytes → Bytes
  | _, [] => []
  | seen, digit :: digits =>
    (if 0 < seen ∧ seen % 3 = 0 then utf8 " " else []) ++ digit :: groupDigits (seen + 1) digits

/-- `FormatNumber`. -/
def formatNumber (negatedMin value : Int64) : Bytes :=
  let digits := Numeral.ofInt (if value < 0 then negated negatedMin value else value).toInt
  let out := groupDigits 0 digits.reverse
  (if value < 0 then out ++ utf8 "-" else out).reverse

/-- `FormatScore`. -/
def formatScore (score : Double) : Bytes := Notifier.fixedOne score

/-- The author and the date, in `RenderArticle`. -/
def renderByline (article : DigestArticle) : Bytes :=
  if article.author = [] then []
  else
    utf8 "<div class=\"byline\">" ++ escapeHtml article.author ++
    (if article.publishedAt = [] then [] else utf8 " · " ++ escapeHtml article.publishedAt) ++
    utf8 "</div>"

/-- The hubs, in `RenderArticle`. -/
def renderHubs (hubs : List Bytes) : Bytes :=
  if hubs = [] then []
  else
    utf8 "<div class=\"hubs\">" ++
    hubs.flatMap
      (fun hub => utf8 "<span class=\"hub\">" ++ escapeHtml hub ++ utf8 "</span>") ++
    utf8 "</div>"

/-- `RenderArticle`. -/
def renderArticle (negatedMin : Int64) (rank : ℕ) (article : DigestArticle) : Bytes :=
  utf8 "<div class=\"item\">" ++
  utf8 "<div class=\"rank\">" ++ Numeral.digits rank ++ utf8 "</div>" ++
  utf8 "<div class=\"body\">" ++
  utf8 "<div class=\"title\"><a href=\"" ++ escapeHtml article.url ++
  utf8 "\" target=\"_blank\" rel=\"noopener noreferrer\">" ++ escapeHtml article.title ++
  utf8 "</a></div>" ++
  renderByline article ++
  renderHubs article.hubs ++
  utf8 "<div class=\"stats\">" ++
  utf8 "<span>рейтинг <b>" ++ formatNumber negatedMin article.votes ++ utf8 "</b></span>" ++
  utf8 "<span>просмотры <b>" ++ formatNumber negatedMin article.views ++ utf8 "</b></span>" ++
  utf8 "<span>закладки <b>" ++ formatNumber negatedMin article.bookmarks ++
  utf8 "</b></span>" ++
  utf8 "<span>комментарии <b>" ++ formatNumber negatedMin article.comments ++
  utf8 "</b></span>" ++
  utf8 "<span>score <b>" ++ formatScore article.score ++ utf8 "</b></span>" ++
  utf8 "</div>" ++
  utf8 "</div></div>"

/-- The articles of the latest digest, from a rank on. -/
def renderItems (negatedMin : Int64) : ℕ → List DigestArticle → Bytes
  | _, [] => []
  | rank, article :: articles =>
    renderArticle negatedMin rank article ++ renderItems negatedMin (rank + 1) articles

/-- The list of the digests before the latest one. -/
def renderArchive (previous : List DigestReadyMessage) : Bytes :=
  if previous = [] then []
  else utf8 "<div class=\"archive\"><h2>Предыдущие дайджесты</h2><ul>" ++
    previous.flatMap
      (fun digest => utf8 "<li>" ++ escapeHtml digest.generatedAt ++ utf8 " — " ++
        Numeral.digits digest.articles.length ++ utf8 " статей</li>") ++
    utf8 "</ul></div>"

/-- `RenderPage`. -/
def renderPage (negatedMin : Int64) (digests : List DigestReadyMessage) : Bytes :=
  utf8 "<!doctype html><html lang=\"ru\"><head><meta charset=\"utf-8\">" ++
  utf8 "<meta name=\"viewport\" content=\"width=device-width, initial-scale=1\">" ++
  utf8 "<meta http-equiv=\"refresh\" content=\"30\">" ++
  utf8 "<title>Habr digest</title><style>" ++ kStyle ++
  utf8 "</style></head><body><div class=\"wrap\">" ++
  utf8 "<header><h1>Habr digest</h1>" ++
  (match digests with
  | [] =>
    utf8 "<div class=\"meta\">Ожидаем первый дайджест от storage.</div></header>" ++
    utf8 "<div class=\"empty\">Пока пусто.<br>Дайджест появится здесь, как только storage " ++
    utf8 "опубликует его в <code>digest_ready</code>.</div>"
  | latest :: previous =>
    utf8 "<div class=\"meta\">Топ " ++ Numeral.digits latest.articles.length ++
    utf8 " за последние " ++ Numeral.digits latest.periodHours.toNat ++
    utf8 " ч · собран " ++ escapeHtml latest.generatedAt ++
    utf8 " · trace_id <code>" ++ escapeHtml latest.traceId ++ utf8 "</code></div></header>" ++
    renderItems negatedMin 1 latest.articles ++
    renderArchive previous) ++
  utf8 "</div></body></html>"

end Web
end HabrDigest
