import HabrDigest.Lib.Numeral
import HabrDigest.Messaging.Messages
import Mathlib.Algebra.Order.Floor.Defs
import Mathlib.Data.Rat.Floor

/-!
# Writing a digest

`services/notifier/src/digest_writer.cpp`: the Markdown of a digest, and a file that is
written under a temporary name and renamed.

Which of the operating system's operations fail is left open.  An `ofstream` may keep what
was inserted until it is closed, and its destructor says nothing about a failure: `kept` is
how much of the content is in the file after that.
-/

namespace HabrDigest
namespace Notifier

open Messaging

/-! ## Markdown -/

/-- `JoinHubs`. -/
def joinHubs (hubs : List Bytes) : Bytes := (hubs.intersperse (utf8 ", ")).flatten

/-- The nearest natural number, the even one of two. -/
def roundHalfEven (q : ℚ) : ℕ :=
  let below := ⌊q⌋.toNat
  let rest := q - below
  if rest < 1 / 2 then below
  else if 1 / 2 < rest then below + 1
  else if below % 2 = 0 then below else below + 1

/-- `std::fixed << std::setprecision(1) << x`. -/
def fixedOne : Double → Bytes
  | .finite q =>
    let tenths := roundHalfEven (|q| * 10)
    (if q < 0 then utf8 "-" else []) ++ Numeral.digits (tenths / 10) ++ utf8 "." ++
      Numeral.digits (tenths % 10)
  | .posInf => utf8 "inf"
  | .negInf => utf8 "-inf"
  | .nan => utf8 "nan"

theorem isNumeric_fixedOne (x : Double) : ∀ b ∈ fixedOne x, Numeral.isNumeric b = true := by
  cases x with
  | finite q =>
    have hsign : ∀ b ∈ (if q < 0 then utf8 "-" else []), Numeral.isNumeric b = true := by
      split <;> decide
    have hpoint : ∀ b ∈ utf8 ".", Numeral.isNumeric b = true := by decide
    simp only [fixedOne, List.forall_mem_append]
    exact ⟨⟨⟨hsign, Numeral.isNumeric_digits⟩, hpoint⟩, Numeral.isNumeric_digits⟩
  | posInf => decide
  | negInf => decide
  | nan => decide

/-- The item of an article. -/
def renderArticle (position : ℕ) (article : DigestArticle) : Bytes :=
  Numeral.digits position ++ utf8 ". **[" ++ article.title ++ utf8 "](" ++ article.url ++
    utf8 ")**\n" ++
  (if article.author = [] then [] else utf8 "   - author: " ++ article.author ++ utf8 "\n") ++
  (if article.hubs = [] then [] else utf8 "   - hubs: " ++ joinHubs article.hubs ++ utf8 "\n") ++
  (if article.publishedAt = [] then []
    else utf8 "   - published: " ++ article.publishedAt ++ utf8 "\n") ++
  utf8 "   - rating " ++ Numeral.ofInt article.votes.toInt ++ utf8 " · views " ++
    Numeral.ofInt article.views.toInt ++ utf8 " · bookmarks " ++
    Numeral.ofInt article.bookmarks.toInt ++ utf8 " · comments " ++
    Numeral.ofInt article.comments.toInt ++ utf8 "\n" ++
  utf8 "   - score " ++ fixedOne article.score ++ utf8 "\n\n"

/-- The items of the articles, from a position on. -/
def renderArticles : ℕ → List DigestArticle → Bytes
  | _, [] => []
  | position, article :: articles =>
    renderArticle position article ++ renderArticles (position + 1) articles

/-- `RenderDigestMarkdown`. -/
def renderDigestMarkdown (digest : DigestReadyMessage) : Bytes :=
  utf8 "# Habr digest — " ++ digest.generatedAt ++ utf8 "\n\n" ++
  utf8 "Top " ++ Numeral.digits digest.articles.length ++ utf8 " of the last " ++
    Numeral.digits digest.periodHours.toNat ++ utf8 " hours. _trace_id: " ++ digest.traceId ++
    utf8 "_\n\n" ++
  renderArticles 1 digest.articles

/-! ## Files -/

/-- The files, by path. -/
abbrev Files := Bytes → Option Bytes

/-- What the operations of one `WriteFileAtomically` do. -/
structure WriteCalls where
  /-- The temporary file can be opened. -/
  opens : Bool
  /-- The stream is good after the content was inserted. -/
  inserts : Bool
  /-- How many bytes are in the file once it is closed, none for all of them. -/
  kept : Option ℕ
  renames : Bool
  removes : Bool

/-- `WriteFileAtomically`: whether it returns, and the files afterwards. -/
def writeFileAtomically (calls : WriteCalls) (path content : Bytes) (files : Files) :
    Bool × Files :=
  let temporary := path ++ utf8 ".tmp"
  if calls.opens = false then (false, files)
  else
    let written := (calls.kept.map fun k => content.take k).getD content
    let files := Function.update files temporary (some written)
    if calls.inserts = false then (false, files)
    else if calls.renames = false then
      (false, if calls.removes then Function.update files temporary none else files)
    else (true, Function.update (Function.update files temporary none) path (some written))

end Notifier
end HabrDigest
