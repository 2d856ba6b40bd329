import HabrDigest.Lib.XPathSyntax
import HabrDigest.Parser.HtmlParser

/-!
# The class selector

XPath 1.0 has no operator for "one of the words of an attribute", so `HasClass` writes the
usual idiom: the attribute is normalised and padded with spaces, the name is padded with
spaces, and `contains` looks for the one in the other.  Padding is what keeps `counter` from
being found in `tm-icon-counter__value`, and normalising is what makes one space enough on
either side, whatever stands between the words of the attribute.

`hasClass_iff` is the equivalence with membership, for the text that `HasClass` returns as an
engine reads it.  The class name is put between quotes unescaped, so it may not have one.
-/

namespace HabrDigest
namespace Parser

open XPath Tokens

/-- The text that `HasClass` returns. -/
def hasClassText (className : Bytes) : Bytes :=
  utf8 "contains(concat(' ', normalize-space(@class), ' '), ' " ++ className ++ utf8 " ')"

/-- **The text is read as the condition**, where no quote in the class name ends it early. -/
theorem compile_hasClassText {className : Bytes} (hquote : 0x27 ∉ className) :
    compile (hasClassText className) = some (hasClass className) := by
  have hspace : (0x27 : UInt8) ∉ utf8 " " := by decide
  have hname : IsName (utf8 "class") := ⟨0x63, utf8 "lass", by decide, by decide, by decide⟩
  rw [hasClassText, ← render_hasClass, hasClass]
  refine compile_render_contains ⟨hspace, hname, hspace⟩ ?_
  simp only [StringExpr.Readable, List.mem_append, not_or]
  exact ⟨⟨hspace, hquote⟩, hspace⟩

/-- An attribute that is absent is like an empty one: it has no words. -/
theorem mem_tokens_getD_iff (value : Option Bytes) (w : Bytes) :
    w ∈ tokens isSpace (value.getD []) ↔ ∃ v, value = some v ∧ w ∈ tokens isSpace v := by
  cases value <;> simp

/-- **The class selector matches whole class tokens.**  For every class name that is not empty
and has no white space and no quote, the condition that `HasClass` writes holds of a node exactly
when the node has a `class` attribute and the name is one of its white-space-separated tokens. -/
theorem hasClass_iff {className : Bytes} (hne : className ≠ [])
    (hspace : ∀ b ∈ className, isSpace b = false) (hquote : 0x27 ∉ className) (node : Node) :
    ∃ condition, compile (hasClassText className) = some condition ∧
      (condition.eval node = true ↔
        ∃ value, node.getProp (utf8 "class") = some value ∧
          className ∈ tokens isSpace value) := by
  refine ⟨hasClass className, compile_hasClassText hquote, ?_⟩
  rw [← mem_tokens_getD_iff]
  exact containsBytes_padded_iff ⟨hne, hspace⟩ _

/-- The span of the views. -/
def viewsSpan : Node :=
  .element (utf8 "span") [(utf8 "class", utf8 " tm-icon-counter__value\tmuted")] []

/-- `counter` is a part of one of its class tokens, and the token is selected only by its whole
name. -/
theorem hasClass_iff_viewsSpan :
    (∃ condition, compile (hasClassText (utf8 "counter")) = some condition ∧
      ¬ condition.eval viewsSpan = true) ∧
    ∃ condition, compile (hasClassText (utf8 "tm-icon-counter__value")) = some condition ∧
      condition.eval viewsSpan = true := by
  have hclass : viewsSpan.getProp (utf8 "class") = some (utf8 " tm-icon-counter__value\tmuted") := by
    decide
  have htokens : tokens isSpace (utf8 " tm-icon-counter__value\tmuted") =
      [utf8 "tm-icon-counter__value", utf8 "muted"] := by decide
  obtain ⟨c, hc, heval⟩ := @hasClass_iff (utf8 "counter") (by decide) (by decide) (by decide)
    viewsSpan
  obtain ⟨d, hd, heval'⟩ := @hasClass_iff (utf8 "tm-icon-counter__value") (by decide) (by decide)
    (by decide) viewsSpan
  refine ⟨⟨c, hc, ?_⟩, d, hd, ?_⟩
  · rw [heval, hclass]
    rintro ⟨value, hvalue, hmem⟩
    rw [← Option.some.inj hvalue, htokens] at hmem
    exact absurd hmem (by decide)
  · rw [heval', hclass]
    exact ⟨_, rfl, by rw [htokens]; decide⟩

end Parser
end HabrDigest
