import HabrDigest.Lib.Bytes
import HabrDigest.Lib.Tokens
import Mathlib.Data.List.Infix

/-!
# Document trees and location paths

A document is a forest of nodes, and what is modelled of XPath 1.0 is the part in which
an element is looked for below another by its name and by conditions on its attributes:
descendant steps, `contains`, `concat`, `normalize-space`, and the presence of an
attribute.

`walkForest` walks a forest in document order and gives every node together with its
ancestors, nearest first; a path of several steps is then a condition on a node and its
ancestors (`Path.accepts`), and a node that is reached in several ways is still one entry.
Expressions are syntax trees, with `render` for the text that a program writes.
-/

namespace HabrDigest

/-- A node of a document. -/
inductive Node where
  | text (content : Bytes)
  | element (name : Bytes) (attributes : List (Bytes × Bytes)) (children : List Node)
  /-- A comment or a processing instruction. -/
  | other
  deriving Repr

namespace Node

/-- The children of a node. -/
def children : Node → List Node
  | element _ _ cs => cs
  | text _ | other => []

/-- `xmlGetProp`: the value of an attribute. -/
def getProp (key : Bytes) : Node → Option Bytes
  | element _ as _ => as.lookup key
  | text _ | other => none

mutual

/-- `xmlNodeGetContent`: the texts below a node, one after another. -/
def content : Node → Bytes
  | .text c => c
  | .element _ _ cs => contents cs
  | .other => []

/-- The texts below the nodes of a forest. -/
def contents : List Node → Bytes
  | [] => []
  | c :: cs => content c ++ contents cs

end

mutual

/-- A node and the nodes below it, in document order, each with its ancestors. -/
def walk (ancestors : List Node) : Node → List (List Node × Node)
  | .text c => [(ancestors, .text c)]
  | .element name as cs =>
    (ancestors, .element name as cs) :: walkForest (.element name as cs :: ancestors) cs
  | .other => [(ancestors, .other)]

/-- The nodes of a forest. -/
def walkForest (ancestors : List Node) : List Node → List (List Node × Node)
  | [] => []
  | c :: cs => walk ancestors c ++ walkForest ancestors cs

end

mutual

/-- A condition on the texts of a node and of everything below it. -/
def AllTexts (P : Bytes → Prop) : Node → Prop
  | .text c => P c
  | .element _ as cs => (∀ a ∈ as, P a.2) ∧ AllTextsOf P cs
  | .other => True

/-- A condition on the texts of a forest. -/
def AllTextsOf (P : Bytes → Prop) : List Node → Prop
  | [] => True
  | c :: cs => AllTexts P c ∧ AllTextsOf P cs

end

mutual

/-- A weaker condition. -/
theorem AllTexts.imp {P Q : Bytes → Prop} (hPQ : ∀ s, P s → Q s) :
    ∀ {n : Node}, n.AllTexts P → n.AllTexts Q
  | .text _, h => hPQ _ h
  | .element _ _ _, h => ⟨fun a ha => hPQ _ (h.1 a ha), AllTexts.impOf hPQ h.2⟩
  | .other, _ => trivial

theorem AllTexts.impOf {P Q : Bytes → Prop} (hPQ : ∀ s, P s → Q s) :
    ∀ {cs : List Node}, AllTextsOf P cs → AllTextsOf Q cs
  | [], _ => trivial
  | _ :: _, h => ⟨AllTexts.imp hPQ h.1, AllTexts.impOf hPQ h.2⟩

end

mutual

/-- What is below a node has the texts of the node. -/
theorem AllTexts.of_mem_walk {P : Bytes → Prop} {ancestors : List Node} {p : List Node × Node} :
    ∀ {n : Node}, n.AllTexts P → p ∈ walk ancestors n → p.2.AllTexts P
  | .text c, h, hp => by
    obtain rfl := List.mem_singleton.mp hp
    exact h
  | .element name as cs, h, hp => by
    rcases List.mem_cons.mp hp with rfl | hp
    · exact h
    · exact AllTexts.of_mem_walkForest h.2 hp
  | .other, h, hp => by
    obtain rfl := List.mem_singleton.mp hp
    exact h

/-- What is in a forest has the texts of the forest. -/
theorem AllTexts.of_mem_walkForest {P : Bytes → Prop} {ancestors : List Node}
    {p : List Node × Node} :
    ∀ {cs : List Node}, AllTextsOf P cs → p ∈ walkForest ancestors cs → p.2.AllTexts P
  | [], _, hp => absurd hp (by simp [walkForest])
  | c :: cs, h, hp => by
    rcases List.mem_append.mp hp with hp | hp
    · exact AllTexts.of_mem_walk h.1 hp
    · exact AllTexts.of_mem_walkForest h.2 hp

end

theorem AllTexts.children {P : Bytes → Prop} {n : Node} (h : n.AllTexts P) :
    AllTextsOf P n.children := by
  cases n with
  | element name as cs => exact h.2
  | _ => trivial

theorem AllTexts.getProp {P : Bytes → Prop} {n : Node} (h : n.AllTexts P) {key v : Bytes}
    (hv : n.getProp key = some v) : P v := by
  cases n with
  | element name as cs =>
    obtain ⟨l₁, l₂, has, -⟩ := List.lookup_eq_some_iff.mp hv
    refine h.1 (key, v) ?_
    rw [has]
    simp
  | _ => exact absurd hv (by simp [Node.getProp])

mutual

/-- A condition that concatenation keeps holds of the text content. -/
theorem AllTexts.content {P : Bytes → Prop} (hnil : P [])
    (happend : ∀ s t, P s → P t → P (s ++ t)) :
    ∀ {n : Node}, n.AllTexts P → P n.content
  | .text _, h => h
  | .element _ _ _, h => AllTexts.contents hnil happend h.2
  | .other, _ => hnil

theorem AllTexts.contents {P : Bytes → Prop} (hnil : P [])
    (happend : ∀ s t, P s → P t → P (s ++ t)) :
    ∀ {cs : List Node}, AllTextsOf P cs → P (contents cs)
  | [], _ => hnil
  | _ :: _, h =>
    happend _ _ (AllTexts.content hnil happend h.1) (AllTexts.contents hnil happend h.2)

end

end Node

namespace XPath

/-! ## Expressions -/

/-- White space: space, tab, carriage return, line feed. -/
def isSpace (b : UInt8) : Bool := b = 0x20 || b = 0x09 || b = 0x0D || b = 0x0A

/-- The scan behind `normalize-space`: whether anything has been written, and whether white
space has been passed since. -/
def normalizeFrom (started pending : Bool) : Bytes → Bytes
  | [] => []
  | b :: s =>
    if isSpace b then normalizeFrom started started s
    else (if pending then [0x20] else []) ++ b :: normalizeFrom true false s

/-- `normalize-space`: white space is stripped at both ends, and every run of it inside
becomes one space. -/
def normalizeSpace (s : Bytes) : Bytes := normalizeFrom false false s

/-- `contains`. -/
def containsBytes (s t : Bytes) : Bool := s.tails.any (t.isPrefixOf ·)

/-- An expression whose value is a string. -/
inductive StringExpr where
  | literal (s : Bytes)
  /-- The value of an attribute, the empty string where there is none. -/
  | attr (name : Bytes)
  | normalizeSpace (e : StringExpr)
  | concat (e₁ e₂ e₃ : StringExpr)
  deriving DecidableEq, Repr

/-- A condition on a node. -/
inductive Predicate where
  | contains (e₁ e₂ : StringExpr)
  | hasAttribute (name : Bytes)
  | and (p q : Predicate)
  deriving DecidableEq, Repr

namespace StringExpr

/-- The value at a node. -/
def eval (n : Node) : StringExpr → Bytes
  | literal s => s
  | attr name => (n.getProp name).getD []
  | normalizeSpace e => XPath.normalizeSpace (e.eval n)
  | concat e₁ e₂ e₃ => e₁.eval n ++ e₂.eval n ++ e₃.eval n

/-- The text of the expression. -/
def render : StringExpr → Bytes
  | literal s => utf8 "'" ++ s ++ utf8 "'"
  | attr name => utf8 "@" ++ name
  | normalizeSpace e => utf8 "normalize-space(" ++ e.render ++ utf8 ")"
  | concat e₁ e₂ e₃ =>
    utf8 "concat(" ++ e₁.render ++ utf8 ", " ++ e₂.render ++ utf8 ", " ++ e₃.render ++ utf8 ")"

end StringExpr

namespace Predicate

/-- Whether the condition holds at a node. -/
def eval (n : Node) : Predicate → Bool
  | contains e₁ e₂ => containsBytes (e₁.eval n) (e₂.eval n)
  | hasAttribute name => (n.getProp name).isSome
  | and p q => p.eval n && q.eval n

/-- The text of the condition. -/
def render : Predicate → Bytes
  | contains e₁ e₂ => utf8 "contains(" ++ e₁.render ++ utf8 ", " ++ e₂.render ++ utf8 ")"
  | hasAttribute name => utf8 "@" ++ name
  | and p q => p.render ++ utf8 " and " ++ q.render

end Predicate

/-! ## Location paths -/

/-- A step: the name of an element and a condition on it. -/
structure Step where
  name : Bytes
  condition : Predicate
  deriving DecidableEq, Repr

/-- Whether a step accepts a node. -/
def Step.accepts (s : Step) (n : Node) : Bool :=
  match n with
  | .element name _ _ => name == s.name && s.condition.eval n
  | .text _ | .other => false

def Step.render (s : Step) : Bytes := s.name ++ utf8 "[" ++ s.condition.render ++ utf8 "]"

/-- A path of descendant steps. -/
inductive Path where
  | step (s : Step)
  | under (p : Path) (s : Step)
  deriving DecidableEq, Repr

namespace Path

/-- Whether a path leads to a node, given its ancestors below the context. -/
def accepts : Path → List Node → Node → Bool
  | step s, _, n => s.accepts n
  | under p s, ancestors, n =>
    s.accepts n && ancestors.tails.any fun
      | [] => false
      | a :: as => p.accepts as a

/-- The text of a path that starts at the root. -/
def render : Path → Bytes
  | step s => utf8 "//" ++ s.render
  | under p s => p.render ++ utf8 "//" ++ s.render

/-- The nodes of a forest that a path leads to, in document order. -/
def evaluate (p : Path) (forest : List Node) : List Node :=
  ((Node.walkForest [] forest).filter fun q => p.accepts q.1 q.2).map Prod.snd

/-- What is selected has the texts of the forest. -/
theorem allTexts_of_mem_evaluate {P : Bytes → Prop} {p : Path} {forest : List Node} {n : Node}
    (h : Node.AllTextsOf P forest) (hn : n ∈ p.evaluate forest) : n.AllTexts P := by
  obtain ⟨q, hq, rfl⟩ := List.mem_map.mp hn
  exact Node.AllTexts.of_mem_walkForest h (List.mem_filter.mp hq).1

end Path

/-! ## White space and tokens -/

open Tokens

/-- The scan, in each of the three states it can be in: before the first token, behind white
space, and inside a token. -/
theorem normalizeFrom_eq (s : Bytes) :
    normalizeFrom false false s = [0x20].intercalate (tokens isSpace s) ∧
    normalizeFrom true true s = spaced 0x20 (tokens isSpace s) ∧
    normalizeFrom true false s = s.takeWhile (!isSpace ·) ++
      spaced 0x20 (tokens isSpace (s.dropWhile (!isSpace ·))) := by
  induction s with
  | nil => exact ⟨rfl, rfl, rfl⟩
  | cons b s ih =>
    obtain ⟨hbefore, hbehind, hinside⟩ := ih
    cases hb : isSpace b with
    | true =>
      have htake : (b :: s).takeWhile (!isSpace ·) = [] :=
        List.takeWhile_cons_of_neg (by simp [hb])
      have hdrop : (b :: s).dropWhile (!isSpace ·) = b :: s :=
        List.dropWhile_cons_of_neg (by simp [hb])
      rw [htake, hdrop, tokens_cons_sep hb]
      simp only [normalizeFrom, hb, if_true]
      exact ⟨hbefore, hbehind, hbehind⟩
    | false =>
      have htake : (b :: s).takeWhile (!isSpace ·) = b :: s.takeWhile (!isSpace ·) :=
        List.takeWhile_cons_of_pos (by simp [hb])
      have hdrop : (b :: s).dropWhile (!isSpace ·) = s.dropWhile (!isSpace ·) :=
        List.dropWhile_cons_of_pos (by simp [hb])
      rw [htake, hdrop, tokens_cons_letter hb, intercalate_cons]
      simp only [normalizeFrom, hb, Bool.false_eq_true, if_false, if_true, hinside]
      exact ⟨rfl, rfl, rfl⟩

/-- **`normalize-space` joins the tokens with single spaces.** -/
theorem normalizeSpace_eq (s : Bytes) :
    normalizeSpace s = [0x20].intercalate (tokens isSpace s) :=
  (normalizeFrom_eq s).1

/-- `contains` looks for a part. -/
theorem containsBytes_iff {s t : Bytes} : containsBytes s t = true ↔ t <:+: s := by
  rw [containsBytes, List.any_eq_true]
  simp only [List.mem_tails, List.isPrefixOf_iff_prefix]
  exact ⟨fun ⟨_, hsuffix, hprefix⟩ => hprefix.isInfix.trans hsuffix.isInfix,
    fun h => (List.infix_iff_prefix_suffix.mp h).imp fun _ h => ⟨h.2, h.1⟩⟩

/-- **The token test.**  Padded with spaces and normalised, a string contains a padded word
exactly when the word is one of its tokens. -/
theorem containsBytes_padded_iff {w : Bytes} (hw : IsWord isSpace w) (s : Bytes) :
    containsBytes ([0x20] ++ normalizeSpace s ++ [0x20]) ([0x20] ++ w ++ [0x20]) = true ↔
      w ∈ tokens isSpace s := by
  rw [containsBytes_iff, normalizeSpace_eq]
  exact infix_padded_iff (by decide) hw _ fun _ => isWord_of_mem_tokens

example : normalizeSpace (utf8 " \t a  b\n") = utf8 "a b" := by decide

end XPath
end HabrDigest
