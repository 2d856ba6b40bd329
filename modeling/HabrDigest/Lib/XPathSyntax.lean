import HabrDigest.Lib.XPath

/-!
# Reading conditions

A program hands a condition to an XPath engine as text.  The engine first cuts the text into
tokens --- names, literals between quotes, and the punctuation of calls, with white space
between tokens skipped and every name as long as it can be --- and then reads an expression
off the tokens.  `compile` does both for the conditions of `HabrDigest.Lib.XPath` that have no
`and`.

`compile_render_contains` is the round trip: the text of a condition is read back as the
condition, if no literal in it has a quote and its names are names.  That is the whole
protection against a literal that is put together from parts: a quote in a part ends the
literal early, and what follows is read as something else.
-/

namespace HabrDigest
namespace XPath

/-! ## Tokens -/

/-- A token of an expression. -/
inductive Token where
  | lparen
  | rparen
  | comma
  | attribute
  | name (s : Bytes)
  | literal (s : Bytes)
  deriving DecidableEq, Repr

/-- A byte that a name may have after its first one. -/
def isNameByte (b : UInt8) : Bool :=
  (0x61 ≤ b && b ≤ 0x7A) || (0x41 ≤ b && b ≤ 0x5A) || (0x30 ≤ b && b ≤ 0x39) || b = 0x2D ||
    b = 0x2E || b = 0x5F || 0x80 ≤ b

/-- A byte that a name may begin with. -/
def isNameStart (b : UInt8) : Bool :=
  (0x61 ≤ b && b ≤ 0x7A) || (0x41 ≤ b && b ≤ 0x5A) || b = 0x5F || 0x80 ≤ b

/-- Where the scan for tokens stands. -/
inductive LexState where
  | between
  /-- Inside a name, with what has been read of it. -/
  | name (s : Bytes)
  /-- Inside a literal, with its quote and what has been read of it. -/
  | literal (quote : UInt8) (s : Bytes)
  deriving DecidableEq, Repr

/-- The first byte of a token, or white space: the token it makes, if it is one by itself, and
the state behind it. -/
def lexStart (b : UInt8) : Option (List Token × LexState) :=
  if isSpace b then some ([], .between)
  else if b = 0x28 then some ([.lparen], .between)
  else if b = 0x29 then some ([.rparen], .between)
  else if b = 0x2C then some ([.comma], .between)
  else if b = 0x40 then some ([.attribute], .between)
  else if b = 0x27 ∨ b = 0x22 then some ([], .literal b [])
  else if isNameStart b then some ([], .name [b])
  else none

/-- One byte. -/
def lexStep : LexState → UInt8 → Option (List Token × LexState)
  | .between, b => lexStart b
  | .name s, b =>
    if isNameByte b then some ([], .name (s ++ [b]))
    else (lexStart b).map fun r => (.name s :: r.1, r.2)
  | .literal quote s, b =>
    if b = quote then some ([.literal s], .between) else some ([], .literal quote (s ++ [b]))

/-- The tokens of a text, from a state. -/
def lexFrom : LexState → Bytes → Option (List Token)
  | .between, [] => some []
  | .name s, [] => some [.name s]
  | .literal _ _, [] => none
  | q, b :: s => (lexStep q b).bind fun r => (lexFrom r.2 s).map (r.1 ++ ·)

/-- The tokens of a text. -/
def lex (s : Bytes) : Option (List Token) := lexFrom .between s

/-! ## Expressions -/

/-- A string expression at the front of the tokens, and what follows it. -/
def readString : ℕ → List Token → Option (StringExpr × List Token)
  | _, .literal s :: ts => some (.literal s, ts)
  | _, .attribute :: .name n :: ts => some (.attr n, ts)
  | fuel + 1, .name f :: .lparen :: ts =>
    if f = utf8 "normalize-space" then
      match readString fuel ts with
      | some (e, .rparen :: ts) => some (.normalizeSpace e, ts)
      | _ => none
    else if f = utf8 "concat" then
      match readString fuel ts with
      | some (e₁, .comma :: ts) =>
        match readString fuel ts with
        | some (e₂, .comma :: ts) =>
          match readString fuel ts with
          | some (e₃, .rparen :: ts) => some (.concat e₁ e₂ e₃, ts)
          | _ => none
        | _ => none
      | _ => none
    else none
  | _, _ => none

/-- A condition: a call of `contains`, or an attribute. -/
def readCondition : List Token → Option Predicate
  | [.attribute, .name n] => some (.hasAttribute n)
  | .name f :: .lparen :: ts =>
    if f = utf8 "contains" then
      match readString ts.length ts with
      | some (e₁, .comma :: ts) =>
        match readString ts.length ts with
        | some (e₂, [.rparen]) => some (.contains e₁ e₂)
        | _ => none
      | _ => none
    else none
  | _ => none

/-- What an engine makes of the text of a condition. -/
def compile (text : Bytes) : Option Predicate := (lex text).bind readCondition

/-! ## The text of an expression -/

/-- A name, as the grammar has it. -/
def IsName (n : Bytes) : Prop :=
  ∃ b s, n = b :: s ∧ isNameStart b = true ∧ ∀ c ∈ s, isNameByte c = true

/-- The literals have no quote in them, and the names are names. -/
def StringExpr.Readable : StringExpr → Prop
  | .literal s => 0x27 ∉ s
  | .attr n => IsName n
  | .normalizeSpace e => e.Readable
  | .concat e₁ e₂ e₃ => e₁.Readable ∧ e₂.Readable ∧ e₃.Readable

/-- The tokens of an expression. -/
def StringExpr.tokens : StringExpr → List Token
  | .literal s => [.literal s]
  | .attr n => [.attribute, .name n]
  | .normalizeSpace e => .name (utf8 "normalize-space") :: .lparen :: (e.tokens ++ [.rparen])
  | .concat e₁ e₂ e₃ =>
    .name (utf8 "concat") :: .lparen ::
      (e₁.tokens ++ .comma :: (e₂.tokens ++ .comma :: (e₃.tokens ++ [.rparen])))

/-- The text ends a name before it: it begins with a byte that no name has. -/
def Delimits (s : Bytes) : Prop := ∃ b t, s = b :: t ∧ isNameByte b = false

/-! ## Scanning the text of an expression -/

theorem lexFrom_cons (q : LexState) (b : UInt8) (s : Bytes) :
    lexFrom q (b :: s) = (lexStep q b).bind fun r => (lexFrom r.2 s).map (r.1 ++ ·) := by
  cases q <;> rfl

/-- A byte that ends no token. -/
theorem lexFrom_silent {q r : LexState} {b : UInt8} (h : lexStep q b = some ([], r)) (s : Bytes) :
    lexFrom q (b :: s) = lexFrom r s := by
  rw [lexFrom_cons, h]
  exact Option.map_id'

/-- A byte that ends one. -/
theorem lexFrom_ends {q : LexState} {b : UInt8} {t : Token}
    (h : lexStep q b = some ([t], .between)) (s : Bytes) :
    lexFrom q (b :: s) = (lex s).map (t :: ·) := by
  rw [lexFrom_cons, h]
  rfl

/-- The first byte of a name. -/
theorem lexStart_of_isNameStart {b : UInt8} (h : isNameStart b = true) :
    lexStart b = some ([], .name [b]) := by
  have hne : ∀ c : UInt8, isNameStart c = false → b ≠ c := by
    rintro c hc rfl
    exact absurd h (by simp [hc])
  have hspace : isSpace b = false := by
    simp [isSpace, hne 0x20 (by decide), hne 0x09 (by decide), hne 0x0D (by decide),
      hne 0x0A (by decide)]
  simp [lexStart, hspace, h, hne 0x28 (by decide), hne 0x29 (by decide), hne 0x2C (by decide),
    hne 0x40 (by decide), hne 0x27 (by decide), hne 0x22 (by decide)]

/-- The rest of a name, up to a byte that no name has. -/
theorem lexFrom_name {n s : Bytes} (hn : ∀ c ∈ n, isNameByte c = true) (hs : Delimits s)
    (read : Bytes) :
    lexFrom (.name read) (n ++ s) = (lex s).map (.name (read ++ n) :: ·) := by
  induction n generalizing read with
  | nil =>
    obtain ⟨b, t, rfl, hb⟩ := hs
    rw [List.append_nil, List.nil_append, lex, lexFrom_cons, lexFrom_cons]
    simp only [lexStep, hb, Bool.false_eq_true, if_false]
    cases lexStart b with
    | none => rfl
    | some r =>
      simp only [Option.map_some, Option.bind_some, Option.map_map]
      rfl
  | cons c n ih =>
    have hc : lexStep (.name read) c = some ([], .name (read ++ [c])) :=
      if_pos (hn c (List.mem_cons_self ..))
    rw [List.cons_append, lexFrom_silent hc, ih fun d hd => hn d (List.mem_cons_of_mem _ hd),
      List.append_assoc]
    rfl

/-- **A name is one token.** -/
theorem lex_name {n s : Bytes} (hn : IsName n) (hs : Delimits s) :
    lex (n ++ s) = (lex s).map (.name n :: ·) := by
  obtain ⟨b, t, rfl, hb, ht⟩ := hn
  rw [lex, List.cons_append, lexFrom_silent (q := .between) (lexStart_of_isNameStart hb),
    lexFrom_name ht hs]
  rfl

/-- The rest of a literal, up to its quote. -/
theorem lexFrom_literal {l : Bytes} (hl : 0x27 ∉ l) (read s : Bytes) :
    lexFrom (.literal 0x27 read) (l ++ 0x27 :: s) =
      (lex s).map (.literal (read ++ l) :: ·) := by
  induction l generalizing read with
  | nil =>
    rw [List.nil_append, List.append_nil]
    exact lexFrom_ends (q := .literal 0x27 read) (if_pos rfl) s
  | cons c l ih =>
    have hc : c ≠ 0x27 := fun hc => hl (hc ▸ List.mem_cons_self ..)
    have hstep : lexStep (.literal 0x27 read) c = some ([], .literal 0x27 (read ++ [c])) :=
      if_neg hc
    rw [List.cons_append, lexFrom_silent hstep, ih fun hm => hl (List.mem_cons_of_mem _ hm),
      List.append_assoc]
    rfl

/-- **A literal without quotes is one token.** -/
theorem lex_literal {l : Bytes} (hl : 0x27 ∉ l) (s : Bytes) :
    lex (0x27 :: (l ++ 0x27 :: s)) = (lex s).map (.literal l :: ·) := by
  have hquote : lexStep .between 0x27 = some ([], .literal 0x27 []) := by decide
  rw [lex, lexFrom_silent hquote, lexFrom_literal hl]
  rfl

/-- Punctuation. -/
theorem lex_comma (s : Bytes) : lex (0x2C :: 0x20 :: s) = (lex s).map (.comma :: ·) := by
  rw [lex, lexFrom_ends (t := .comma) (by decide), lex]
  exact congrArg _ (lexFrom_silent (by decide) s)

theorem lex_lparen (s : Bytes) : lex (0x28 :: s) = (lex s).map (.lparen :: ·) :=
  lexFrom_ends (by decide) s

theorem lex_rparen (s : Bytes) : lex (0x29 :: s) = (lex s).map (.rparen :: ·) :=
  lexFrom_ends (by decide) s

theorem lex_attribute (s : Bytes) : lex (0x40 :: s) = (lex s).map (.attribute :: ·) :=
  lexFrom_ends (by decide) s

theorem delimits_comma (s : Bytes) : Delimits (0x2C :: s) := ⟨0x2C, s, rfl, by decide⟩

theorem delimits_rparen (s : Bytes) : Delimits (0x29 :: s) := ⟨0x29, s, rfl, by decide⟩

/-- The name of a function and the parenthesis behind it. -/
theorem lex_call {f : Bytes} (hf : IsName f) (s : Bytes) :
    lex (f ++ 0x28 :: s) = (lex s).map fun ts => .name f :: .lparen :: ts := by
  rw [lex_name hf ⟨0x28, s, rfl, by decide⟩, lex_lparen, Option.map_map]
  rfl

theorem isName_normalizeSpace : IsName (utf8 "normalize-space") :=
  ⟨0x6E, utf8 "ormalize-space", by decide, by decide, by decide⟩

theorem isName_concat : IsName (utf8 "concat") :=
  ⟨0x63, utf8 "oncat", by decide, by decide, by decide⟩

theorem isName_contains : IsName (utf8 "contains") :=
  ⟨0x63, utf8 "ontains", by decide, by decide, by decide⟩

/-- The text of an expression, with the punctuation in single bytes. -/
theorem render_append (e : StringExpr) (s : Bytes) :
    e.render ++ s =
      match e with
      | .literal l => 0x27 :: (l ++ 0x27 :: s)
      | .attr n => 0x40 :: (n ++ s)
      | .normalizeSpace e => utf8 "normalize-space" ++ 0x28 :: (e.render ++ 0x29 :: s)
      | .concat e₁ e₂ e₃ => utf8 "concat" ++ 0x28 :: (e₁.render ++ 0x2C :: 0x20 ::
          (e₂.render ++ 0x2C :: 0x20 :: (e₃.render ++ 0x29 :: s))) := by
  have hquote : utf8 "'" = [0x27] := by decide
  have hat : utf8 "@" = [0x40] := by decide
  have hrparen : utf8 ")" = [0x29] := by decide
  have hcomma : utf8 ", " = [0x2C, 0x20] := by decide
  have hnormalize : utf8 "normalize-space(" = utf8 "normalize-space" ++ [0x28] := by decide
  have hconcat : utf8 "concat(" = utf8 "concat" ++ [0x28] := by decide
  cases e <;> simp [StringExpr.render, hquote, hat, hrparen, hcomma, hnormalize, hconcat]

/-- **The tokens of the text of an expression.** -/
theorem lex_render {e : StringExpr} (he : e.Readable) {s : Bytes} (hs : Delimits s) :
    lex (e.render ++ s) = (lex s).map (e.tokens ++ ·) := by
  induction e generalizing s with
  | literal l =>
    rw [render_append, lex_literal he]
    rfl
  | attr n =>
    rw [render_append, lex_attribute, lex_name he hs, Option.map_map]
    rfl
  | normalizeSpace e ih =>
    rw [render_append, lex_call isName_normalizeSpace, ih he (delimits_rparen s), lex_rparen,
      Option.map_map, Option.map_map]
    simp only [StringExpr.tokens, Function.comp_def, List.cons_append, List.append_assoc,
      List.nil_append]
  | concat e₁ e₂ e₃ ih₁ ih₂ ih₃ =>
    obtain ⟨h₁, h₂, h₃⟩ := he
    rw [render_append, lex_call isName_concat, ih₁ h₁ (delimits_comma _), lex_comma,
      ih₂ h₂ (delimits_comma _), lex_comma, ih₃ h₃ (delimits_rparen s), lex_rparen]
    simp only [Option.map_map, StringExpr.tokens, Function.comp_def, List.cons_append,
      List.append_assoc, List.nil_append]

/-! ## Reading an expression off its tokens -/

/-- **An expression is read off its tokens.** -/
theorem readString_tokens (e : StringExpr) {fuel : ℕ} (ts : List Token)
    (h : e.tokens.length ≤ fuel) : readString fuel (e.tokens ++ ts) = some (e, ts) := by
  induction e generalizing fuel ts with
  | literal l => simp [StringExpr.tokens, readString]
  | attr n => simp [StringExpr.tokens, readString]
  | normalizeSpace e ih =>
    cases fuel with
    | zero => exact absurd h (by simp [StringExpr.tokens])
    | succ fuel =>
      have hlen : e.tokens.length ≤ fuel := by
        simp only [StringExpr.tokens, List.length_cons, List.length_append] at h
        omega
      simp only [StringExpr.tokens, List.cons_append, List.append_assoc, List.nil_append,
        readString, if_true, ih (.rparen :: ts) hlen]
  | concat e₁ e₂ e₃ ih₁ ih₂ ih₃ =>
    cases fuel with
    | zero => exact absurd h (by simp [StringExpr.tokens])
    | succ fuel =>
      have hname : utf8 "concat" ≠ utf8 "normalize-space" := by decide
      simp only [StringExpr.tokens, List.length_cons, List.length_append] at h
      simp only [StringExpr.tokens, List.cons_append, List.append_assoc, List.nil_append,
        readString, if_neg hname, if_true]
      rw [ih₁ _ (by omega)]
      dsimp only
      rw [ih₂ _ (by omega)]
      dsimp only
      rw [ih₃ _ (by omega)]

/-- **The text of a condition is read back as the condition.** -/
theorem compile_render_contains {e₁ e₂ : StringExpr} (h₁ : e₁.Readable) (h₂ : e₂.Readable) :
    compile (Predicate.contains e₁ e₂).render = some (.contains e₁ e₂) := by
  have htext : (Predicate.contains e₁ e₂).render = utf8 "contains" ++ 0x28 ::
      (e₁.render ++ 0x2C :: 0x20 :: (e₂.render ++ 0x29 :: [])) := by
    have hcontains : utf8 "contains(" = utf8 "contains" ++ [0x28] := by decide
    have hcomma : utf8 ", " = [0x2C, 0x20] := by decide
    have hrparen : utf8 ")" = [0x29] := by decide
    simp [Predicate.render, hcontains, hcomma, hrparen]
  have hlex : lex (Predicate.contains e₁ e₂).render = some (.name (utf8 "contains") :: .lparen ::
      (e₁.tokens ++ .comma :: (e₂.tokens ++ [.rparen]))) := by
    rw [htext, lex_call isName_contains, lex_render h₁ (delimits_comma _), lex_comma,
      lex_render h₂ (delimits_rparen _), lex_rparen]
    rfl
  rw [compile, hlex, Option.bind_some, readCondition, if_pos rfl,
    readString_tokens e₁ _ (by simp)]
  dsimp only
  rw [readString_tokens e₂ _ (by simp)]

end XPath
end HabrDigest
