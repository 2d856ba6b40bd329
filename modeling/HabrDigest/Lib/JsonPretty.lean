import HabrDigest.Lib.JsonText

/-!
# Indented JSON

A JSON text may have white space between its tokens.  `layout` writes a value with some: a line in
front of every element and every closing bracket, and perhaps a blank behind every colon.  The
compact text is the layout without any (`layout_none`).

`compact` takes the white space out again.  It only has to know where strings are, since a blank
inside a string belongs to the value; behind a backslash it takes one byte unseen.  From any
layout it makes the compact text (`compact_layout`), and so a reader of compact texts, put behind
it, reads every layout.
-/

namespace HabrDigest
namespace JsonText

/-! ## White space -/

/-- The white space of JSON. -/
def IsBlank (b : UInt8) : Prop := b = 0x20 ∨ b = 0x0A ∨ b = 0x0D ∨ b = 0x09

instance : DecidablePred IsBlank := fun b =>
  inferInstanceAs (Decidable (b = 0x20 ∨ b = 0x0A ∨ b = 0x0D ∨ b = 0x09))

/-- Where a text is laid out: between tokens, inside a string, or behind a backslash in one. -/
inductive Place where
  | outside
  | inside
  | escaped
  deriving DecidableEq, Repr

/-- The place behind a byte. -/
def Place.after : Place → UInt8 → Place
  | .outside, b => if b = 0x22 then .inside else .outside
  | .inside, b => if b = 0x22 then .outside else if b = 0x5C then .escaped else .inside
  | .escaped, _ => .inside

/-- A text without the white space between its tokens, from a place on. -/
def compactFrom : Place → Bytes → Bytes
  | _, [] => []
  | p, b :: s =>
    if p = .outside ∧ IsBlank b then compactFrom .outside s else b :: compactFrom (p.after b) s

/-- A text without the white space between its tokens. -/
def compact (s : Bytes) : Bytes := compactFrom .outside s

theorem compact_blank {s : Bytes} (hs : ∀ b ∈ s, IsBlank b) (t : Bytes) :
    compact (s ++ t) = compact t := by
  induction s with
  | nil => rfl
  | cons b s ih =>
    have hb := hs b List.mem_cons_self
    rw [← ih fun c hc => hs c (List.mem_cons_of_mem _ hc), List.cons_append, compact, compactFrom,
      if_pos ⟨rfl, hb⟩, compact]

/-- A token without quotes stays as it is. -/
theorem compact_word {s : Bytes} (hs : ∀ b ∈ s, ¬ IsBlank b ∧ b ≠ 0x22) (t : Bytes) :
    compact (s ++ t) = s ++ compact t := by
  induction s with
  | nil => rfl
  | cons b s ih =>
    obtain ⟨hblank, hquote⟩ := hs b List.mem_cons_self
    rw [List.cons_append, compact, compactFrom, if_neg (fun h => hblank h.2), Place.after,
      if_neg hquote, List.cons_append, ← ih fun c hc => hs c (List.mem_cons_of_mem _ hc), compact]

/-- An escape inside a string stays as it is. -/
theorem compactFrom_escape (b : UInt8) (t : Bytes) :
    compactFrom .inside (escape b ++ t) = escape b ++ compactFrom .inside t := by
  have hone : ∀ {c : UInt8}, c ≠ 0x22 → c ≠ 0x5C → ∀ t,
      compactFrom .inside (c :: t) = c :: compactFrom .inside t := by
    intro c hquote hslash t
    rw [compactFrom, if_neg (by simp), Place.after, if_neg hquote, if_neg hslash]
  have htwo : ∀ c t, compactFrom .inside (0x5C :: c :: t) = 0x5C :: c :: compactFrom .inside t := by
    intro c t
    rw [compactFrom, if_neg (by simp), Place.after, if_neg (by decide), if_pos rfl, compactFrom,
      if_neg (by simp), Place.after]
  have hhex : ∀ n < 16, Numeral.hexDigit n ≠ 0x22 ∧ Numeral.hexDigit n ≠ 0x5C := by decide
  unfold escape
  split_ifs with h1 h2 h3 h4 h5 h6 h7 h8
  · exact htwo _ t
  · exact htwo _ t
  · exact htwo _ t
  · exact htwo _ t
  · exact htwo _ t
  · exact htwo _ t
  · exact htwo _ t
  · have hlt : b.toNat < 32 := UInt8.lt_iff_toNat_lt.mp h8
    obtain ⟨hq, hs⟩ := hhex (b.toNat / 16) (by omega)
    obtain ⟨hq', hs'⟩ := hhex (b.toNat % 16) (Nat.mod_lt _ (by decide))
    show compactFrom .inside (0x5C :: 0x75 :: 0x30 :: 0x30 :: Numeral.hexDigit (b.toNat / 16) ::
      Numeral.hexDigit (b.toNat % 16) :: t) = _
    rw [htwo, hone (by decide) (by decide), hone (by decide) (by decide), hone hq hs, hone hq' hs']
    rfl
  · exact hone h1 h2 t

/-- **A string stays as it is**, with the blanks that are in it. -/
theorem compact_string (s t : Bytes) :
    compact (0x22 :: printChars s ++ t) = 0x22 :: printChars s ++ compact t := by
  have hchars : ∀ s, compactFrom .inside (printChars s ++ t) = printChars s ++ compact t := by
    intro s
    induction s with
    | nil =>
      show compactFrom .inside (0x22 :: t) = 0x22 :: compact t
      rw [compactFrom, if_neg (by simp), Place.after, if_pos rfl, compact]
    | cons b s ih =>
      have hcons : ∀ t, printChars (b :: s) ++ t = escape b ++ (printChars s ++ t) := by
        simp [printChars]
      rw [hcons, compactFrom_escape, ih, ← hcons]
  rw [List.cons_append, compact, compactFrom, if_neg (by decide), Place.after, if_pos rfl, hchars,
    List.cons_append]

/-! ## Layouts -/

/-- The white space of a layout: what stands in front of an element or a closing bracket at some
depth, and behind a colon. -/
structure Spacing where
  line : ℕ → Bytes
  colon : Bytes
  blank : (∀ depth, ∀ b ∈ line depth, IsBlank b) ∧ ∀ b ∈ colon, IsBlank b

/-- No white space. -/
def Spacing.none : Spacing := ⟨fun _ => [], [], by simp, by simp⟩

/-- A line for every element, indented by so many blanks for every level. -/
def Spacing.indented (step : ℕ) : Spacing where
  line depth := 0x0A :: List.replicate (step * depth) 0x20
  colon := [0x20]
  blank := by
    refine ⟨fun depth b hb => ?_, fun b hb => Or.inl (List.mem_singleton.mp hb)⟩
    rcases List.mem_cons.mp hb with rfl | hb
    · exact Or.inr (Or.inl rfl)
    · exact Or.inl (List.eq_of_mem_replicate hb)

mutual

/-- The text of a value at some depth. -/
def layout (w : Spacing) (depth : ℕ) : Json → Bytes
  | .array xs => 0x5B :: layoutElements w depth true xs
  | .object ms => 0x7B :: layoutMembers w depth true ms
  | .null => print .null
  | .boolean b => print (.boolean b)
  | .integer i => print (.integer i)
  | .float x => print (.float x)
  | .string s => print (.string s)

/-- The elements of an array, after its opening bracket. -/
def layoutElements (w : Spacing) (depth : ℕ) (first : Bool) : List Json → Bytes
  | [] => (if first then [] else w.line depth) ++ [0x5D]
  | x :: xs => (if first then [] else [0x2C]) ++ (w.line (depth + 1) ++
      (layout w (depth + 1) x ++ layoutElements w depth false xs))

/-- The members of an object, after its opening brace. -/
def layoutMembers (w : Spacing) (depth : ℕ) (first : Bool) : List (Bytes × Json) → Bytes
  | [] => (if first then [] else w.line depth) ++ [0x7D]
  | (k, v) :: ms => (if first then [] else [0x2C]) ++ (w.line (depth + 1) ++
      (0x22 :: printChars k ++ (0x3A :: w.colon ++
        (layout w (depth + 1) v ++ layoutMembers w depth false ms))))

end

/-! ## The white space comes out -/

/-- A byte that is in a number. -/
def IsNumberByte (b : UInt8) : Prop :=
  Numeral.isDigit b = true ∨ b = 0x2D ∨ b = 0x2E ∨ b = 0x2F

theorem not_blank_of_isNumberByte {b : UInt8} (h : IsNumberByte b) : ¬ IsBlank b ∧ b ≠ 0x22 := by
  rcases h with h | rfl | rfl | rfl
  · refine ⟨?_, ?_⟩
    · rintro (rfl | rfl | rfl | rfl) <;> exact absurd h (by decide)
    · rintro rfl
      exact absurd h (by decide)
  all_goals decide

theorem isNumberByte_of_mem_ofInt {i : ℤ} {b : UInt8} (hb : b ∈ Numeral.ofInt i) :
    IsNumberByte b := by
  unfold Numeral.ofInt at hb
  split_ifs at hb
  · rcases List.mem_cons.mp hb with rfl | hb
    · exact Or.inr (Or.inl rfl)
    · exact Or.inl (Numeral.isDigit_of_mem_digits hb)
  · exact Or.inl (Numeral.isDigit_of_mem_digits hb)

theorem isNumberByte_of_mem_printRat {q : ℚ} {b : UInt8} (hb : b ∈ printRat q) :
    IsNumberByte b := by
  have hmagnitude : ∀ {num den}, b ∈ printMagnitude num den → IsNumberByte b := by
    intro num den hb
    unfold printMagnitude at hb
    split at hb <;> rcases List.mem_append.mp hb with hb | hb
    · exact Or.inl (Numeral.isDigit_of_mem_digits hb)
    · rcases List.mem_cons.mp hb with rfl | hb
      · exact Or.inr (Or.inr (Or.inl rfl))
      · exact Or.inl (Numeral.isDigit_of_mem_padded hb)
    · exact Or.inl (Numeral.isDigit_of_mem_digits hb)
    · rcases List.mem_cons.mp hb with rfl | hb
      · exact Or.inr (Or.inr (Or.inr rfl))
      · exact Or.inl (Numeral.isDigit_of_mem_digits hb)
  unfold printRat at hb
  split_ifs at hb
  · rcases List.mem_cons.mp hb with rfl | hb
    · exact Or.inr (Or.inl rfl)
    · exact hmagnitude hb
  · exact hmagnitude hb

theorem compact_cons {b : UInt8} (hblank : ¬ IsBlank b) (hquote : b ≠ 0x22) (t : Bytes) :
    compact (b :: t) = b :: compact t :=
  compact_word (s := [b]) (fun c hc => by
    obtain rfl := List.mem_singleton.mp hc
    exact ⟨hblank, hquote⟩) t

/-- From the layout of a value, at any depth and in front of any text, its compact text is left. -/
def Compacts (w : Spacing) (j : Json) : Prop :=
  ∀ depth t, compact (layout w depth j ++ t) = print j ++ compact t

theorem compact_layoutElements {w : Spacing} {xs : List Json} (h : ∀ x ∈ xs, Compacts w x)
    (depth : ℕ) (first : Bool) (t : Bytes) :
    compact (layoutElements w depth first xs ++ t) =
      printElements (if first then [] else [0x2C]) xs ++ compact t := by
  have hline : ∀ depth t, compact (w.line depth ++ t) = compact t := fun depth =>
    compact_blank (w.blank.1 depth)
  induction xs generalizing first with
  | nil =>
    have hclose : compact (0x5D :: t) = 0x5D :: compact t := compact_cons (by decide) (by decide) t
    rw [layoutElements, printElements, List.append_assoc]
    cases first with
    | true => exact hclose
    | false => exact (hline depth _).trans hclose
  | cons x xs ih =>
    have hrest : compact (w.line (depth + 1) ++
        (layout w (depth + 1) x ++ layoutElements w depth false xs) ++ t) =
          print x ++ printElements [0x2C] xs ++ compact t := by
      rw [List.append_assoc, List.append_assoc, hline, h x List.mem_cons_self,
        ih (fun y hy => h y (List.mem_cons_of_mem _ hy)) false, if_neg Bool.false_ne_true,
        List.append_assoc]
    rw [layoutElements, printElements]
    cases first with
    | true => exact hrest
    | false =>
      show compact (0x2C :: _) = _
      rw [compact_cons (by decide) (by decide)]
      exact congrArg (List.cons 0x2C) hrest

theorem compact_layoutMembers {w : Spacing} {ms : List (Bytes × Json)}
    (h : ∀ kv ∈ ms, Compacts w kv.2) (depth : ℕ) (first : Bool) (t : Bytes) :
    compact (layoutMembers w depth first ms ++ t) =
      printMembers (if first then [] else [0x2C]) ms ++ compact t := by
  have hline : ∀ depth t, compact (w.line depth ++ t) = compact t := fun depth =>
    compact_blank (w.blank.1 depth)
  induction ms generalizing first with
  | nil =>
    have hclose : compact (0x7D :: t) = 0x7D :: compact t := compact_cons (by decide) (by decide) t
    rw [layoutMembers, printMembers, List.append_assoc]
    cases first with
    | true => exact hclose
    | false => exact (hline depth _).trans hclose
  | cons kv ms ih =>
    obtain ⟨k, v⟩ := kv
    have hvalue : compact (0x3A :: w.colon ++
        (layout w (depth + 1) v ++ layoutMembers w depth false ms) ++ t) =
          0x3A :: print v ++ printMembers [0x2C] ms ++ compact t := by
      have hv := h (k, v) List.mem_cons_self (depth + 1) (layoutMembers w depth false ms ++ t)
      have hms := ih (fun y hy => h y (List.mem_cons_of_mem _ hy)) false
      rw [if_neg Bool.false_ne_true] at hms
      rw [List.append_assoc, List.append_assoc, List.cons_append,
        compact_cons (by decide) (by decide), compact_blank w.blank.2, hv, hms]
      simp
    have hrest : compact (w.line (depth + 1) ++ (0x22 :: printChars k ++ (0x3A :: w.colon ++
        (layout w (depth + 1) v ++ layoutMembers w depth false ms))) ++ t) =
          0x22 :: printChars k ++ (0x3A :: print v ++ printMembers [0x2C] ms) ++ compact t := by
      rw [List.append_assoc, List.append_assoc, hline, compact_string, hvalue]
      simp only [List.append_assoc]
    rw [layoutMembers, printMembers]
    cases first with
    | true => exact hrest
    | false =>
      show compact (0x2C :: _) = _
      rw [compact_cons (by decide) (by decide)]
      exact congrArg (List.cons 0x2C) hrest

/-- **Every layout of a value has the same compact text**, whatever its white space. -/
theorem compacts (w : Spacing) (j : Json) : Compacts w j := by
  induction j using Json.induction with
  | null => exact fun _ t => compact_word (s := utf8 "null") (by decide) t
  | boolean b =>
    intro _ t
    cases b with
    | true => exact compact_word (s := utf8 "true") (by decide) t
    | false => exact compact_word (s := utf8 "false") (by decide) t
  | integer i =>
    intro _ t
    rw [layout, print]
    exact compact_word (fun b hb => not_blank_of_isNumberByte (isNumberByte_of_mem_ofInt hb)) t
  | float x =>
    intro _ t
    cases x with
    | finite q =>
      rw [layout, print]
      exact compact_word (fun b hb => not_blank_of_isNumberByte (isNumberByte_of_mem_printRat hb)) t
    | posInf | negInf | nan => exact compact_word (s := utf8 "null") (by decide) t
  | string s =>
    intro _ t
    rw [layout, print]
    exact compact_string s t
  | array xs ih =>
    intro depth t
    rw [layout, print, List.cons_append, compact_cons (by decide) (by decide),
      compact_layoutElements ih, if_pos rfl, List.cons_append]
  | object ms ih =>
    intro depth t
    rw [layout, print, List.cons_append, compact_cons (by decide) (by decide),
      compact_layoutMembers ih, if_pos rfl, List.cons_append]

/-- **From any layout the compact text is left.** -/
theorem compact_layout (w : Spacing) (j : Json) : compact (layout w 0 j) = print j := by
  have h := compacts w j 0 []
  rwa [List.append_nil, show compact [] = [] from rfl, List.append_nil] at h

/-- The compact text is the layout without white space. -/
theorem layout_none (depth : ℕ) (j : Json) : layout .none depth j = print j := by
  induction j using Json.induction generalizing depth with
  | null | boolean | integer | float | string => rw [layout]
  | array xs ih =>
    have helements : ∀ first, layoutElements .none depth first xs =
        printElements (if first then [] else [0x2C]) xs := by
      induction xs with
      | nil => intro first; rw [layoutElements, printElements]; cases first <;> rfl
      | cons x xs ihxs =>
        intro first
        rw [layoutElements, printElements, ih x List.mem_cons_self,
          ihxs (fun y hy => ih y (List.mem_cons_of_mem _ hy)) false]
        rfl
    rw [layout, print, helements, if_pos rfl]
  | object ms ih =>
    have hmembers : ∀ first, layoutMembers .none depth first ms =
        printMembers (if first then [] else [0x2C]) ms := by
      induction ms with
      | nil => intro first; rw [layoutMembers, printMembers]; cases first <;> rfl
      | cons kv ms ihms =>
        obtain ⟨k, v⟩ := kv
        intro first
        have hv := ih (k, v) List.mem_cons_self (depth + 1)
        rw [layoutMembers, printMembers, hv,
          ihms (fun y hy => ih y (List.mem_cons_of_mem _ hy)) false]
        rfl
    rw [layout, print, hmembers, if_pos rfl]

end JsonText

/-! ## A library that indents -/

/-- The JSON library with `dump(indent)`. -/
structure IndentingNlohmann extends Nlohmann where
  /-- `dump(indent)`, or none where it throws. -/
  dumpIndented : ℕ → Json → Option Bytes
  /-- It throws where `dump()` does. -/
  dumpIndented_isSome : ∀ step j, (dumpIndented step j).isSome = (dump j).isSome
  /-- `parse` undoes it as well. -/
  parse_dumpIndented : ∀ step j text, dumpIndented step j = some text → parse text = some j.norm

/-- The reader of `JsonText` behind `compact`. -/
def IndentingNlohmann.reference : IndentingNlohmann where
  dump := JsonText.dump
  parse text := JsonText.parse (JsonText.compact text)
  dump_isSome := Nlohmann.reference.dump_isSome
  parse_dump j text h := by
    have htext : JsonText.compact text = text := by
      unfold JsonText.dump at h
      split_ifs at h
      obtain rfl := Option.some.inj h
      have hlayout := JsonText.compact_layout .none j
      rwa [JsonText.layout_none] at hlayout
    rw [htext]
    exact JsonText.parse_dump h
  validUtf8_of_parse text j h := Nlohmann.reference.validUtf8_of_parse _ j h
  zero_notMem_dump := Nlohmann.reference.zero_notMem_dump
  dumpIndented step j := if j.ValidUtf8 then some (JsonText.layout (.indented step) 0 j) else none
  dumpIndented_isSome step j := by
    unfold JsonText.dump
    split_ifs <;> rfl
  parse_dumpIndented step j text h := by
    split_ifs at h with hvalid
    obtain rfl := Option.some.inj h
    rw [JsonText.compact_layout]
    exact JsonText.parse_dump (if_pos hvalid)

example : JsonText.layout (.indented 2) 0 (.object [(utf8 "hubs", .array [.string (utf8 "a b")]),
    (utf8 "votes", .integer 3), (utf8 "tags", .array [])]) =
      utf8 ("\x7b\n  \"hubs\": [\n    \"a b\"\n  ],\n  \"votes\": 3,\n" ++
        "  \"tags\": []\n\x7d") := by
  decide +kernel
end HabrDigest
