import Mathlib.Data.List.Infix

/-!
# Templates

A template is a text with slots, and filling it puts a value into each slot, in order
(`Fills`).  What the values have no part in is then decided by the template alone: the symbols
that no value contains stand in the filled text as they stand in the template
(`Fills.filter_eq`), and a marker that begins with such a symbol occurs only where the
template has it (`Fills.occurrences_append`).
-/

namespace HabrDigest
namespace Template

variable {α : Type*}

/-- A piece of a template. -/
inductive Fragment (α : Type*) where
  | literal (s : List α)
  | slot
  deriving DecidableEq, Repr

/-- The text of the literals. -/
def literals : List (Fragment α) → List α
  | [] => []
  | .literal s :: t => s ++ literals t
  | .slot :: t => literals t

/-- A text is a template with values in its slots, as many as there are slots. -/
inductive Fills : List (Fragment α) → List (List α) → List α → Prop
  | nil : Fills [] [] []
  | literal (s : List α) {t : List (Fragment α)} {vs : List (List α)} {u : List α} :
    Fills t vs u → Fills (.literal s :: t) vs (s ++ u)
  | slot (v : List α) {t : List (Fragment α)} {vs : List (List α)} {u : List α} :
    Fills t vs u → Fills (.slot :: t) (v :: vs) (v ++ u)

/-- Templates are filled one behind the other. -/
theorem Fills.append {t t' : List (Fragment α)} {vs vs' : List (List α)} {u u' : List α}
    (h : Fills t vs u) (h' : Fills t' vs' u') : Fills (t ++ t') (vs ++ vs') (u ++ u') := by
  induction h with
  | nil => exact h'
  | literal s _ ih =>
    rw [List.append_assoc]
    exact ih.literal s
  | slot v _ ih =>
    rw [List.append_assoc]
    exact ih.slot v

/-- A text without slots. -/
theorem Fills.of_literal (s : List α) : Fills [.literal s] [] s := by
  have h := Fills.nil.literal s
  rwa [List.append_nil] at h

/-- The text behind the first literal. -/
theorem Fills.exists_of_literal {s u : List α} {t : List (Fragment α)} {vs : List (List α)}
    (h : Fills (.literal s :: t) vs u) : ∃ u', u = s ++ u' ∧ Fills t vs u' := by
  cases h with
  | literal _ h => exact ⟨_, rfl, h⟩

theorem Fills.of_eq {t t' : List (Fragment α)} {vs vs' : List (List α)} {u u' : List α}
    (h : Fills t vs u) (ht : t = t') (hvs : vs = vs') (hu : u = u') : Fills t' vs' u' := by
  rw [← ht, ← hvs, ← hu]
  exact h

/-- **The template decides about the symbols that no value contains.** -/
theorem Fills.filter_eq {t : List (Fragment α)} {vs : List (List α)} {u : List α}
    (h : Fills t vs u) {p : α → Bool} (hvs : ∀ v ∈ vs, ∀ a ∈ v, p a = false) :
    u.filter p = (literals t).filter p := by
  induction h with
  | nil => rfl
  | literal s _ ih => rw [literals, List.filter_append, List.filter_append, ih hvs]
  | slot v _ ih =>
    have hv : v.filter p = [] :=
      List.filter_eq_nil_iff.mpr fun a ha => by simp [hvs v (List.mem_cons_self ..) a ha]
    rw [literals, List.filter_append, hv, List.nil_append,
      ih fun w hw => hvs w (List.mem_cons_of_mem _ hw)]

/-- What holds of the literals and of the values, and of whatever is put together from such
texts, holds of the filled text. -/
theorem Fills.closed {P : List α → Prop} (hnil : P [])
    (happend : ∀ {s s' : List α}, P s → P s' → P (s ++ s')) {t : List (Fragment α)}
    {vs : List (List α)} {u : List α} (h : Fills t vs u)
    (ht : ∀ s, Fragment.literal s ∈ t → P s) (hvs : ∀ v ∈ vs, P v) : P u := by
  induction h with
  | nil => exact hnil
  | literal s _ ih =>
    exact happend (ht s List.mem_cons_self)
      (ih (fun s' hs' => ht s' (List.mem_cons_of_mem _ hs')) hvs)
  | slot v _ ih =>
    exact happend (hvs v List.mem_cons_self)
      (ih (fun s' hs' => ht s' (List.mem_cons_of_mem _ hs'))
        fun w hw => hvs w (List.mem_cons_of_mem _ hw))

/-! ## Where a marker occurs -/

variable {marker : List α}

variable (marker) in
/-- No occurrence of the marker begins in a text, whatever follows. -/
def Apart (s : List α) : Prop :=
  ∀ t ∈ s.tails, t ≠ [] → ¬ marker <+: t ∧ ¬ t <+: marker

instance [DecidableEq α] (s : List α) : Decidable (Apart marker s) :=
  inferInstanceAs (Decidable (∀ t ∈ s.tails, _))

/-- A marker does not begin in a text that its first symbol does not stand in. -/
theorem apart_of_notMem {a : α} {s : List α} (hmarker : marker.head? = some a) (h : a ∉ s) :
    Apart marker s := by
  obtain ⟨m, rfl⟩ := List.head?_eq_some_iff.mp hmarker
  intro t ht hne
  obtain ⟨b, t, rfl⟩ := List.exists_cons_of_ne_nil hne
  have hb : b ∈ s := ((List.mem_tails _ _).mp ht).mem (List.mem_cons_self ..)
  refine ⟨fun hprefix => ?_, fun hprefix => ?_⟩
  · exact h ((List.cons_prefix_cons.mp hprefix).1 ▸ hb)
  · exact h ((List.cons_prefix_cons.mp hprefix).1 ▸ hb)

variable (marker) in
/-- No occurrence of the marker begins in a literal. -/
def Clear : List (Fragment α) → Prop
  | [] => True
  | .literal s :: t => Apart marker s ∧ Clear t
  | .slot :: t => Clear t

theorem clear_append {t t' : List (Fragment α)} :
    Clear marker (t ++ t') ↔ Clear marker t ∧ Clear marker t' := by
  induction t with
  | nil => exact (iff_of_eq (true_and _)).symm
  | cons f t ih =>
    cases f with
    | literal s =>
      rw [List.cons_append, Clear, Clear, ih, and_assoc]
    | slot =>
      rw [List.cons_append, Clear, Clear, ih]

variable [BEq α] [LawfulBEq α]

/-- What stands from each occurrence of a marker on. -/
def occurrences (marker s : List α) : List (List α) := s.tails.filter (marker.isPrefixOf ·)

theorem occurrences_cons_of_not_prefix {a : α} {s : List α} (h : ¬ marker <+: a :: s) :
    occurrences marker (a :: s) = occurrences marker s := by
  rw [occurrences, List.tails_cons, List.filter_cons_of_neg, occurrences]
  rwa [List.isPrefixOf_iff_prefix]

/-- A text that is apart from the marker is passed over. -/
theorem occurrences_append {u : List α} (h : Apart marker u) (s : List α) :
    occurrences marker (u ++ s) = occurrences marker s := by
  induction u with
  | nil => rfl
  | cons a u ih =>
    obtain ⟨hmarker, hself⟩ := h (a :: u) (by simp) (List.cons_ne_nil _ _)
    rw [List.cons_append, occurrences_cons_of_not_prefix, ih]
    · exact fun t ht => h t (by rw [List.tails_cons]; exact List.mem_cons_of_mem _ ht)
    · intro hprefix
      rcases List.prefix_or_prefix_of_prefix hprefix (List.prefix_append (a :: u) s) with hp | hp
      · exact hmarker hp
      · exact hself hp

/-- The marker itself is an occurrence. -/
theorem occurrences_marker_append (hne : marker ≠ []) (h : Apart marker marker.tail)
    (s : List α) :
    occurrences marker (marker ++ s) = (marker ++ s) :: occurrences marker s := by
  obtain ⟨a, m, rfl⟩ := List.exists_cons_of_ne_nil hne
  have hprefix : (a :: m).isPrefixOf (a :: (m ++ s)) = true :=
    List.isPrefixOf_iff_prefix.mpr (List.prefix_append (a :: m) s)
  have hbehind : occurrences (a :: m) (m ++ s) = occurrences (a :: m) s :=
    occurrences_append h s
  rw [← hbehind, occurrences, List.cons_append, List.tails_cons,
    List.filter_cons_of_pos (by exact hprefix), occurrences]

/-- **A marker occurs only where the template has it.** -/
theorem Fills.occurrences_append {t : List (Fragment α)} {vs : List (List α)} {u : List α}
    (h : Fills t vs u) (ht : Clear marker t) (hvs : ∀ v ∈ vs, Apart marker v) (s : List α) :
    occurrences marker (u ++ s) = occurrences marker s := by
  induction h with
  | nil => rfl
  | literal w _ ih =>
    rw [List.append_assoc, Template.occurrences_append ht.1, ih ht.2 hvs]
  | slot v _ ih =>
    obtain ⟨hv, hvs⟩ := List.forall_mem_cons.mp hvs
    rw [List.append_assoc, Template.occurrences_append hv, ih ht hvs]

end Template
end HabrDigest
