import HabrDigest.Lib.Bytes
import HabrDigest.Lib.Double
import Mathlib.Data.List.Basic

/-!
# JSON values

The values a C++ JSON library holds: integers and floating-point numbers are
different kinds, strings are byte strings, and an object is a map from keys to
values.  The map is written as its list of members.

## What survives the wire

Writing a value as text and reading it back loses two things.  A number that is not
finite has no JSON form and comes back as `null`, and the members of an object come
back in the order of their keys, a later member replacing an earlier one of the same
key.  `norm` is the value that comes back.  A reader that looks members up by key
(`atKey_norm`) sees only the first loss.

Whether a value can be written at all depends on its strings, keys included:
`ValidUtf8` says that they are all text.

The recursions below are mutual with their lists; `norm_array`, `norm_object`,
`strings_array` and `strings_object` state them with the usual list functions, and
`Json.induction` is the induction over a value, with a hypothesis for every element
and for every member.
-/

namespace HabrDigest

/-- A JSON value. -/
inductive Json where
  | null
  | boolean (b : Bool)
  | integer (i : ℤ)
  | float (x : Double)
  | string (s : Bytes)
  | array (xs : List Json)
  | object (members : List (Bytes × Json))
  deriving Repr

/-! ## Members, ordered by key -/

namespace Members

variable {β : Type*}

/-- Assign a member: the entry of the key, which keeps its place in the order of keys. -/
def insert (k : Bytes) (v : β) : List (Bytes × β) → List (Bytes × β)
  | [] => [(k, v)]
  | (k', v') :: ms =>
    if k < k' then (k, v) :: (k', v') :: ms
    else if k = k' then (k, v) :: ms
    else (k', v') :: insert k v ms

/-- The map the members make, one assigned after another. -/
def ofList (ms : List (Bytes × β)) : List (Bytes × β) :=
  ms.foldl (fun acc kv => insert kv.1 kv.2 acc) []

theorem lookup_cons_eq (x : Bytes) (kv : Bytes × β) (ms : List (Bytes × β)) :
    (kv :: ms).lookup x = if x = kv.1 then some kv.2 else ms.lookup x := by
  rw [List.lookup_cons]
  by_cases h : x = kv.1
  · rw [if_pos h, beq_iff_eq.mpr h]
  · rw [if_neg h, beq_eq_false_iff_ne.mpr h]

theorem lookup_insert (x k : Bytes) (v : β) (ms : List (Bytes × β)) :
    (insert k v ms).lookup x = if x = k then some v else ms.lookup x := by
  induction ms with
  | nil => exact lookup_cons_eq x (k, v) []
  | cons kv ms ih =>
    obtain ⟨k', v'⟩ := kv
    by_cases hlt : k < k'
    · rw [insert, if_pos hlt]
      exact lookup_cons_eq x (k, v) _
    · rw [insert, if_neg hlt]
      by_cases heq : k = k'
      · subst heq
        rw [if_pos rfl, lookup_cons_eq, lookup_cons_eq]
        by_cases h : x = k <;> simp [h]
      · rw [if_neg heq, lookup_cons_eq, lookup_cons_eq, ih]
        by_cases h : x = k'
        · simp [h, Ne.symm heq]
        · simp [h]

theorem lookup_eq_none_of_notMem {x : Bytes} {ms : List (Bytes × β)}
    (h : x ∉ ms.map Prod.fst) : ms.lookup x = none := by
  rw [List.lookup_eq_none_iff]
  intro kv hkv
  rw [bne_iff_ne]
  rintro rfl
  exact h (List.mem_map_of_mem hkv)

theorem lookup_eq_some_of_mem {ms : List (Bytes × β)} (h : (ms.map Prod.fst).Nodup)
    {k : Bytes} {v : β} (hmem : (k, v) ∈ ms) : ms.lookup k = some v := by
  induction ms with
  | nil => exact absurd hmem (by simp)
  | cons kv ms ih =>
    rw [List.map_cons, List.nodup_cons] at h
    rw [lookup_cons_eq]
    rcases List.mem_cons.mp hmem with rfl | hmem
    · rw [if_pos rfl]
    · have hne : k ≠ kv.1 := by
        rintro rfl
        exact h.1 (List.mem_map.mpr ⟨_, hmem, rfl⟩)
      rw [if_neg hne, ih h.2 hmem]

/-- Where no key comes twice, the map has the members it was made of. -/
theorem lookup_ofList {ms : List (Bytes × β)} (h : (ms.map Prod.fst).Nodup) (x : Bytes) :
    (ofList ms).lookup x = ms.lookup x := by
  have hfold : ∀ (ms acc : List (Bytes × β)), (ms.map Prod.fst).Nodup →
      (ms.foldl (fun acc kv => insert kv.1 kv.2 acc) acc).lookup x =
        (ms.lookup x).or (acc.lookup x) := by
    intro ms
    induction ms with
    | nil => intro acc _; rfl
    | cons kv ms ih =>
      obtain ⟨k, v⟩ := kv
      intro acc hnodup
      rw [List.map_cons, List.nodup_cons] at hnodup
      rw [List.foldl_cons, ih _ hnodup.2, lookup_insert, lookup_cons_eq]
      by_cases hx : x = k
      · subst hx
        rw [lookup_eq_none_of_notMem hnodup.1]
        simp
      · simp [hx]
  rw [ofList, hfold ms [] h]
  simp

/-- The keys and values of the map are among those it was made of. -/
theorem mem_insert {k : Bytes} {v : β} {ms : List (Bytes × β)} {kv : Bytes × β}
    (h : kv ∈ insert k v ms) : kv = (k, v) ∨ kv ∈ ms := by
  induction ms with
  | nil => exact Or.inl (List.mem_singleton.mp h)
  | cons kv' ms ih =>
    rw [insert] at h
    split at h
    · exact List.mem_cons.mp h
    · split at h
      · exact (List.mem_cons.mp h).imp_right (List.mem_cons_of_mem _)
      · rcases List.mem_cons.mp h with rfl | h
        · exact Or.inr (List.mem_cons_self ..)
        · exact (ih h).imp_right (List.mem_cons_of_mem _)

theorem mem_ofList {ms : List (Bytes × β)} {kv : Bytes × β} (h : kv ∈ ofList ms) : kv ∈ ms := by
  have hfold : ∀ (ms acc : List (Bytes × β)),
      kv ∈ ms.foldl (fun acc kv => insert kv.1 kv.2 acc) acc → kv ∈ ms ∨ kv ∈ acc := by
    intro ms
    induction ms with
    | nil => intro acc h; exact Or.inr h
    | cons kv' ms ih =>
      intro acc h
      rcases ih _ h with h | h
      · exact Or.inl (List.mem_cons_of_mem _ h)
      · rcases mem_insert h with rfl | h
        · exact Or.inl (List.mem_cons_self ..)
        · exact Or.inr h
  exact (hfold ms [] h).resolve_right (by simp)

end Members

namespace Json

/-! ## Induction -/

/-- Induction over a value. -/
@[elab_as_elim]
theorem induction {P : Json → Prop} (null : P null) (boolean : ∀ b, P (boolean b))
    (integer : ∀ i, P (integer i)) (float : ∀ x, P (float x)) (string : ∀ s, P (string s))
    (array : ∀ xs, (∀ x ∈ xs, P x) → P (array xs))
    (object : ∀ ms, (∀ kv ∈ ms, P kv.2) → P (object ms)) (j : Json) : P j :=
  match j with
  | .null => null
  | .boolean b => boolean b
  | .integer i => integer i
  | .float x => float x
  | .string s => string s
  | .array xs =>
    array xs fun x _ => induction null boolean integer float string array object x
  | .object ms =>
    object ms fun kv _ => induction null boolean integer float string array object kv.2
termination_by sizeOf j
decreasing_by
  · have := List.sizeOf_lt_of_mem ‹x ∈ xs›
    simp only [Json.array.sizeOf_spec]
    omega
  · have h := List.sizeOf_lt_of_mem ‹kv ∈ ms›
    obtain ⟨k, v⟩ := kv
    simp only [Prod.mk.sizeOf_spec] at h
    simp only [Json.object.sizeOf_spec]
    omega

/-! ## Access -/

/-- `at(key)`: the value of a member, or none where it throws. -/
def atKey (j : Json) (key : Bytes) : Option Json :=
  match j with
  | object ms => ms.lookup key
  | _ => none

/-- The value is a number. -/
def isNumber : Json → Bool
  | integer _ | float _ => true
  | _ => false

/-! ## What comes back from the wire -/

mutual

/-- The value that comes back when the value is written and read. -/
def norm : Json → Json
  | .null => .null
  | .boolean b => .boolean b
  | .integer i => .integer i
  | .float (.finite q) => .float (.finite q)
  | .float _ => .null
  | .string s => .string s
  | .array xs => .array (normElements xs)
  | .object ms => .object (Members.ofList (normMembers ms))

/-- The elements of an array that comes back. -/
def normElements : List Json → List Json
  | [] => []
  | x :: xs => norm x :: normElements xs

/-- The values of the members that come back. -/
def normMembers : List (Bytes × Json) → List (Bytes × Json)
  | [] => []
  | (k, v) :: ms => (k, norm v) :: normMembers ms

end

theorem normElements_eq (xs : List Json) : normElements xs = xs.map norm := by
  induction xs with
  | nil => rfl
  | cons x xs ih => rw [normElements, ih, List.map_cons]

theorem normMembers_eq (ms : List (Bytes × Json)) :
    normMembers ms = ms.map fun kv => (kv.1, kv.2.norm) := by
  induction ms with
  | nil => rfl
  | cons kv ms ih => rw [normMembers, ih, List.map_cons]

theorem norm_array (xs : List Json) : (array xs).norm = array (xs.map norm) := by
  rw [norm, normElements_eq]

theorem norm_object (ms : List (Bytes × Json)) :
    (object ms).norm = object (Members.ofList (ms.map fun kv => (kv.1, kv.2.norm))) := by
  rw [norm, normMembers_eq]

theorem lookup_map_norm (ms : List (Bytes × Json)) (key : Bytes) :
    (ms.map fun kv => (kv.1, kv.2.norm)).lookup key = (ms.lookup key).map norm := by
  induction ms with
  | nil => rfl
  | cons kv ms ih =>
    rw [List.map_cons, List.lookup_cons, List.lookup_cons, ih]
    cases key == kv.1 <;> rfl

/-- **A member looked up by its key comes back as it was**, up to the numbers that are not
finite. -/
theorem atKey_norm {ms : List (Bytes × Json)} (h : (ms.map Prod.fst).Nodup) (key : Bytes) :
    (object ms).norm.atKey key = ((object ms).atKey key).map norm := by
  rw [norm_object]
  show (Members.ofList _).lookup key = (ms.lookup key).map norm
  rw [Members.lookup_ofList, lookup_map_norm]
  rw [List.map_map]
  exact h

/-! ## Strings -/

mutual

/-- The strings of a value, keys included. -/
def strings : Json → List Bytes
  | .null | .boolean _ | .integer _ | .float _ => []
  | .string s => [s]
  | .array xs => stringsElements xs
  | .object ms => stringsMembers ms

/-- The strings of the elements of an array. -/
def stringsElements : List Json → List Bytes
  | [] => []
  | x :: xs => strings x ++ stringsElements xs

/-- The keys of the members of an object, and the strings of their values. -/
def stringsMembers : List (Bytes × Json) → List Bytes
  | [] => []
  | (k, v) :: ms => k :: strings v ++ stringsMembers ms

end

theorem strings_array (xs : List Json) : (array xs).strings = xs.flatMap strings := by
  rw [strings]
  induction xs with
  | nil => rfl
  | cons x xs ih => rw [stringsElements, ih, List.flatMap_cons]

theorem strings_object (ms : List (Bytes × Json)) :
    (object ms).strings = ms.flatMap fun kv => kv.1 :: kv.2.strings := by
  rw [strings]
  induction ms with
  | nil => rfl
  | cons kv ms ih => rw [stringsMembers, ih, List.flatMap_cons]

/-- Every string of the value is text. -/
def ValidUtf8 (j : Json) : Prop := ∀ s ∈ j.strings, Utf8.Valid s

instance (j : Json) : Decidable j.ValidUtf8 := inferInstanceAs (Decidable (∀ s ∈ _, _))

theorem validUtf8_array {xs : List Json} :
    (array xs).ValidUtf8 ↔ ∀ x ∈ xs, x.ValidUtf8 := by
  unfold ValidUtf8
  rw [strings_array]
  simp only [List.mem_flatMap]
  exact ⟨fun h x hx s hs => h s ⟨x, hx, hs⟩, fun h s ⟨x, hx, hs⟩ => h x hx s hs⟩

theorem validUtf8_object {ms : List (Bytes × Json)} :
    (object ms).ValidUtf8 ↔ ∀ kv ∈ ms, Utf8.Valid kv.1 ∧ kv.2.ValidUtf8 := by
  unfold ValidUtf8
  rw [strings_object]
  simp only [List.mem_flatMap, List.mem_cons]
  constructor
  · intro h kv hkv
    exact ⟨h kv.1 ⟨kv, hkv, Or.inl rfl⟩, fun s hs => h s ⟨kv, hkv, Or.inr hs⟩⟩
  · rintro h s ⟨kv, hkv, rfl | hs⟩
    · exact (h kv hkv).1
    · exact (h kv hkv).2 s hs

/-- A member of a valid object is valid. -/
theorem ValidUtf8.atKey {j v : Json} {key : Bytes} (h : j.ValidUtf8) (hv : j.atKey key = some v) :
    v.ValidUtf8 := by
  cases j with
  | object ms =>
    have hmem : (key, v) ∈ ms := by
      obtain ⟨l₁, l₂, hms, -⟩ := List.lookup_eq_some_iff.mp hv
      rw [hms]
      simp
    exact (validUtf8_object.mp h _ hmem).2
  | _ => exact absurd hv (by simp [Json.atKey])

/-- What comes back from the wire is as valid. -/
theorem ValidUtf8.norm {j : Json} (h : j.ValidUtf8) : j.norm.ValidUtf8 := by
  induction j using Json.induction with
  | null | boolean | integer | string => exact h
  | float x => cases x <;> exact fun s hs => absurd hs (by simp [Json.norm, strings])
  | array xs ih =>
    rw [norm_array, validUtf8_array]
    intro x hx
    obtain ⟨y, hy, rfl⟩ := List.mem_map.mp hx
    exact ih y hy (validUtf8_array.mp h y hy)
  | object ms ih =>
    rw [norm_object, validUtf8_object]
    intro kv hkv
    obtain ⟨kv', hkv', rfl⟩ := List.mem_map.mp (Members.mem_ofList hkv)
    obtain ⟨hk, hv⟩ := validUtf8_object.mp h kv' hkv'
    exact ⟨hk, ih kv' hkv' hv⟩

end Json
end HabrDigest
