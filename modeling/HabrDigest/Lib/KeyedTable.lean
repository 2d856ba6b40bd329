import Mathlib.Data.List.Basic
import Mathlib.Data.List.Nodup

/-!
# Tables with a primary key

A table is a list of rows whose keys differ, in the order in which they were inserted.
`upsert` is `INSERT ... ON CONFLICT DO UPDATE`: a row with a new key is appended, and
otherwise the row with that key is merged with the one that could not be inserted.  A
merge keeps the key, so the keys stay distinct, and the table carries that with it.

What a table says about a key is its `lookup`.  `lookup_upsertAll` reads off a whole
sequence of upserts: only the rows with the key matter, and they are absorbed one after
the other.
-/

namespace HabrDigest

variable {ρ κ : Type} [DecidableEq κ]

/-- A table whose rows have distinct keys. -/
structure KeyedTable (key : ρ → κ) where
  rows : List ρ
  nodup : (rows.map key).Nodup

/-- What becomes of a row when another one with its key cannot be inserted. -/
structure Merge (key : ρ → κ) where
  merge : ρ → ρ → ρ
  key_merge : ∀ old excluded, key (merge old excluded) = key old

namespace KeyedTable

variable {key : ρ → κ}

/-- The table without rows. -/
def empty : KeyedTable key := ⟨[], List.nodup_nil⟩

/-- The row with a key. -/
def lookup (t : KeyedTable key) (k : κ) : Option ρ := t.rows.find? fun r => key r = k

/-- The rows after a row was inserted or merged. -/
def upsertRows (m : Merge key) (r : ρ) : List ρ → List ρ
  | [] => [r]
  | s :: rows => if key s = key r then m.merge s r :: rows else s :: upsertRows m r rows

theorem map_key_upsertRows (m : Merge key) (r : ρ) (rows : List ρ) :
    (upsertRows m r rows).map key =
      if key r ∈ rows.map key then rows.map key else rows.map key ++ [key r] := by
  induction rows with
  | nil => rfl
  | cons s rows ih =>
    unfold upsertRows
    by_cases h : key s = key r
    · rw [if_pos h, List.map_cons, m.key_merge, List.map_cons, if_pos]
      rw [h]
      exact List.mem_cons_self ..
    · rw [if_neg h, List.map_cons, ih, List.map_cons]
      by_cases hmem : key r ∈ rows.map key
      · rw [if_pos hmem, if_pos (List.mem_cons_of_mem _ hmem)]
      · rw [if_neg hmem, if_neg, List.cons_append]
        exact List.not_mem_cons_of_ne_of_not_mem (Ne.symm h) hmem

/-- A row inserted, or merged with the row that has its key. -/
def upsert (m : Merge key) (t : KeyedTable key) (r : ρ) : KeyedTable key where
  rows := upsertRows m r t.rows
  nodup := by
    rw [map_key_upsertRows]
    by_cases h : key r ∈ t.rows.map key
    · rw [if_pos h]
      exact t.nodup
    · rw [if_neg h]
      exact List.concat_eq_append ▸ List.Nodup.concat h t.nodup

/-- Rows inserted or merged, one after the other. -/
def upsertAll (m : Merge key) (t : KeyedTable key) (rs : List ρ) : KeyedTable key :=
  rs.foldl (upsert m) t

/-- The row of a key after a row with that key was inserted or merged. -/
def absorb (m : Merge key) (old : Option ρ) (r : ρ) : Option ρ :=
  some (old.elim r fun s => m.merge s r)

theorem mem_of_lookup {t : KeyedTable key} {k : κ} {r : ρ} (h : t.lookup k = some r) :
    r ∈ t.rows := List.mem_of_find?_eq_some h

theorem key_of_lookup {t : KeyedTable key} {k : κ} {r : ρ} (h : t.lookup k = some r) :
    key r = k := by
  have hkey := List.find?_some h
  exact of_decide_eq_true hkey

theorem lookup_eq_some_iff {t : KeyedTable key} {k : κ} {r : ρ} :
    t.lookup k = some r ↔ r ∈ t.rows ∧ key r = k := by
  refine ⟨fun h => ⟨mem_of_lookup h, key_of_lookup h⟩, ?_⟩
  rintro ⟨hr, rfl⟩
  cases hs : t.lookup (key r) with
  | none => exact absurd (decide_eq_true rfl) (List.find?_eq_none.mp hs r hr)
  | some s =>
    rw [List.inj_on_of_nodup_map t.nodup (mem_of_lookup hs) hr (key_of_lookup hs)]

theorem mem_rows_iff {t : KeyedTable key} {r : ρ} : r ∈ t.rows ↔ t.lookup (key r) = some r := by
  rw [lookup_eq_some_iff]
  exact ⟨fun h => ⟨h, rfl⟩, fun h => h.1⟩

/-- The row of a key is the only one with that key. -/
theorem filter_key_of_lookup {t : KeyedTable key} {k : κ} {r : ρ} (h : t.lookup k = some r) :
    (t.rows.filter fun s => key s = k) = [r] := by
  have hall : ∀ s ∈ t.rows.filter fun s => key s = k, s = r := by
    intro s hs
    obtain ⟨hmem, hkey⟩ := List.mem_filter.mp hs
    exact Option.some.inj ((lookup_eq_some_iff.mpr ⟨hmem, of_decide_eq_true hkey⟩).symm.trans h)
  have hr : r ∈ t.rows.filter fun s => key s = k :=
    List.mem_filter.mpr ⟨mem_of_lookup h, decide_eq_true (key_of_lookup h)⟩
  have hnodup : (t.rows.filter fun s => key s = k).Nodup := (List.Nodup.of_map key t.nodup).filter _
  rw [List.eq_replicate_of_mem hall, List.nodup_replicate] at hnodup
  have hone := Nat.le_antisymm hnodup (List.length_pos_of_mem hr)
  rw [List.eq_replicate_of_mem hall, hone, List.replicate_one]

/-- **One upsert**: the row with that key absorbs it, every other row is unchanged. -/
theorem lookup_upsert (m : Merge key) (t : KeyedTable key) (r : ρ) (k : κ) :
    (t.upsert m r).lookup k = if key r = k then absorb m (t.lookup k) r else t.lookup k := by
  have hrows : ∀ rows : List ρ, (upsertRows m r rows).find? (fun s => key s = k) =
      if key r = k then absorb m (rows.find? fun s => key s = k) r
      else rows.find? fun s => key s = k := by
    intro rows
    induction rows with
    | nil => by_cases hk : key r = k <;> simp [upsertRows, absorb, hk]
    | cons s rows ih =>
      unfold upsertRows
      by_cases hs : key s = key r
      · rw [if_pos hs, List.find?_cons, List.find?_cons, m.key_merge, hs]
        by_cases hk : key r = k <;> simp [absorb, hk]
      · rw [if_neg hs, List.find?_cons, List.find?_cons, ih]
        by_cases hk : key s = k
        · have hne : key r ≠ k := fun h => hs (hk.trans h.symm)
          simp [hk, hne]
        · simp [hk]
  exact hrows t.rows

/-- **A sequence of upserts** read off for one key. -/
theorem lookup_upsertAll (m : Merge key) (t : KeyedTable key) (rs : List ρ) (k : κ) :
    (t.upsertAll m rs).lookup k =
      (rs.filter fun r => key r = k).foldl (absorb m) (t.lookup k) := by
  induction rs generalizing t with
  | nil => rfl
  | cons r rs ih =>
    show ((t.upsert m r).upsertAll m rs).lookup k = _
    rw [ih, lookup_upsert, List.filter_cons]
    by_cases hk : key r = k <;> simp [hk]

/-- **What holds of all rows** holds after a sequence of upserts, if it holds of the new rows and
merging keeps it. -/
theorem forall_mem_upsertAll (m : Merge key) {P : ρ → Prop}
    (hmerge : ∀ old r, P old → P r → P (m.merge old r)) {t : KeyedTable key} {rs : List ρ}
    (ht : ∀ s ∈ t.rows, P s) (hrs : ∀ r ∈ rs, P r) : ∀ s ∈ (t.upsertAll m rs).rows, P s := by
  have hone : ∀ {r : ρ} {rows : List ρ}, P r → (∀ s ∈ rows, P s) →
      ∀ s ∈ upsertRows m r rows, P s := by
    intro r rows hr
    induction rows with
    | nil => exact fun _ => List.forall_mem_singleton.mpr hr
    | cons s rows ih =>
      intro hrows
      obtain ⟨hs, hrows⟩ := List.forall_mem_cons.mp hrows
      unfold upsertRows
      split
      · exact List.forall_mem_cons.mpr ⟨hmerge s r hs hr, hrows⟩
      · exact List.forall_mem_cons.mpr ⟨hs, ih hrows⟩
  induction rs generalizing t with
  | nil => exact ht
  | cons r rs ih =>
    obtain ⟨hr, hrs⟩ := List.forall_mem_cons.mp hrs
    exact ih (hone hr ht) hrs

/-- **What merging keeps of a row** stays as it is after a sequence of upserts. -/
theorem exists_lookup_upsertAll {β : Type} {m : Merge key} {f : ρ → β}
    (hkeeps : ∀ old r, f (m.merge old r) = f old) {t : KeyedTable key} (rs : List ρ) {k : κ} {r : ρ}
    (h : t.lookup k = some r) :
    ∃ r', (t.upsertAll m rs).lookup k = some r' ∧ f r' = f r := by
  rw [lookup_upsertAll, h]
  generalize rs.filter (fun r => key r = k) = absorbed
  clear h
  induction absorbed generalizing r with
  | nil => exact ⟨r, rfl, rfl⟩
  | cons s absorbed ih =>
    obtain ⟨r', hr', hf⟩ := ih (r := m.merge r s)
    exact ⟨r', hr', hf.trans (hkeeps r s)⟩

/-- A key stays in the table. -/
theorem isSome_lookup_upsertAll (m : Merge key) {t : KeyedTable key} {rs : List ρ} {k : κ}
    (h : (t.lookup k).isSome = true ∨ k ∈ rs.map key) :
    ((t.upsertAll m rs).lookup k).isSome = true := by
  have hfold : ∀ (rs : List ρ) (old : Option ρ), old.isSome = true ∨ rs ≠ [] →
      (rs.foldl (absorb m) old).isSome = true := by
    intro rs
    induction rs with
    | nil =>
      intro old h
      exact h.resolve_right fun h => h rfl
    | cons r rs ih => exact fun old _ => ih _ (Or.inl rfl)
  rw [lookup_upsertAll]
  refine hfold _ _ (h.imp_right fun hk => ?_)
  obtain ⟨r, hr, hkey⟩ := List.mem_map.mp hk
  exact List.ne_nil_of_mem (List.mem_filter.mpr ⟨hr, by simpa using hkey⟩)

/-- A function of rows that is compatible with merging is compatible with upserting. -/
theorem map_upsertRows {m : Merge key} {f : ρ → ρ} (hkey : ∀ r, key (f r) = key r)
    (hmerge : ∀ s r, f (m.merge s r) = m.merge (f s) (f r)) (r : ρ) (rows : List ρ) :
    (upsertRows m r rows).map f = upsertRows m (f r) (rows.map f) := by
  induction rows with
  | nil => rfl
  | cons s rows ih =>
    simp only [upsertRows, List.map_cons, hkey]
    split
    · rw [List.map_cons, hmerge]
    · rw [List.map_cons, ih]

/-- Rows whose keys are there leave the keys as they are. -/
theorem map_key_upsertAll {m : Merge key} {t : KeyedTable key} {rs : List ρ}
    (h : ∀ r ∈ rs, key r ∈ t.rows.map key) : (t.upsertAll m rs).rows.map key = t.rows.map key := by
  induction rs generalizing t with
  | nil => rfl
  | cons r rs ih =>
    obtain ⟨hr, hrs⟩ := List.forall_mem_cons.mp h
    have hone : (t.upsert m r).rows.map key = t.rows.map key := by
      rw [upsert, map_key_upsertRows, if_pos hr]
    show ((t.upsert m r).upsertAll m rs).rows.map key = _
    rw [ih fun r hr => hone ▸ hrs r hr, hone]

/-- A table is its keys and what it says about each of them. -/
theorem map_rows_eq {t t' : KeyedTable key} {β : Type} {f : ρ → β}
    (hkeys : t.rows.map key = t'.rows.map key)
    (hlookup : ∀ k, (t.lookup k).map f = (t'.lookup k).map f) : t.rows.map f = t'.rows.map f := by
  have hread : ∀ t : KeyedTable key, (t.rows.map f).map some =
      (t.rows.map key).map fun k => (t.lookup k).map f := by
    intro t
    rw [List.map_map, List.map_map]
    refine List.map_congr_left fun r hr => ?_
    rw [Function.comp_apply, Function.comp_apply, mem_rows_iff.mp hr, Option.map_some]
  refine List.map_injective_iff.mpr (fun _ _ => Option.some.inj) ?_
  rw [hread, hread, hkeys]
  exact List.map_congr_left fun k _ => hlookup k

end KeyedTable
end HabrDigest
