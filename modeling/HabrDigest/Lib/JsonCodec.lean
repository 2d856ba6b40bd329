import HabrDigest.Lib.Json
import Mathlib.Data.List.Nodup

/-!
# Typed JSON

A `Codec` is a pair of conversions: `toJson` is total, and `fromJson` is `get<T>()`,
with none where it throws.  A record's codec is made from a list of its fields, each
with its name, its own codec and the two halves of an assignment; that is what a
serialisation macro with a list of members expands to.  `toJson` assigns every member
of the list, and `fromJson` starts from a default-constructed value and reads every
member with `at`, so a missing member throws and an extra one is ignored.

## Lossless and strict

`Lossless c a` says that the value comes back from the wire.  For a list that is a
condition on the elements (`lossless_list`), for a record one on the fields
(`lossless_record`), and a record can only be lossless if its list of fields covers it:
reading back every field into the default value must rebuild the value.

Strictness is the other half.  A field that refuses its member makes the record refuse
the object (`refuses_record`), an element that is refused makes the list refuse the
array (`refuses_list`), and a codec whose `kind` is not a number refuses every number.
`MemberDamage` is what can be done to one object: a member removed, or its value
replaced.

## Payloads

`Nlohmann` is what is relied on of the library that turns values into text and back.
`encode` and `decode` are its two ends for a type with a codec.
-/

namespace HabrDigest

/-- What kind of JSON value a codec writes. -/
inductive Kind where
  | string
  | number
  | list
  | object
  deriving DecidableEq, Repr

/-- How a type is written as JSON and read back. -/
structure Codec (α : Type) where
  kind : Kind
  toJson : α → Json
  /-- `get<T>()`, and none where it throws. -/
  fromJson : Json → Option α
  /-- Only a number is read from a number. -/
  strict : kind ≠ .number → ∀ j, j.isNumber = true → fromJson j = none

/-- A member of a record, as the serialisation macro sees it. -/
structure Field (σ : Type) where
  name : Bytes
  {α : Type}
  codec : Codec α
  get : σ → α
  set : α → σ → σ

namespace Codec

variable {α σ : Type}

/-! ## The codecs -/

/-- `std::string`. -/
def string : Codec Bytes where
  kind := .string
  toJson := .string
  fromJson
    | .string s => some s
    | _ => none
  strict _ j hj := by cases j <;> simp_all [Json.isNumber]

/-- `int64_t`. -/
def int64 : Codec Int64 where
  kind := .number
  toJson i := .integer i.toInt
  fromJson
    | .integer i => some (.ofInt i)
    | .float x => some x.toInt64
    | _ => none
  strict h := absurd rfl h

/-- `uint32_t`, which is also read from a boolean. -/
def uint32 : Codec UInt32 where
  kind := .number
  toJson i := .integer i.toNat
  fromJson
    | .integer i => some (.ofInt i)
    | .float x => some (.ofInt x.toInt64.toInt)
    | .boolean b => some (if b then 1 else 0)
    | _ => none
  strict h := absurd rfl h

/-- `double`. -/
def double : Codec Double where
  kind := .number
  toJson := .float
  fromJson
    | .integer i => some (.finite i)
    | .float x => some x
    | _ => none
  strict h := absurd rfl h

/-- `std::vector<T>`. -/
def list (c : Codec α) : Codec (List α) where
  kind := .list
  toJson as := .array (as.map c.toJson)
  fromJson
    | .array xs => xs.mapM c.fromJson
    | _ => none
  strict _ j hj := by cases j <;> simp_all [Json.isNumber]

/-- One member read into the record. -/
def readField (j : Json) (s : σ) (f : Field σ) : Option σ :=
  (j.atKey f.name).bind fun v => (f.codec.fromJson v).map fun a => f.set a s

/-- A struct with the list of its members. -/
def record (fields : List (Field σ)) (initial : σ) (hne : fields ≠ []) : Codec σ where
  kind := .object
  toJson s := .object (fields.map fun f => (f.name, f.codec.toJson (f.get s)))
  fromJson j := fields.foldlM (readField j) initial
  strict _ j hj := by
    obtain ⟨f, fs, rfl⟩ := List.exists_cons_of_ne_nil hne
    cases j <;> simp_all [Json.isNumber, readField, Json.atKey]

/-! ## What is lossless -/

/-- The value comes back from the wire. -/
def Lossless (c : Codec α) (a : α) : Prop := c.fromJson (c.toJson a).norm = some a

theorem lossless_string (s : Bytes) : string.Lossless s := rfl

theorem lossless_int64 (i : Int64) : int64.Lossless i :=
  congrArg some (Int64.ofInt_toInt i)

theorem lossless_uint32 (i : UInt32) : uint32.Lossless i := by
  refine congrArg some ?_
  have hlt : (i.toNat : ℤ) < 2 ^ 32 := by exact_mod_cast i.toNat_lt
  rw [UInt32.ofInt, Int.emod_eq_of_lt (Int.natCast_nonneg _) hlt, Int.toNat_natCast]
  exact UInt32.ofNat_toNat

/-- A double comes back exactly when it is finite; otherwise it is refused. -/
theorem lossless_double (x : Double) : double.Lossless x ↔ x.isFinite = true := by
  cases x <;> simp [Lossless, double, Json.norm, Double.isFinite]

theorem refuses_double {x : Double} (h : x.isFinite = false) :
    double.fromJson (double.toJson x).norm = none := by
  cases x <;> simp_all [double, Json.norm, Double.isFinite]

theorem list_fromJson_norm (c : Codec α) (as : List α) :
    (list c).fromJson ((list c).toJson as).norm =
      as.mapM fun a => c.fromJson (c.toJson a).norm := by
  show (list c).fromJson (Json.array (as.map c.toJson)).norm = _
  rw [Json.norm_array]
  show ((as.map c.toJson).map Json.norm).mapM c.fromJson = _
  rw [List.map_map, List.mapM_map]
  rfl

/-- A list comes back if every element does. -/
theorem lossless_list {c : Codec α} {as : List α} (h : ∀ a ∈ as, c.Lossless a) :
    (list c).Lossless as := by
  unfold Lossless
  rw [list_fromJson_norm]
  induction as with
  | nil => rfl
  | cons a as ih =>
    rw [List.mapM_cons, h a (List.mem_cons_self ..)]
    rw [ih fun b hb => h b (List.mem_cons_of_mem _ hb)]
    rfl

/-- The list of fields covers the record: reading every field of a value into the initial
value rebuilds it. -/
def Covers (fields : List (Field σ)) (initial : σ) : Prop :=
  ∀ s, fields.foldl (fun t f => f.set (f.get s) t) initial = s

/-- The member that a field wrote is the one it reads. -/
theorem atKey_record {fields : List (Field σ)} (initial : σ) (hne : fields ≠ [])
    (hnames : (fields.map Field.name).Nodup) {f : Field σ} (hf : f ∈ fields) (s : σ) :
    ((record fields initial hne).toJson s).norm.atKey f.name =
      some (f.codec.toJson (f.get s)).norm := by
  have hnodup : ((fields.map fun f => (f.name, f.codec.toJson (f.get s))).map
      Prod.fst).Nodup := by
    rw [List.map_map]
    exact hnames
  have hmem : (f.name, f.codec.toJson (f.get s)) ∈
      fields.map fun f => (f.name, f.codec.toJson (f.get s)) :=
    List.mem_map.mpr ⟨f, hf, rfl⟩
  show (Json.object _).norm.atKey f.name = _
  rw [Json.atKey_norm hnodup]
  show ((fields.map fun f => (f.name, f.codec.toJson (f.get s))).lookup f.name).map _ = _
  rw [Members.lookup_eq_some_of_mem hnodup hmem]
  rfl

/-- **A record comes back** if its fields do, their names differ, and they cover it. -/
theorem lossless_record {fields : List (Field σ)} {initial : σ} {hne : fields ≠ []}
    (hnames : (fields.map Field.name).Nodup) (hcovers : Covers fields initial) {s : σ}
    (h : ∀ f ∈ fields, f.codec.Lossless (f.get s)) :
    (record fields initial hne).Lossless s := by
  have hfold : ∀ (fs : List (Field σ)) (t : σ), (∀ f ∈ fs, f ∈ fields) →
      fs.foldlM (readField ((record fields initial hne).toJson s).norm) t =
        some (fs.foldl (fun t f => f.set (f.get s) t) t) := by
    intro fs
    induction fs with
    | nil => intro t _; rfl
    | cons f fs ih =>
      intro t hsub
      have hf := hsub f (List.mem_cons_self ..)
      rw [List.foldlM_cons, readField, atKey_record initial hne hnames hf, Option.bind_some, h f hf]
      exact ih _ fun g hg => hsub g (List.mem_cons_of_mem _ hg)
  show fields.foldlM _ initial = some s
  rw [hfold fields initial fun _ hf => hf, hcovers s]

/-! ## What is refused -/

/-- A list with a refused element is refused. -/
theorem refuses_list {c : Codec α} {xs : List Json} {x : Json} (hx : x ∈ xs)
    (h : c.fromJson x = none) : (list c).fromJson (.array xs) = none := by
  show xs.mapM c.fromJson = none
  induction xs with
  | nil => exact absurd hx (by simp)
  | cons y ys ih =>
    rw [List.mapM_cons]
    rcases List.mem_cons.mp hx with rfl | hx
    · rw [h]
      rfl
    · rw [ih hx]
      cases c.fromJson y <;> rfl

/-- A record whose object has a member that the field refuses, or lacks it, is refused. -/
theorem refuses_record {fields : List (Field σ)} {initial : σ} {hne : fields ≠ []} {j : Json}
    {f : Field σ} (hf : f ∈ fields)
    (h : ∀ v, j.atKey f.name = some v → f.codec.fromJson v = none) :
    (record fields initial hne).fromJson j = none := by
  have hread : ∀ t, readField j t f = none := by
    intro t
    unfold readField
    cases hv : j.atKey f.name with
    | none => rfl
    | some v => rw [Option.bind_some, h v hv]; rfl
  show fields.foldlM (readField j) initial = none
  obtain ⟨fs₁, fs₂, rfl⟩ := List.append_of_mem hf
  rw [List.foldlM_append]
  cases fs₁.foldlM (readField j) initial with
  | none => rfl
  | some t =>
    show (f :: fs₂).foldlM (readField j) t = none
    rw [List.foldlM_cons, hread]
    rfl

/-! ## Which values are text -/

theorem validUtf8_string {s : Bytes} : (string.toJson s).ValidUtf8 ↔ Utf8.Valid s := by
  simp [string, Json.ValidUtf8, Json.strings]

theorem validUtf8_int64 (i : Int64) : (int64.toJson i).ValidUtf8 := by
  simp [int64, Json.ValidUtf8, Json.strings]

theorem validUtf8_uint32 (i : UInt32) : (uint32.toJson i).ValidUtf8 := by
  simp [uint32, Json.ValidUtf8, Json.strings]

theorem validUtf8_double (x : Double) : (double.toJson x).ValidUtf8 := by
  simp [double, Json.ValidUtf8, Json.strings]

theorem validUtf8_list {c : Codec α} {as : List α} :
    ((list c).toJson as).ValidUtf8 ↔ ∀ a ∈ as, (c.toJson a).ValidUtf8 := by
  show (Json.array _).ValidUtf8 ↔ _
  rw [Json.validUtf8_array]
  simp

theorem validUtf8_record {fields : List (Field σ)} {initial : σ} {hne : fields ≠ []} {s : σ}
    (hnames : ∀ f ∈ fields, Utf8.Valid f.name) :
    ((record fields initial hne).toJson s).ValidUtf8 ↔
      ∀ f ∈ fields, (f.codec.toJson (f.get s)).ValidUtf8 := by
  show (Json.object _).ValidUtf8 ↔ _
  rw [Json.validUtf8_object]
  simp only [List.mem_map, forall_exists_index, and_imp, forall_apply_eq_imp_iff₂]
  exact ⟨fun h f hf => (h f hf).2, fun h f hf => ⟨hnames f hf, h f hf⟩⟩

/-- What is read from text keeps what every assignment of text keeps. -/
theorem record_keeps {fields : List (Field σ)} {initial : σ} {hne : fields ≠ []} {P : σ → Prop}
    (hinitial : P initial)
    (hset : ∀ f ∈ fields, ∀ v a t, v.ValidUtf8 → f.codec.fromJson v = some a → P t →
      P (f.set a t))
    {j : Json} (hj : j.ValidUtf8) {s : σ} (h : (record fields initial hne).fromJson j = some s) :
    P s := by
  have hfold : ∀ (fs : List (Field σ)) (t : σ), (∀ f ∈ fs, f ∈ fields) → P t →
      fs.foldlM (readField j) t = some s → P s := by
    intro fs
    induction fs with
    | nil =>
      intro t _ ht hs
      obtain rfl := Option.some.inj hs
      exact ht
    | cons f fs ih =>
      intro t hsub ht hs
      rw [List.foldlM_cons] at hs
      obtain ⟨u, hu, hs⟩ := Option.bind_eq_some_iff.mp hs
      obtain ⟨v, hv, hu⟩ := Option.bind_eq_some_iff.mp hu
      obtain ⟨a, ha, rfl⟩ := Option.map_eq_some_iff.mp hu
      exact ih _ (fun g hg => hsub g (List.mem_cons_of_mem _ hg))
        (hset f (hsub f (List.mem_cons_self ..)) v a t (hj.atKey hv) ha ht) hs
  exact hfold fields initial (fun _ hf => hf) hinitial h

/-- A string read from text is text. -/
theorem valid_of_string {v : Json} {s : Bytes} (hv : v.ValidUtf8) (h : string.fromJson v = some s) :
    Utf8.Valid s := by
  cases v with
  | string s' =>
    obtain rfl := Option.some.inj h
    exact validUtf8_string.mp hv
  | _ => exact absurd h (by simp [string])

/-- The elements of a list are read from the elements of an array. -/
theorem forall_of_list {c : Codec α} {P : α → Prop}
    (hP : ∀ v a, v.ValidUtf8 → c.fromJson v = some a → P a) {v : Json} (hv : v.ValidUtf8)
    {as : List α} (h : (list c).fromJson v = some as) : ∀ a ∈ as, P a := by
  cases v with
  | array xs =>
    rw [Json.validUtf8_array] at hv
    change xs.mapM c.fromJson = some as at h
    induction xs generalizing as with
    | nil =>
      obtain rfl := Option.some.inj h
      simp
    | cons x xs ih =>
      rw [List.mapM_cons] at h
      obtain ⟨a, ha, h⟩ := Option.bind_eq_some_iff.mp h
      obtain ⟨bs, hbs, h⟩ := Option.bind_eq_some_iff.mp h
      obtain rfl := Option.some.inj h
      intro b hb
      rcases List.mem_cons.mp hb with rfl | hb
      · exact hP x _ (hv x (List.mem_cons_self ..)) ha
      · exact ih (fun y hy => hv y (List.mem_cons_of_mem _ hy)) hbs b hb
  | _ => exact absurd h (by simp [list])

end Codec

/-! ## Damage to an object -/

/-- What can happen to one member of an object. -/
inductive MemberDamage where
  /-- The member is removed. -/
  | remove (key : Bytes)
  /-- The value of the member is replaced by a number. -/
  | retype (key : Bytes) (number : Json)

namespace Json

/-- The member changed, where the object has it. -/
def modifyMember (key : Bytes) (g : Json → Json) : Json → Json
  | object ms => object (ms.map fun kv => if kv.1 = key then (kv.1, g kv.2) else kv)
  | j => j

/-- The member removed. -/
def removeMember (key : Bytes) : Json → Json
  | object ms => object (ms.filter fun kv => kv.1 ≠ key)
  | j => j

/-- One element changed, where the array has it. -/
def modifyElement (i : ℕ) (g : Json → Json) : Json → Json
  | array xs => array (xs.modify i g)
  | j => j

theorem atKey_removeMember (key : Bytes) (j : Json) : (j.removeMember key).atKey key = none := by
  cases j with
  | object ms =>
    refine Members.lookup_eq_none_of_notMem fun h => ?_
    obtain ⟨kv, hkv, hkey⟩ := List.mem_map.mp h
    exact absurd hkey (by simpa using (List.mem_filter.mp hkv).2)
  | _ => rfl

theorem atKey_modifyMember (key : Bytes) (g : Json → Json) (j : Json) :
    (j.modifyMember key g).atKey key = (j.atKey key).map g := by
  cases j with
  | object ms =>
    show List.lookup key _ = (ms.lookup key).map g
    induction ms with
    | nil => rfl
    | cons kv ms ih =>
      rw [List.map_cons, Members.lookup_cons_eq, Members.lookup_cons_eq, ih]
      by_cases h : kv.1 = key
      · simp [h]
      · simp [h, Ne.symm h]
  | _ => rfl

end Json

namespace MemberDamage

/-- The object after the damage. -/
def apply : MemberDamage → Json → Json
  | remove key, j => j.removeMember key
  | retype key number, j => j.modifyMember key fun _ => number

/-- The damage is done to a member of the record: it is removed, or it is a string or a list and
is replaced by a number. -/
def Hits {σ : Type} (fields : List (Field σ)) : MemberDamage → Prop
  | remove key => ∃ f ∈ fields, f.name = key
  | retype key number =>
    number.isNumber = true ∧
      ∃ f ∈ fields, f.name = key ∧ (f.codec.kind = .string ∨ f.codec.kind = .list)

/-- **A damaged record is refused.** -/
theorem refuses_apply {σ : Type} {fields : List (Field σ)} {initial : σ} {hne : fields ≠ []}
    {d : MemberDamage} (hd : d.Hits fields) (j : Json) :
    (Codec.record fields initial hne).fromJson (d.apply j) = none := by
  cases d with
  | remove key =>
    obtain ⟨f, hf, rfl⟩ := hd
    refine Codec.refuses_record hf fun v hv => ?_
    rw [apply, Json.atKey_removeMember] at hv
    exact absurd hv (by simp)
  | retype key number =>
    obtain ⟨hnumber, f, hf, rfl, hkind⟩ := hd
    refine Codec.refuses_record hf fun v hv => ?_
    rw [apply, Json.atKey_modifyMember, Option.map_eq_some_iff] at hv
    obtain ⟨-, -, rfl⟩ := hv
    exact f.codec.strict (by rcases hkind with hk | hk <;> simp [hk]) number hnumber

/-- The damage done to one element of a list member. -/
def applyAt (key : Bytes) (i : ℕ) (d : MemberDamage) (j : Json) : Json :=
  j.modifyMember key (Json.modifyElement i d.apply)

/-- **A record with a damaged element is refused**, at whatever position the element is. -/
theorem refuses_applyAt {σ τ : Type} {fields : List (Field σ)} {initial : σ} {hne : fields ≠ []}
    {elements : List (Field τ)} {element : τ} {hne' : elements ≠ []} {f : Field σ}
    (hf : f ∈ fields) {d : MemberDamage} (hd : d.Hits elements) {i : ℕ} {j : Json} {xs : List Json}
    (hj : j.atKey f.name = some (.array xs)) (hi : i < xs.length)
    (hcodec : ∀ x, (Codec.record elements element hne').fromJson x = none →
      ∀ ys, x ∈ ys → f.codec.fromJson (.array ys) = none) :
    (Codec.record fields initial hne).fromJson (d.applyAt f.name i j) = none := by
  refine Codec.refuses_record hf fun v hv => ?_
  rw [applyAt, Json.atKey_modifyMember, hj] at hv
  obtain rfl := Option.some.inj hv
  refine hcodec (d.apply xs[i]) (refuses_apply hd _) _ ?_
  rw [List.mem_iff_getElem]
  exact ⟨i, by simpa using hi, by simp⟩

end MemberDamage

/-! ## The library -/

/-- The JSON library. -/
structure Nlohmann where
  /-- `dump()`, or none where it throws. -/
  dump : Json → Option Bytes
  /-- `json::parse`, or none where it throws. -/
  parse : Bytes → Option Json
  /-- `dump` throws exactly on a string that is not text. -/
  dump_isSome : ∀ j, (dump j).isSome = true ↔ j.ValidUtf8
  /-- `parse` undoes `dump`. -/
  parse_dump : ∀ j text, dump j = some text → parse text = some j.norm
  /-- `parse` accepts only text. -/
  validUtf8_of_parse : ∀ text j, parse text = some j → j.ValidUtf8
  /-- `dump` escapes control characters. -/
  zero_notMem_dump : ∀ j text, dump j = some text → 0 ∉ text

namespace Nlohmann

variable {α : Type} (n : Nlohmann) (c : Codec α)

/-- `nlohmann::json(a).dump()`. -/
def encode (a : α) : Option Bytes := n.dump (c.toJson a)

/-- `nlohmann::json::parse(payload).get<T>()`. -/
def decode (payload : Bytes) : Option α := (n.parse payload).bind c.fromJson

variable {n c}

theorem encode_isSome_iff {a : α} : (n.encode c a).isSome = true ↔ (c.toJson a).ValidUtf8 :=
  n.dump_isSome _

/-- What a payload decodes to is what the wire leaves of the value it was made from. -/
theorem decode_encode {a : α} {payload : Bytes} (h : n.encode c a = some payload) :
    n.decode c payload = c.fromJson (c.toJson a).norm := by
  rw [decode, n.parse_dump _ _ h, Option.bind_some]

theorem decode_encode_of_lossless {a : α} {payload : Bytes} (hc : c.Lossless a)
    (h : n.encode c a = some payload) : n.decode c payload = some a :=
  (decode_encode h).trans hc

end Nlohmann
end HabrDigest
