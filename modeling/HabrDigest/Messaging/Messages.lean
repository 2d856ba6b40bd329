import HabrDigest.Lib.JsonCodec

/-!
# The wire contracts

`shared/cpp/messaging/include/messaging/messages.hpp`: the three messages of the
pipeline and the two kinds of article they carry.  Each struct comes with the list of
members that `NLOHMANN_DEFINE_TYPE_INTRUSIVE` repeats by hand, in the order of the macro,
and with the codec that list expands to.

For each struct the list is shown to do what the macro is trusted with: the names differ
and are text (`fields_names`), reading all members back into the default value rebuilds
the struct (`fields_cover`), and so a message comes back from the wire (`lossless`).
Scores are the one exception, and `DigestArticle.lossless_iff` says exactly which: an
article comes back if and only if its score is finite.

`strings` lists the strings of a message; whether it can be encoded at all is a question
about them (`encode_isSome_iff`).
-/

namespace HabrDigest
namespace Messaging

/-! ## `raw_articles`: Fetcher to Parser -/

structure RawArticlesMessage where
  fetchId : Bytes := []
  sourceUrl : Bytes := []
  rawHtml : Bytes := []
  fetchedAt : Bytes := []
  traceId : Bytes := []
  deriving DecidableEq, Repr

namespace RawArticlesMessage

def fields : List (Field RawArticlesMessage) :=
  [⟨utf8 "fetch_id", .string, fetchId, fun v m => { m with fetchId := v }⟩,
   ⟨utf8 "source_url", .string, sourceUrl, fun v m => { m with sourceUrl := v }⟩,
   ⟨utf8 "raw_html", .string, rawHtml, fun v m => { m with rawHtml := v }⟩,
   ⟨utf8 "fetched_at", .string, fetchedAt, fun v m => { m with fetchedAt := v }⟩,
   ⟨utf8 "trace_id", .string, traceId, fun v m => { m with traceId := v }⟩]

theorem fields_ne_nil : fields ≠ [] := List.cons_ne_nil _ _

def codec : Codec RawArticlesMessage := .record fields {} fields_ne_nil

/-- The strings of the message. -/
def strings (m : RawArticlesMessage) : List Bytes :=
  [m.fetchId, m.sourceUrl, m.rawHtml, m.fetchedAt, m.traceId]

end RawArticlesMessage

/-! ## `parsed_articles`: Parser to Storage -/

structure ParsedArticle where
  articleId : Bytes := []
  url : Bytes := []
  title : Bytes := []
  author : Bytes := []
  publishedAt : Bytes := []
  hubs : List Bytes := []
  complexity : Bytes := []
  readingTime : Bytes := []
  votes : Int64 := 0
  views : Int64 := 0
  bookmarks : Int64 := 0
  comments : Int64 := 0
  deriving DecidableEq, Repr

namespace ParsedArticle

def fields : List (Field ParsedArticle) :=
  [⟨utf8 "article_id", .string, articleId, fun v a => { a with articleId := v }⟩,
   ⟨utf8 "url", .string, url, fun v a => { a with url := v }⟩,
   ⟨utf8 "title", .string, title, fun v a => { a with title := v }⟩,
   ⟨utf8 "author", .string, author, fun v a => { a with author := v }⟩,
   ⟨utf8 "published_at", .string, publishedAt, fun v a => { a with publishedAt := v }⟩,
   ⟨utf8 "hubs", .list .string, hubs, fun v a => { a with hubs := v }⟩,
   ⟨utf8 "complexity", .string, complexity, fun v a => { a with complexity := v }⟩,
   ⟨utf8 "reading_time", .string, readingTime, fun v a => { a with readingTime := v }⟩,
   ⟨utf8 "votes", .int64, votes, fun v a => { a with votes := v }⟩,
   ⟨utf8 "views", .int64, views, fun v a => { a with views := v }⟩,
   ⟨utf8 "bookmarks", .int64, bookmarks, fun v a => { a with bookmarks := v }⟩,
   ⟨utf8 "comments", .int64, comments, fun v a => { a with comments := v }⟩]

theorem fields_ne_nil : fields ≠ [] := List.cons_ne_nil _ _

def codec : Codec ParsedArticle := .record fields {} fields_ne_nil

/-- The strings of the article. -/
def strings (a : ParsedArticle) : List Bytes :=
  [a.articleId, a.url, a.title, a.author, a.publishedAt, a.complexity, a.readingTime] ++ a.hubs

end ParsedArticle

structure ParsedArticlesMessage where
  fetchId : Bytes := []
  sourceUrl : Bytes := []
  parsedAt : Bytes := []
  traceId : Bytes := []
  articles : List ParsedArticle := []
  deriving DecidableEq, Repr

namespace ParsedArticlesMessage

def fields : List (Field ParsedArticlesMessage) :=
  [⟨utf8 "fetch_id", .string, fetchId, fun v m => { m with fetchId := v }⟩,
   ⟨utf8 "source_url", .string, sourceUrl, fun v m => { m with sourceUrl := v }⟩,
   ⟨utf8 "parsed_at", .string, parsedAt, fun v m => { m with parsedAt := v }⟩,
   ⟨utf8 "trace_id", .string, traceId, fun v m => { m with traceId := v }⟩,
   ⟨utf8 "articles", .list ParsedArticle.codec, articles, fun v m => { m with articles := v }⟩]

theorem fields_ne_nil : fields ≠ [] := List.cons_ne_nil _ _

def codec : Codec ParsedArticlesMessage := .record fields {} fields_ne_nil

/-- The strings of the message. -/
def strings (m : ParsedArticlesMessage) : List Bytes :=
  [m.fetchId, m.sourceUrl, m.parsedAt, m.traceId] ++ m.articles.flatMap ParsedArticle.strings

end ParsedArticlesMessage

/-! ## `digest_ready`: Storage to Notifier and Web -/

structure DigestArticle where
  articleId : Bytes := []
  url : Bytes := []
  title : Bytes := []
  author : Bytes := []
  publishedAt : Bytes := []
  hubs : List Bytes := []
  votes : Int64 := 0
  views : Int64 := 0
  bookmarks : Int64 := 0
  comments : Int64 := 0
  score : Double := .finite 0
  sourceTraceId : Bytes := []
  deriving DecidableEq, Repr

namespace DigestArticle

def fields : List (Field DigestArticle) :=
  [⟨utf8 "article_id", .string, articleId, fun v a => { a with articleId := v }⟩,
   ⟨utf8 "url", .string, url, fun v a => { a with url := v }⟩,
   ⟨utf8 "title", .string, title, fun v a => { a with title := v }⟩,
   ⟨utf8 "author", .string, author, fun v a => { a with author := v }⟩,
   ⟨utf8 "published_at", .string, publishedAt, fun v a => { a with publishedAt := v }⟩,
   ⟨utf8 "hubs", .list .string, hubs, fun v a => { a with hubs := v }⟩,
   ⟨utf8 "votes", .int64, votes, fun v a => { a with votes := v }⟩,
   ⟨utf8 "views", .int64, views, fun v a => { a with views := v }⟩,
   ⟨utf8 "bookmarks", .int64, bookmarks, fun v a => { a with bookmarks := v }⟩,
   ⟨utf8 "comments", .int64, comments, fun v a => { a with comments := v }⟩,
   ⟨utf8 "score", .double, score, fun v a => { a with score := v }⟩,
   ⟨utf8 "source_trace_id", .string, sourceTraceId, fun v a => { a with sourceTraceId := v }⟩]

theorem fields_ne_nil : fields ≠ [] := List.cons_ne_nil _ _

def codec : Codec DigestArticle := .record fields {} fields_ne_nil

/-- The strings of the article. -/
def strings (a : DigestArticle) : List Bytes :=
  [a.articleId, a.url, a.title, a.author, a.publishedAt, a.sourceTraceId] ++ a.hubs

end DigestArticle

structure DigestReadyMessage where
  digestId : Bytes := []
  generatedAt : Bytes := []
  traceId : Bytes := []
  periodHours : UInt32 := 24
  articles : List DigestArticle := []
  deriving DecidableEq, Repr

namespace DigestReadyMessage

def fields : List (Field DigestReadyMessage) :=
  [⟨utf8 "digest_id", .string, digestId, fun v m => { m with digestId := v }⟩,
   ⟨utf8 "generated_at", .string, generatedAt, fun v m => { m with generatedAt := v }⟩,
   ⟨utf8 "trace_id", .string, traceId, fun v m => { m with traceId := v }⟩,
   ⟨utf8 "period_hours", .uint32, periodHours, fun v m => { m with periodHours := v }⟩,
   ⟨utf8 "articles", .list DigestArticle.codec, articles, fun v m => { m with articles := v }⟩]

theorem fields_ne_nil : fields ≠ [] := List.cons_ne_nil _ _

def codec : Codec DigestReadyMessage := .record fields {} fields_ne_nil

/-- The strings of the message. -/
def strings (m : DigestReadyMessage) : List Bytes :=
  [m.digestId, m.generatedAt, m.traceId] ++ m.articles.flatMap DigestArticle.strings

end DigestReadyMessage

/-! ## The lists of members -/

namespace RawArticlesMessage

theorem fields_names :
    (fields.map Field.name).Nodup ∧ ∀ f ∈ fields, Utf8.Valid f.name := by
  constructor
  · decide
  · simp only [fields, List.forall_mem_cons]
    decide

theorem fields_cover : Codec.Covers fields {} := fun _ => rfl

theorem lossless (m : RawArticlesMessage) : codec.Lossless m :=
  Codec.lossless_record fields_names.1 fields_cover (by
    simp only [fields, List.forall_mem_cons]
    simp [Codec.lossless_string])

theorem validUtf8_toJson (m : RawArticlesMessage) :
    (codec.toJson m).ValidUtf8 ↔ ∀ s ∈ m.strings, Utf8.Valid s := by
  rw [codec, Codec.validUtf8_record fields_names.2]
  simp [fields, strings, Codec.validUtf8_string]

/-- What is decoded from text is text. -/
theorem valid_of_decode {j : Json} (hj : j.ValidUtf8) {m : RawArticlesMessage}
    (h : codec.fromJson j = some m) : ∀ s ∈ m.strings, Utf8.Valid s := by
  refine Codec.record_keeps (P := fun m => ∀ s ∈ strings m, Utf8.Valid s)
    (by simp [strings, Utf8.valid_nil]) ?_ hj h
  simp only [fields, List.forall_mem_cons]
  refine ⟨?_, ?_, ?_, ?_, ?_, by simp⟩ <;> intro v a t hv ha ht <;>
    have hvalid := Codec.valid_of_string hv ha <;>
    simp only [strings, List.forall_mem_cons] at ht ⊢ <;> simp_all

end RawArticlesMessage

namespace ParsedArticle

theorem fields_names :
    (fields.map Field.name).Nodup ∧ ∀ f ∈ fields, Utf8.Valid f.name := by
  constructor
  · decide
  · simp only [fields, List.forall_mem_cons]
    decide

theorem fields_cover : Codec.Covers fields {} := fun _ => rfl

theorem lossless (a : ParsedArticle) : codec.Lossless a :=
  Codec.lossless_record fields_names.1 fields_cover (by
    simp only [fields, List.forall_mem_cons]
    simp [Codec.lossless_string, Codec.lossless_int64, Codec.lossless_list])

theorem validUtf8_toJson (a : ParsedArticle) :
    (codec.toJson a).ValidUtf8 ↔ ∀ s ∈ a.strings, Utf8.Valid s := by
  rw [codec, Codec.validUtf8_record fields_names.2]
  simp only [fields, strings, List.forall_mem_cons, List.cons_append, List.nil_append,
    Codec.validUtf8_string, Codec.validUtf8_list, Codec.validUtf8_int64]
  tauto

/-- What is decoded from text is text. -/
theorem valid_of_decode {j : Json} (hj : j.ValidUtf8) {a : ParsedArticle}
    (h : codec.fromJson j = some a) : ∀ s ∈ a.strings, Utf8.Valid s := by
  have hstring : ∀ v s, v.ValidUtf8 → Codec.string.fromJson v = some s → Utf8.Valid s :=
    fun _ _ hv hs => Codec.valid_of_string hv hs
  refine Codec.record_keeps (P := fun a => ∀ s ∈ strings a, Utf8.Valid s)
    (by simp [strings, Utf8.valid_nil]) ?_ hj h
  simp only [fields, List.forall_mem_cons, strings, List.cons_append, List.nil_append]
  refine ⟨?_, ?_, ?_, ?_, ?_, ?_, ?_, ?_, ?_, ?_, ?_, ?_, by simp⟩ <;> intro v a t hv ha ht
  case refine_6 =>
    have hhubs := Codec.forall_of_list hstring hv ha
    simp_all
  all_goals
    first
    | have hvalid := hstring _ _ hv ha
      simp_all
    | exact ht

end ParsedArticle

namespace ParsedArticlesMessage

theorem fields_names :
    (fields.map Field.name).Nodup ∧ ∀ f ∈ fields, Utf8.Valid f.name := by
  constructor
  · decide
  · simp only [fields, List.forall_mem_cons]
    decide

theorem fields_cover : Codec.Covers fields {} := fun _ => rfl

theorem lossless (m : ParsedArticlesMessage) : codec.Lossless m :=
  Codec.lossless_record fields_names.1 fields_cover (by
    simp only [fields, List.forall_mem_cons]
    simp [Codec.lossless_string, Codec.lossless_list, ParsedArticle.lossless])

theorem validUtf8_toJson (m : ParsedArticlesMessage) :
    (codec.toJson m).ValidUtf8 ↔ ∀ s ∈ m.strings, Utf8.Valid s := by
  rw [codec, Codec.validUtf8_record fields_names.2]
  simp only [fields, strings, List.forall_mem_cons, List.cons_append, List.nil_append,
    Codec.validUtf8_string, Codec.validUtf8_list, ParsedArticle.validUtf8_toJson,
    List.forall_mem_flatMap]
  tauto

/-- What is decoded from text is text. -/
theorem valid_of_decode {j : Json} (hj : j.ValidUtf8) {m : ParsedArticlesMessage}
    (h : codec.fromJson j = some m) : ∀ s ∈ m.strings, Utf8.Valid s := by
  refine Codec.record_keeps (P := fun m => ∀ s ∈ strings m, Utf8.Valid s)
    (by simp [strings, Utf8.valid_nil]) ?_ hj h
  simp only [fields, List.forall_mem_cons, strings, List.cons_append, List.nil_append,
    List.forall_mem_flatMap]
  refine ⟨?_, ?_, ?_, ?_, ?_, by simp⟩ <;> intro v a t hv ha ht
  case refine_5 =>
    have harticles := Codec.forall_of_list (P := fun a => ∀ s ∈ ParsedArticle.strings a, _)
      (fun _ _ hv ha => ParsedArticle.valid_of_decode hv ha) hv ha
    exact ⟨ht.1, ht.2.1, ht.2.2.1, ht.2.2.2.1, harticles⟩
  all_goals
    have hvalid := Codec.valid_of_string hv ha
    tauto

end ParsedArticlesMessage

namespace DigestArticle

theorem fields_names :
    (fields.map Field.name).Nodup ∧ ∀ f ∈ fields, Utf8.Valid f.name := by
  constructor
  · decide
  · simp only [fields, List.forall_mem_cons]
    decide

theorem fields_cover : Codec.Covers fields {} := fun _ => rfl

/-- An article whose score is not finite is refused. -/
theorem refuses {a : DigestArticle} (h : a.score.isFinite = false) :
    codec.fromJson (codec.toJson a).norm = none := by
  have hmem : (⟨utf8 "score", .double, score, fun v a => { a with score := v }⟩ :
      Field DigestArticle) ∈ fields := by simp [fields]
  refine Codec.refuses_record hmem fun v hv => ?_
  have hat := Codec.atKey_record {} fields_ne_nil fields_names.1 hmem a
  obtain rfl := Option.some.inj (hat.symm.trans hv)
  exact Codec.refuses_double h

/-- **An article comes back if and only if its score is finite.** -/
theorem lossless_iff (a : DigestArticle) : codec.Lossless a ↔ a.score.isFinite = true := by
  constructor
  · intro h
    by_contra hscore
    rw [Codec.Lossless, refuses (by simpa using hscore)] at h
    exact absurd h (by simp)
  · intro h
    refine Codec.lossless_record fields_names.1 fields_cover ?_
    simp only [fields, List.forall_mem_cons]
    simp [Codec.lossless_string, Codec.lossless_int64, Codec.lossless_list,
      Codec.lossless_double, h]

theorem validUtf8_toJson (a : DigestArticle) :
    (codec.toJson a).ValidUtf8 ↔ ∀ s ∈ a.strings, Utf8.Valid s := by
  rw [codec, Codec.validUtf8_record fields_names.2]
  simp only [fields, strings, List.forall_mem_cons, List.cons_append, List.nil_append,
    Codec.validUtf8_string, Codec.validUtf8_list, Codec.validUtf8_int64, Codec.validUtf8_double]
  tauto

end DigestArticle

namespace DigestReadyMessage

theorem fields_names :
    (fields.map Field.name).Nodup ∧ ∀ f ∈ fields, Utf8.Valid f.name := by
  constructor
  · decide
  · simp only [fields, List.forall_mem_cons]
    decide

theorem fields_cover : Codec.Covers fields {} := fun _ => rfl

/-- A digest with an article whose score is not finite is refused. -/
theorem refuses {m : DigestReadyMessage} {a : DigestArticle} (ha : a ∈ m.articles)
    (h : a.score.isFinite = false) : codec.fromJson (codec.toJson m).norm = none := by
  have hmem : (⟨utf8 "articles", .list DigestArticle.codec, articles,
      fun v m => { m with articles := v }⟩ : Field DigestReadyMessage) ∈ fields := by
    simp [fields]
  refine Codec.refuses_record hmem fun v hv => ?_
  have hat := Codec.atKey_record {} fields_ne_nil fields_names.1 hmem m
  obtain rfl := Option.some.inj (hat.symm.trans hv)
  show (Codec.list DigestArticle.codec).fromJson (Json.array _).norm = none
  rw [Json.norm_array, List.map_map]
  exact Codec.refuses_list (List.mem_map_of_mem ha) (DigestArticle.refuses h)

/-- **A digest comes back if and only if all its scores are finite.** -/
theorem lossless_iff (m : DigestReadyMessage) :
    codec.Lossless m ↔ ∀ a ∈ m.articles, a.score.isFinite = true := by
  constructor
  · intro h a ha
    by_contra hscore
    rw [Codec.Lossless, refuses ha (by simpa using hscore)] at h
    exact absurd h (by simp)
  · intro h
    have harticles : (Codec.list DigestArticle.codec).Lossless m.articles :=
      Codec.lossless_list fun a ha => (DigestArticle.lossless_iff a).mpr (h a ha)
    refine Codec.lossless_record fields_names.1 fields_cover ?_
    simp only [fields, List.forall_mem_cons]
    simp [Codec.lossless_string, Codec.lossless_uint32, harticles]

theorem validUtf8_toJson (m : DigestReadyMessage) :
    (codec.toJson m).ValidUtf8 ↔ ∀ s ∈ m.strings, Utf8.Valid s := by
  rw [codec, Codec.validUtf8_record fields_names.2]
  simp only [fields, strings, List.forall_mem_cons, List.cons_append, List.nil_append,
    Codec.validUtf8_string, Codec.validUtf8_list, Codec.validUtf8_uint32,
    DigestArticle.validUtf8_toJson, List.forall_mem_flatMap]
  tauto

end DigestReadyMessage

end Messaging
end HabrDigest
