import HabrDigest.Lib.JsonText
import HabrDigest.Notifier.NotifierService
import HabrDigest.Parser.ParserService
import HabrDigest.Storage.StorageService
import HabrDigest.Web.WebService

/-!
# The wire formats, from end to end

Each of the three messages comes back from its encoding, and an encoding that was damaged is
refused by whoever receives it.  Damage is done to one object: the message itself, or one of
its articles, at whatever position.  `refuses_apply` covers both, for every record that has a
list of records under `articles`.

What a consumer does with a payload that does not decode is the same in all four of them:
it returns `kReject`, and nothing else has happened.
-/

namespace HabrDigest
namespace Pipeline

open Messaging

/-- What can be done to a message. -/
inductive MessageDamage where
  /-- A member of the message itself is damaged. -/
  | top (d : MemberDamage)
  /-- A member of one of its articles is damaged. -/
  | article (i : ℕ) (d : MemberDamage)

namespace MessageDamage

/-- The message after the damage. -/
def apply : MessageDamage → Json → Json
  | top d, j => d.apply j
  | article i d, j => MemberDamage.applyAt (utf8 "articles") i d j

/-- The damage is done to a member of the message, or to a member of an article it has. -/
def Hits {σ τ : Type} (fields : List (Field σ)) (articleFields : List (Field τ)) (articles : ℕ) :
    MessageDamage → Prop
  | top d => d.Hits fields
  | article i d => i < articles ∧ d.Hits articleFields

/-- **A damaged message is refused**, whichever member of whichever article was hit. -/
theorem refuses_apply {σ τ : Type} {fields : List (Field σ)} {initial : σ} {hne : fields ≠ []}
    (hnames : (fields.map Field.name).Nodup) {elements : List (Field τ)} {element : τ}
    {hne' : elements ≠ []} (get : σ → List τ) (set : List τ → σ → σ)
    (hmem : ⟨utf8 "articles", .list (.record elements element hne'), get, set⟩ ∈ fields) (m : σ)
    {d : MessageDamage} (hd : d.Hits fields elements (get m).length) :
    (Codec.record fields initial hne).fromJson
      (d.apply ((Codec.record fields initial hne).toJson m).norm) = none := by
  cases d with
  | top d => exact MemberDamage.refuses_apply hd _
  | article i d =>
    obtain ⟨hi, hd⟩ := hd
    have hat := Codec.atKey_record initial hne hnames hmem m
    have harray : ((Codec.list (Codec.record elements element hne')).toJson (get m)).norm =
        .array ((get m).map fun a => ((Codec.record elements element hne').toJson a).norm) := by
      show (Json.array _).norm = _
      rw [Json.norm_array, List.map_map]
      rfl
    rw [harray] at hat
    exact MemberDamage.refuses_applyAt hmem hd hat (by simpa using hi)
      fun x (hx : (Codec.record elements element hne').fromJson x = none) ys hys =>
        Codec.refuses_list hys hx

end MessageDamage

/-- Text that parses to a value which is refused does not decode. -/
theorem decode_eq_none {n : Nlohmann} {α : Type} {c : Codec α} {payload : Bytes} {j : Json}
    (hparse : n.parse payload = some j) (h : c.fromJson j = none) : n.decode c payload = none := by
  rw [Nlohmann.decode, hparse, Option.bind_some, h]

/-- A message comes back from its encoding. -/
theorem exists_encode {n : Nlohmann} {α : Type} {c : Codec α} {a : α} (hlossless : c.Lossless a)
    (hvalid : (c.toJson a).ValidUtf8) :
    ∃ payload, n.encode c a = some payload ∧ n.decode c payload = some a := by
  obtain ⟨payload, hpayload⟩ := Option.isSome_iff_exists.mp (Nlohmann.encode_isSome_iff.mpr hvalid)
  exact ⟨payload, hpayload, Nlohmann.decode_encode_of_lossless hlossless hpayload⟩

/-- The parser rejects what does not decode, and has published nothing. -/
theorem handleRawArticles_of_decode_eq_none {n : Nlohmann} {payload : Bytes}
    (h : n.decode RawArticlesMessage.codec payload = none) (p : Parser.HtmlParser) (now : ℤ)
    (publishes : Bool) :
    Parser.handleRawArticles n p now publishes payload = ⟨some .kReject, []⟩ := by
  rw [Parser.handleRawArticles, h]

/-- The storage service rejects what does not decode, and its database is as before. -/
theorem handleParsedArticles_of_decode_eq_none {n : Nlohmann} {payload : Bytes}
    (h : n.decode ParsedArticlesMessage.codec payload = none) (calls : Storage.Calls)
    (counts : Bool) (clock : Storage.Clock) (c : Sqlite.Connection Storage.Table) :
    Storage.handleParsedArticles n calls counts clock payload c = (.kReject, c) := by
  rw [Storage.handleParsedArticles, h]

/-- The web service rejects what does not decode, and its history is as before. -/
theorem web_handleDigestReady_of_decode_eq_none {n : Nlohmann} {payload : Bytes}
    (h : n.decode DigestReadyMessage.codec payload = none) (config : Web.Config)
    (digests : List DigestReadyMessage) :
    Web.handleDigestReady n config payload digests = (.kReject, digests) := by
  rw [Web.handleDigestReady, h]

theorem parsedArticles_refuses (m : ParsedArticlesMessage) {d : MessageDamage}
    (hd : d.Hits ParsedArticlesMessage.fields ParsedArticle.fields m.articles.length) :
    ParsedArticlesMessage.codec.fromJson (d.apply (ParsedArticlesMessage.codec.toJson m).norm) =
      none := by
  have hmem : (⟨utf8 "articles", .list ParsedArticle.codec, ParsedArticlesMessage.articles,
      fun v m => { m with articles := v }⟩ : Field ParsedArticlesMessage) ∈
        ParsedArticlesMessage.fields := by simp [ParsedArticlesMessage.fields]
  exact MessageDamage.refuses_apply ParsedArticlesMessage.fields_names.1 _ _ hmem m hd

theorem digestReady_refuses (m : DigestReadyMessage) {d : MessageDamage}
    (hd : d.Hits DigestReadyMessage.fields DigestArticle.fields m.articles.length) :
    DigestReadyMessage.codec.fromJson (d.apply (DigestReadyMessage.codec.toJson m).norm) =
      none := by
  have hmem : (⟨utf8 "articles", .list DigestArticle.codec, DigestReadyMessage.articles,
      fun v m => { m with articles := v }⟩ : Field DigestReadyMessage) ∈
        DigestReadyMessage.fields := by simp [DigestReadyMessage.fields]
  exact MessageDamage.refuses_apply DigestReadyMessage.fields_names.1 _ _ hmem m hd

/-- **The wire formats are lossless and strict.**  Every message of text, a digest with finite
scores, comes back from its encoding.  A payload that parses to a damaged encoding does not
decode, and every consumer rejects it and has changed nothing. -/
theorem wireFormats_lossless_strict (n : Nlohmann) :
    (∀ m : RawArticlesMessage, (∀ s ∈ m.strings, Utf8.Valid s) →
      ∃ payload, n.encode RawArticlesMessage.codec m = some payload ∧
        n.decode RawArticlesMessage.codec payload = some m) ∧
    (∀ m : ParsedArticlesMessage, (∀ s ∈ m.strings, Utf8.Valid s) →
      ∃ payload, n.encode ParsedArticlesMessage.codec m = some payload ∧
        n.decode ParsedArticlesMessage.codec payload = some m) ∧
    (∀ m : DigestReadyMessage, (∀ s ∈ m.strings, Utf8.Valid s) →
      (∀ a ∈ m.articles, a.score.isFinite = true) →
      ∃ payload, n.encode DigestReadyMessage.codec m = some payload ∧
        n.decode DigestReadyMessage.codec payload = some m) ∧
    (∀ (m : RawArticlesMessage) (d : MemberDamage) (payload : Bytes),
      d.Hits RawArticlesMessage.fields →
      n.parse payload = some (d.apply (RawArticlesMessage.codec.toJson m).norm) →
      n.decode RawArticlesMessage.codec payload = none ∧
      ∀ p now publishes,
        Parser.handleRawArticles n p now publishes payload = ⟨some .kReject, []⟩) ∧
    (∀ (m : ParsedArticlesMessage) (d : MessageDamage) (payload : Bytes),
      d.Hits ParsedArticlesMessage.fields ParsedArticle.fields m.articles.length →
      n.parse payload = some (d.apply (ParsedArticlesMessage.codec.toJson m).norm) →
      n.decode ParsedArticlesMessage.codec payload = none ∧
      ∀ calls counts clock c,
        Storage.handleParsedArticles n calls counts clock payload c = (.kReject, c)) ∧
    (∀ (m : DigestReadyMessage) (d : MessageDamage) (payload : Bytes),
      d.Hits DigestReadyMessage.fields DigestArticle.fields m.articles.length →
      n.parse payload = some (d.apply (DigestReadyMessage.codec.toJson m).norm) →
      n.decode DigestReadyMessage.codec payload = none ∧
      (∀ config first second files,
        Notifier.handleDigestReady n config first second payload files = (.kReject, files)) ∧
      ∀ config digests, Web.handleDigestReady n config payload digests = (.kReject, digests)) := by
  refine ⟨fun m hm => ?_, fun m hm => ?_, fun m hm hscore => ?_, fun m d payload hd hparse => ?_,
    fun m d payload hd hparse => ?_, fun m d payload hd hparse => ?_⟩
  · exact exists_encode m.lossless (m.validUtf8_toJson.mpr hm)
  · exact exists_encode m.lossless (m.validUtf8_toJson.mpr hm)
  · exact exists_encode (m.lossless_iff.mpr hscore) (m.validUtf8_toJson.mpr hm)
  · have hrefuses : RawArticlesMessage.codec.fromJson
        (d.apply (RawArticlesMessage.codec.toJson m).norm) = none :=
      MemberDamage.refuses_apply hd _
    have hnone := decode_eq_none hparse hrefuses
    exact ⟨hnone, handleRawArticles_of_decode_eq_none hnone⟩
  · have hnone := decode_eq_none hparse (parsedArticles_refuses m hd)
    exact ⟨hnone, handleParsedArticles_of_decode_eq_none hnone⟩
  · have hnone := decode_eq_none hparse (digestReady_refuses m hd)
    exact ⟨hnone, Notifier.handleDigestReady_of_decode_eq_none hnone,
      web_handleDigestReady_of_decode_eq_none hnone⟩

/-- A digest of one article. -/
def wiredDigest : DigestReadyMessage := { articles := [{ title := utf8 "a" }] }

/-- The title of its article is replaced by a number. -/
def titleRetyped : MessageDamage := .article 0 (.retype (utf8 "title") (.integer 7))

/-- There is a payload of the damaged digest, and nobody takes it. -/
theorem wireFormats_lossless_strict_titleRetyped :
    ∃ payload, Nlohmann.reference.parse payload =
        some (titleRetyped.apply (DigestReadyMessage.codec.toJson wiredDigest).norm) ∧
      Nlohmann.reference.decode DigestReadyMessage.codec payload = none ∧
      (∀ config first second files, Notifier.handleDigestReady .reference config first second
        payload files = (.kReject, files)) ∧
      ∀ config digests, Web.handleDigestReady .reference config payload digests =
        (.kReject, digests) := by
  have hvalid : (titleRetyped.apply
      (DigestReadyMessage.codec.toJson wiredDigest).norm).ValidUtf8 := by
    unfold Json.ValidUtf8
    decide
  obtain ⟨payload, hdump⟩ :=
    Option.isSome_iff_exists.mp ((Nlohmann.reference.dump_isSome _).mpr hvalid)
  have hparse : Nlohmann.reference.parse payload =
      some (titleRetyped.apply (DigestReadyMessage.codec.toJson wiredDigest).norm) :=
    Nlohmann.reference.parse_dump _ _ hdump
  have hhits : titleRetyped.Hits DigestReadyMessage.fields DigestArticle.fields
      wiredDigest.articles.length :=
    ⟨by decide, rfl, _, List.getElem_mem (n := 2) (by decide), rfl, Or.inl rfl⟩
  obtain ⟨-, -, -, -, -, hstrict⟩ := wireFormats_lossless_strict .reference
  exact ⟨payload, hparse, hstrict wiredDigest titleRetyped payload hhits hparse⟩

end Pipeline
end HabrDigest
