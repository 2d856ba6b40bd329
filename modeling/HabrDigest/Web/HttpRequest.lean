import HabrDigest.Lib.JsonPretty
import HabrDigest.Web.PageTemplate
import HabrDigest.Web.WebService

/-!
# The HTTP side of the web service

`WebService::HandleHttpRequest`: three paths and a 404.  It is called by libevent, through a
trampoline that is C, so an exception would end the process; the one thing that can throw is the
`dump(2)` of the latest digest, on a string that is not text.  The page and the digest are both
announced as UTF-8, and the page is, if the strings of the digests are (`valid_renderPage`).
-/

namespace HabrDigest
namespace Web

open Messaging Template

/-! ## Replies -/

/-- What `evhttp_send_reply` gets. -/
structure HttpReply where
  status : ℕ := 200
  reason : Bytes := utf8 "OK"
  contentType : Bytes
  cacheControl : Bytes := utf8 "no-store"
  body : Bytes
  deriving DecidableEq, Repr

/-- The path of a request.  There may be no URI, or no path in it, or an empty one. -/
def requestPath (rawPath : Option Bytes) : Bytes :=
  match rawPath with
  | none => utf8 "/"
  | some path => if path = [] then utf8 "/" else path

/-- `WebService::HandleHttpRequest`, with what `connected()` says: the reply, or none where it
throws. -/
def handleHttpRequest (n : IndentingNlohmann) (negatedMin : Int64) (connected : Bool)
    (digests : List DigestReadyMessage) (rawPath : Option Bytes) : Option HttpReply :=
  let path := requestPath rawPath
  if path = utf8 "/" ∨ path = utf8 "/index.html" then
    some { contentType := utf8 "text/html; charset=utf-8", body := renderPage negatedMin digests }
  else if path = utf8 "/api/digest" then
    (match digests with
    | [] => some (utf8 "\x7b\x7d")
    | latest :: _ => n.dumpIndented 2 (DigestReadyMessage.codec.toJson latest)).map fun body =>
      { contentType := utf8 "application/json; charset=utf-8", body := body }
  else if path = utf8 "/healthz" then
    some
      { contentType := utf8 "text/plain; charset=utf-8"
        body := if connected then utf8 "ok\n" else utf8 "degraded: no broker connection\n" }
  else
    some
      { status := 404
        reason := utf8 "Not Found"
        contentType := utf8 "text/plain; charset=utf-8"
        body := utf8 "not found\n" }

/-! ## The page is text -/

theorem valid_escapeHtml {s : Bytes} (h : Utf8.Valid s) : Utf8.Valid (escapeHtml s) := by
  refine h.flatMap (fun b hb => ?_) fun b hb => ?_
  · split_ifs
    · decide
    · decide
    · decide
    · decide
    · decide
    · exact Utf8.valid_singleton hb
  · have hne : ∀ c : UInt8, c < 0x80 → b ≠ c := fun c hc heq => hb (heq ▸ hc)
    rw [if_neg (hne 0x26 (by decide)), if_neg (hne 0x3C (by decide)), if_neg (hne 0x3E (by decide)),
      if_neg (hne 0x22 (by decide)), if_neg (hne 0x27 (by decide))]

theorem valid_of_isNumeric {s : Bytes} (h : ∀ b ∈ s, Numeral.isNumeric b = true) :
    Utf8.Valid s := by
  refine Utf8.valid_of_ascii fun b hb => ?_
  have hnumeric := h b hb
  rw [Numeral.isNumeric, Bool.or_eq_true] at hnumeric
  rcases hnumeric with hdigit | hother
  · have hrange := Numeral.isDigit_iff.mp hdigit
    exact UInt8.lt_iff_toNat_lt.mpr (by simp; omega)
  · have hsymbols : ∀ c ∈ utf8 " -.infa", c < 0x80 := by decide
    exact hsymbols b (by simpa using hother)

/-- A slot that holds text holds UTF-8. -/
def Slot.Valid : Slot → Prop
  | text field => Utf8.Valid field
  | _ => True

theorem Slot.Valid.content {slot : Slot} (h : slot.Valid) (negatedMin : Int64) :
    Utf8.Valid (slot.content negatedMin) := by
  cases slot with
  | text field => exact valid_escapeHtml h
  | counter value => exact valid_of_isNumeric (isNumeric_formatNumber negatedMin value)
  | score value => exact valid_of_isNumeric (Notifier.isNumeric_fixedOne value)
  | hours value => exact valid_of_isNumeric Numeral.isNumeric_digits

/-- The literals of a template are UTF-8. -/
def ValidTemplate (t : List (Fragment UInt8)) : Prop :=
  ∀ s, Fragment.literal s ∈ t → Utf8.Valid s

theorem validTemplate_nil : ValidTemplate [] := fun _ hs => absurd hs List.not_mem_nil

theorem validTemplate_append {t t' : List (Fragment UInt8)} :
    ValidTemplate (t ++ t') ↔ ValidTemplate t ∧ ValidTemplate t' := by
  simp only [ValidTemplate, List.mem_append, or_imp, forall_and]

theorem validTemplate_literal {s : Bytes} {t : List (Fragment UInt8)} :
    ValidTemplate (.literal s :: t) ↔ Utf8.Valid s ∧ ValidTemplate t := by
  simp [ValidTemplate]

theorem validTemplate_slot {t : List (Fragment UInt8)} :
    ValidTemplate (.slot :: t) ↔ ValidTemplate t := by
  simp [ValidTemplate]

theorem validTemplate_flatten {ts : List (List (Fragment UInt8))} :
    ValidTemplate ts.flatten ↔ ∀ t ∈ ts, ValidTemplate t := by
  constructor
  · exact fun h t ht s hs => h s (List.mem_flatten.mpr ⟨t, ht, hs⟩)
  · intro h s hs
    obtain ⟨t, ht, hmem⟩ := List.mem_flatten.mp hs
    exact h t ht s hmem

theorem valid_digits (n : ℕ) : Utf8.Valid (Numeral.digits n) :=
  valid_of_isNumeric Numeral.isNumeric_digits

theorem validTemplate_byline (shape : ItemShape) : ValidTemplate (bylineTemplate shape) := by
  have hopen : Utf8.Valid (utf8 "<div class=\"byline\">") := by decide +kernel
  have hdot : Utf8.Valid (utf8 " · ") := by decide +kernel
  have hend : Utf8.Valid (utf8 "</div>") := by decide +kernel
  unfold bylineTemplate
  split_ifs <;>
    simp only [validTemplate_append, validTemplate_literal, validTemplate_slot, hopen, hdot, hend,
      validTemplate_nil, and_self]

theorem validTemplate_hubs (hubs : ℕ) : ValidTemplate (hubsTemplate hubs) := by
  have hopen : Utf8.Valid (utf8 "<div class=\"hubs\">") := by decide +kernel
  have hspan : Utf8.Valid (utf8 "<span class=\"hub\">") := by decide +kernel
  have hclose : Utf8.Valid (utf8 "</span>") := by decide +kernel
  have hend : Utf8.Valid (utf8 "</div>") := by decide +kernel
  unfold hubsTemplate
  split_ifs
  · exact validTemplate_nil
  · simp only [validTemplate_append, validTemplate_flatten, List.mem_replicate]
    refine ⟨⟨?_, fun t ht => ?_⟩, ?_⟩
    · exact validTemplate_literal.mpr ⟨hopen, validTemplate_nil⟩
    · rw [ht.2]
      exact validTemplate_literal.mpr
        ⟨hspan, validTemplate_slot.mpr (validTemplate_literal.mpr ⟨hclose, validTemplate_nil⟩)⟩
    · exact validTemplate_literal.mpr ⟨hend, validTemplate_nil⟩

theorem validTemplate_span {label : Bytes} (h : Utf8.Valid label) :
    ValidTemplate (spanTemplate label) :=
  validTemplate_literal.mpr
    ⟨h, validTemplate_slot.mpr (validTemplate_literal.mpr ⟨by decide +kernel, validTemplate_nil⟩)⟩

theorem validTemplate_items (rank : ℕ) (shapes : List ItemShape) :
    ValidTemplate (itemsTemplate rank shapes) := by
  have hstats : ValidTemplate (spanTemplate (utf8 "<span>рейтинг <b>") ++
      spanTemplate (utf8 "<span>просмотры <b>") ++ spanTemplate (utf8 "<span>закладки <b>") ++
      spanTemplate (utf8 "<span>комментарии <b>") ++ spanTemplate (utf8 "<span>score <b>")) := by
    simp only [validTemplate_append]
    exact ⟨⟨⟨⟨validTemplate_span (by decide +kernel), validTemplate_span (by decide +kernel)⟩,
      validTemplate_span (by decide +kernel)⟩, validTemplate_span (by decide +kernel)⟩,
      validTemplate_span (by decide +kernel)⟩
  simp only [validTemplate_append] at hstats
  obtain ⟨⟨⟨⟨hvotes, hviews⟩, hbookmarks⟩, hcomments⟩, hscore⟩ := hstats
  induction shapes generalizing rank with
  | nil => exact validTemplate_nil
  | cons shape shapes ih =>
    rw [itemsTemplate, List.cons_append, validTemplate_literal, validTemplate_append]
    refine ⟨by decide +kernel, ?_, ih (rank + 1)⟩
    unfold itemTemplate
    simp only [validTemplate_append, validTemplate_literal, validTemplate_slot, validTemplate_nil,
      validTemplate_byline, validTemplate_hubs, valid_digits, hvotes, hviews, hbookmarks,
      hcomments, hscore, and_true, true_and]
    decide +kernel

theorem validTemplate_archive (counts : List ℕ) : ValidTemplate (archiveTemplate counts) := by
  unfold archiveTemplate
  split_ifs
  · exact validTemplate_nil
  · simp only [validTemplate_append, List.flatMap_def, validTemplate_flatten, List.mem_map,
      forall_exists_index, and_imp, forall_apply_eq_imp_iff₂, validTemplate_literal,
      validTemplate_slot, validTemplate_nil, valid_digits, and_true, true_and]
    refine ⟨⟨by decide +kernel, fun _ _ => by decide +kernel⟩, by decide +kernel⟩

/-- **The literals of the page are UTF-8.** -/
theorem validTemplate_pageTemplate (shape : Option PageShape) :
    ValidTemplate (pageTemplate shape) := by
  have hhead : ValidTemplate headTemplate := by
    simp only [headTemplate, validTemplate_literal, validTemplate_nil, and_true]
    decide +kernel
  have hend : ValidTemplate [.literal (utf8 "</div></body></html>")] :=
    validTemplate_literal.mpr ⟨by decide +kernel, validTemplate_nil⟩
  cases shape with
  | none =>
    have hempty : ValidTemplate emptyTemplate := by
      simp only [emptyTemplate, validTemplate_literal, validTemplate_nil, and_true]
      decide +kernel
    exact validTemplate_append.mpr ⟨validTemplate_append.mpr ⟨hhead, hempty⟩, hend⟩
  | some shape =>
    have hmeta : ValidTemplate (metaTemplate shape.items.length) := by
      simp only [metaTemplate, validTemplate_literal, validTemplate_slot, validTemplate_nil,
        valid_digits, and_true, true_and]
      decide +kernel
    simp only [pageTemplate, validTemplate_append]
    exact ⟨⟨⟨⟨hhead, hmeta⟩, validTemplate_items 1 _⟩, validTemplate_archive _⟩, hend⟩

theorem valid_pageSlots {digests : List DigestReadyMessage}
    (h : ∀ d ∈ digests, ∀ s ∈ d.strings, Utf8.Valid s) :
    ∀ slot ∈ pageSlots digests, slot.Valid := by
  cases digests with
  | nil => exact fun _ hslot => absurd hslot List.not_mem_nil
  | cons latest previous =>
    obtain ⟨hlatest, hprevious⟩ := List.forall_mem_cons.mp h
    have harticle : ∀ article ∈ latest.articles, ∀ slot ∈ itemSlots article, slot.Valid := by
      intro article hmem slot hslot
      have hstrings : ∀ s ∈ article.strings, Utf8.Valid s := fun s hs =>
        hlatest s (List.mem_append_right _ (List.mem_flatMap.mpr ⟨article, hmem, hs⟩))
      have hauthor : Utf8.Valid article.author := hstrings _ (by simp [DigestArticle.strings])
      have hdate : Utf8.Valid article.publishedAt := hstrings _ (by simp [DigestArticle.strings])
      simp only [itemSlots, List.mem_append, List.mem_cons, List.not_mem_nil, or_false,
        List.mem_map] at hslot
      rcases hslot with (((rfl | rfl) | hbyline) | ⟨hub, hhub, rfl⟩) | (rfl | rfl | rfl | rfl | rfl)
      · exact hstrings _ (by simp [DigestArticle.strings])
      · exact hstrings _ (by simp [DigestArticle.strings])
      · unfold bylineSlots at hbyline
        split_ifs at hbyline with hnone hundated
        · exact absurd hbyline List.not_mem_nil
        · rw [List.mem_singleton.mp hbyline]
          exact hauthor
        · rcases List.mem_cons.mp hbyline with rfl | hbyline
          · exact hauthor
          · rw [List.mem_singleton.mp hbyline]
            exact hdate
      · exact hstrings _ (by simp [DigestArticle.strings, hhub])
      all_goals exact trivial
    intro slot hslot
    simp only [pageSlots, List.mem_append, List.mem_cons, List.not_mem_nil, or_false,
      List.mem_flatMap, List.mem_map] at hslot
    rcases hslot with ((rfl | rfl | rfl) | ⟨article, hmem, hslot⟩) | ⟨d, hd, rfl⟩
    · exact trivial
    · exact hlatest _ (by simp [DigestReadyMessage.strings])
    · exact hlatest _ (by simp [DigestReadyMessage.strings])
    · exact harticle article hmem slot hslot
    · exact hprevious d hd _ (by simp [DigestReadyMessage.strings])

/-- **The page is UTF-8**, as its content type says, if the strings of the digests are. -/
theorem valid_renderPage (negatedMin : Int64) {digests : List DigestReadyMessage}
    (h : ∀ d ∈ digests, ∀ s ∈ d.strings, Utf8.Valid s) :
    Utf8.Valid (renderPage negatedMin digests) := by
  refine (fills_renderPage negatedMin digests).closed Utf8.valid_nil Utf8.Valid.append
    (validTemplate_pageTemplate _) fun v hv => ?_
  obtain ⟨slot, hslot, rfl⟩ := List.mem_map.mp hv
  exact (valid_pageSlots h slot hslot).content negatedMin

/-! ## Every request is answered -/

/-- What a reply to a path has to be, with these digests. -/
structure Answers (n : Nlohmann) (negatedMin : Int64) (digests : List DigestReadyMessage)
    (path : Bytes) (reply : HttpReply) : Prop where
  /-- The page is the template filled with the digests, and it is UTF-8. -/
  page : path = utf8 "/" ∨ path = utf8 "/index.html" →
    Utf8.Valid reply.body ∧
      Fills (pageTemplate (pageShape digests))
        ((pageSlots digests).map (Slot.content negatedMin)) reply.body
  /-- The latest digest comes back from its JSON. -/
  latest : path = utf8 "/api/digest" → ∀ d, digests.head? = some d →
    n.decode DigestReadyMessage.codec reply.body = some d
  nothing : path = utf8 "/api/digest" → digests = [] → reply.body = utf8 "\x7b\x7d"
  unknown : reply.status = 404 ↔
    path ∉ [utf8 "/", utf8 "/index.html", utf8 "/api/digest", utf8 "/healthz"]

/-- A digest of texts and finite scores is dumped, and comes back. -/
theorem exists_dumpIndented (n : IndentingNlohmann) {digest : DigestReadyMessage}
    (htext : ∀ s ∈ digest.strings, Utf8.Valid s)
    (hfinite : ∀ a ∈ digest.articles, a.score.isFinite = true) (step : ℕ) :
    ∃ text, n.dumpIndented step (DigestReadyMessage.codec.toJson digest) = some text ∧
      n.decode DigestReadyMessage.codec text = some digest := by
  have hsome := n.dumpIndented_isSome step (DigestReadyMessage.codec.toJson digest)
  rw [(n.dump_isSome _).mpr ((DigestReadyMessage.validUtf8_toJson digest).mpr htext)] at hsome
  obtain ⟨text, hdump⟩ := Option.isSome_iff_exists.mp hsome
  refine ⟨text, hdump, ?_⟩
  rw [Nlohmann.decode, n.parse_dumpIndented _ _ _ hdump]
  exact (DigestReadyMessage.lossless_iff digest).mpr hfinite

/-- **`HandleHttpRequest` does not throw** on digests of texts and finite scores, and its replies are
what they should be. -/
theorem exists_handleHttpRequest (n : IndentingNlohmann) (negatedMin : Int64) (connected : Bool)
    {digests : List DigestReadyMessage} (htext : ∀ d ∈ digests, ∀ s ∈ d.strings, Utf8.Valid s)
    (hfinite : ∀ d ∈ digests, ∀ a ∈ d.articles, a.score.isFinite = true)
    (rawPath : Option Bytes) :
    ∃ reply, handleHttpRequest n negatedMin connected digests rawPath = some reply ∧
      Answers n.toNlohmann negatedMin digests (requestPath rawPath) reply := by
  have hempty : ∀ d, ([] : List DigestReadyMessage).head? ≠ some d := fun _ h => by simp at h
  unfold handleHttpRequest
  generalize requestPath rawPath = path
  dsimp only
  by_cases hpage : path = utf8 "/" ∨ path = utf8 "/index.html"
  · have hother : path ≠ utf8 "/api/digest" := by rcases hpage with rfl | rfl <;> decide
    rw [if_pos hpage]
    refine ⟨_, rfl, fun _ => ?_, fun h => absurd h hother, fun h => absurd h hother, ?_⟩
    · exact ⟨valid_renderPage negatedMin htext, fills_renderPage negatedMin digests⟩
    · rcases hpage with rfl | rfl <;> simp
  rw [if_neg hpage]
  by_cases hdigest : path = utf8 "/api/digest"
  · rw [if_pos hdigest]
    cases digests with
    | nil =>
      exact ⟨_, rfl, fun h => absurd h hpage, fun _ d hd => absurd hd (hempty d), fun _ _ => rfl,
        by simp [hdigest]⟩
    | cons latest previous =>
      obtain ⟨text, hdump, hdecode⟩ := exists_dumpIndented n (htext latest List.mem_cons_self)
        (hfinite latest List.mem_cons_self) 2
      simp only [hdump, Option.map_some]
      refine ⟨_, rfl, fun h => absurd h hpage, fun _ d hd => ?_, fun _ h => absurd h (by simp),
        by simp [hdigest]⟩
      obtain rfl := Option.some.inj hd
      exact hdecode
  rw [if_neg hdigest]
  by_cases hhealth : path = utf8 "/healthz"
  · rw [if_pos hhealth]
    exact ⟨_, rfl, fun h => absurd h hpage, fun h => absurd h hdigest, fun h => absurd h hdigest,
      by simp [hhealth]⟩
  · rw [if_neg hhealth]
    refine ⟨_, rfl, fun h => absurd h hpage, fun h => absurd h hdigest,
      fun h => absurd h hdigest, ?_⟩
    simp only [List.mem_cons, List.not_mem_nil, or_false, true_iff]
    tauto

end Web
end HabrDigest
