import Mathlib.Algebra.Group.Nat.Defs
import OpenPS2Loader.Http.StreamSegmentation

/-!
# What a ranged request accepts

`HttpStreamBegin` parses the header block by hand. Here its parsers are compared with a grammar of
the header values, and the header lines of a response that is accepted are described: how many
there are of each kind that matters, and what they say.

A ranged request is answered by a 206. The call checks the range of a 206 and refuses a 200, and it
hands every other status below 300 to its callers, which go on with a 206 only.

## Main definitions

* `IsDecimal`, `IsLengthValue`, `IsRangeValue` — the grammar of the header values
* `Describes` — what is known of the header lines once they were read

## Main results

* `parseDecimal_spec`, `parseLength_spec`, `parseRange_spec` — the parsers against the grammar
* `describes_step`, `describes_foldlM` — one header line, and all of them
* `ranged_stream_sound` — what a ranged request accepts
-/

namespace OpenPS2Loader

namespace HttpStream

/-! ### The grammar of the header values -/

/-- The value of a string of digits. -/
def decimalValue (digits : Text) : ℕ :=
  digits.foldl (fun v c => 10 * v + (c.toNat - 48)) 0

/-- `digits` is the decimal number `v`, which fits 64 bits. -/
structure IsDecimal (digits : Text) (v : ℕ) : Prop where
  ne_nil : digits ≠ []
  isDigit : ∀ c ∈ digits, c.isDigit = true
  value : decimalValue digits = v
  lt : v < 2 ^ 64

/-- Blanks only. -/
def Blanks (s : Text) : Prop := ∀ c ∈ s, isBlank c = true

/-- A value of `Content-Length`: the number, between blanks. -/
def IsLengthValue (value : Text) (v : ℕ) : Prop :=
  ∃ b digits b', value = b ++ digits ++ b' ∧ Blanks b ∧ IsDecimal digits v ∧ Blanks b'

/-- A value of `Content-Range`: `bytes first-last/total`. -/
def IsRangeValue (value : Text) (first last total : ℕ) : Prop :=
  ∃ b unit b' d₁ d₂ d₃ b'',
    value = b ++ unit ++ b' ++ d₁ ++ '-' :: d₂ ++ '/' :: d₃ ++ b'' ∧
    unit.map Char.toLower = "bytes ".toList ∧ Blanks b ∧ Blanks b' ∧ Blanks b'' ∧
    IsDecimal d₁ first ∧ IsDecimal d₂ last ∧ IsDecimal d₃ total

theorem skipBlanks_spec (s : Text) : ∃ b, Blanks b ∧ s = b ++ skipBlanks s :=
  ⟨s.takeWhile isBlank, fun _ hc => List.mem_takeWhile_imp hc,
    (List.takeWhile_append_dropWhile).symm⟩

theorem blanks_of_skipBlanks_eq_nil {s : Text} (h : skipBlanks s = []) : Blanks s := by
  obtain ⟨b, hb, hs⟩ := skipBlanks_spec s
  rw [h, List.append_nil] at hs
  rwa [hs]

theorem digit_le_nine {c : Char} (h : c.isDigit = true) : c.toNat - 48 ≤ 9 := by
  simp only [Char.isDigit, Bool.and_eq_true, decide_eq_true_eq] at h
  have : c.toNat ≤ 57 := h.2
  omega

/-- The digits the loop of `ParseDecimal` reads, on top of the value `v`. -/
theorem parseDecimalFrom_spec {s rest : Text} {v w : ℕ} (hv : v < 2 ^ 64)
    (h : parseDecimalFrom v s = some (w, rest)) :
    ∃ digits, s = digits ++ rest ∧ (∀ c ∈ digits, c.isDigit = true) ∧
      digits.foldl (fun v c => 10 * v + (c.toNat - 48)) v = w ∧ w < 2 ^ 64 ∧
      ∀ c ∈ rest.head?, c.isDigit = false := by
  induction s generalizing v with
  | nil =>
    cases h
    exact ⟨[], rfl, by simp, rfl, hv, by simp⟩
  | cons c s ih =>
    rw [parseDecimalFrom] at h
    dsimp only at h
    split_ifs at h with hc hov
    · have hstep : v <<< 3 + v <<< 1 + (c.toNat - 48) = 10 * v + (c.toNat - 48) := by
        rw [Nat.shiftLeft_eq, Nat.shiftLeft_eq]
        omega
      have hd := digit_le_nine hc
      obtain ⟨digits, rfl, hdig, hval, hlt, hrest⟩ := ih (by rw [hstep]; omega) h
      refine ⟨c :: digits, rfl, ?_, ?_, hlt, hrest⟩
      · intro x hx
        rcases List.mem_cons.mp hx with rfl | hx
        · exact hc
        · exact hdig x hx
      · rw [List.foldl_cons, ← hstep]
        exact hval
    · cases h
      exact ⟨[], rfl, by simp, rfl, hv, by simpa using hc⟩

theorem parseDecimal_spec {s rest : Text} {v : ℕ} (h : parseDecimal s = some (v, rest)) :
    ∃ digits, s = digits ++ rest ∧ IsDecimal digits v := by
  cases s with
  | nil => cases h
  | cons c s =>
    rw [parseDecimal] at h
    split_ifs at h with hc
    obtain ⟨digits, hs, hdig, hval, hlt, hrest⟩ := parseDecimalFrom_spec (Nat.two_pow_pos 64) h
    refine ⟨digits, hs, fun hnil => ?_, hdig, hval, hlt⟩
    -- the first character is a digit, so the loop reads at least one
    rw [hnil, List.nil_append] at hs
    have := hrest c (by simp [← hs])
    simp [hc] at this

theorem parseLength_spec {value : Text} {v : ℕ} (h : parseLength value = some v) :
    IsLengthValue value v := by
  unfold parseLength at h
  split at h
  · rename_i w rest hp
    split_ifs at h with hrest
    cases h
    obtain ⟨b, hb, hvalue⟩ := skipBlanks_spec value
    obtain ⟨digits, hd, hdec⟩ := parseDecimal_spec hp
    refine ⟨b, digits, rest, ?_, hb, hdec, blanks_of_skipBlanks_eq_nil hrest.1⟩
    rw [List.append_assoc, ← hd, ← hvalue]
  · cases h

theorem parseRange_spec {value : Text} {first last total : ℕ}
    (h : parseRange value = some (first, last, total)) : IsRangeValue value first last total := by
  unfold parseRange at h
  split_ifs at h with hunit
  split at h
  · rename_i hp₁
    split at h
    · rename_i hp₂
      split at h
      · rename_i hp₃
        split_ifs at h with hrest
        cases h
        obtain ⟨b, hb, hvalue⟩ := skipBlanks_spec value
        obtain ⟨b', hb', hunit'⟩ := skipBlanks_spec ((skipBlanks value).drop 6)
        obtain ⟨d₁, hs₁, hd₁⟩ := parseDecimal_spec hp₁
        obtain ⟨d₂, hs₂, hd₂⟩ := parseDecimal_spec hp₂
        obtain ⟨d₃, hs₃, hd₃⟩ := parseDecimal_spec hp₃
        refine ⟨b, (skipBlanks value).take 6, b', d₁, d₂, d₃, _, ?_, ?_, hb, hb',
          blanks_of_skipBlanks_eq_nil hrest, hd₁, hd₂, hd₃⟩
        · calc value = b ++ ((skipBlanks value).take 6 ++ (skipBlanks value).drop 6) := by
                rw [List.take_append_drop]; exact hvalue
            _ = _ := by
                rw [hunit', hs₁, hs₂, hs₃]
                simp only [List.append_assoc, List.cons_append]
        · have := List.isPrefixOf_iff_prefix.mp hunit
          rw [List.prefix_iff_eq_take] at this
          rw [List.map_take]
          exact this.symm
      · cases h
    · cases h
  · cases h

/-! ### The header lines -/

/-- Two names that a line starts with are comparable. -/
theorem headerIs_eq_false {line : Text} {name name' : String} (h : headerIs line name = true)
    (hne : ¬ name.toList.map Char.toLower <+: name'.toList.map Char.toLower ∧
      ¬ name'.toList.map Char.toLower <+: name.toList.map Char.toLower) :
    headerIs line name' = false := by
  rw [Bool.eq_false_iff]
  intro h'
  have h₁ := List.isPrefixOf_iff_prefix.mp h
  have h₂ := List.isPrefixOf_iff_prefix.mp h'
  rcases List.prefix_or_prefix_of_prefix h₁ h₂ with h | h
  · exact hne.1 h
  · exact hne.2 h

/-- The line declares a content coding other than `identity`. -/
def declaresCoding (line : Text) : Bool :=
  headerIs line "Content-Encoding:" &&
    (!headerIs (skipBlanks (line.drop 17)) "identity" ||
      decide (skipBlanks ((skipBlanks (line.drop 17)).drop 8) ≠ []))

/-- The line declares a multipart body. -/
def declaresMultipart (line : Text) : Bool :=
  headerIs line "Content-Type:" && headerIs (skipBlanks (line.drop 13)) "multipart/"

/-- What is known of the header lines once they were read into `h`. -/
structure Describes (lines : List Text) (h : Header) : Prop where
  length : match h.bodyLen with
    | none => lines.filter (headerIs · "Content-Length:") = []
    | some v => ∃ line, lines.filter (headerIs · "Content-Length:") = [line] ∧
        IsLengthValue (line.drop 15) v
  chunked : h.sawChunked = lines.any (headerIs · "Transfer-Encoding:")
  encoding : h.sawEncoding = lines.any declaresCoding
  multipart : h.sawMultipart = lines.any declaresMultipart
  range : match h.range with
    | none => lines.filter (headerIs · "Content-Range:") = []
    | some (first, last, total) =>
      ∃ line, lines.filter (headerIs · "Content-Range:") = [line] ∧
        IsRangeValue (line.drop 14) first last total

section

variable {lines : List Text} {h h' : Header} {line : Text}

/-- A line is added that says nothing about the length. -/
theorem Describes.length_snoc (hd : Describes lines h) (hb : h'.bodyLen = h.bodyLen)
    (hl : headerIs line "Content-Length:" = false) :
    match h'.bodyLen with
    | none => (lines ++ [line]).filter (headerIs · "Content-Length:") = []
    | some v => ∃ l, (lines ++ [line]).filter (headerIs · "Content-Length:") = [l] ∧
        IsLengthValue (l.drop 15) v := by
  rw [hb]
  simpa [List.filter_append, hl] using hd.length

/-- A line is added that says nothing about the range. -/
theorem Describes.range_snoc (hd : Describes lines h) (hb : h'.range = h.range)
    (hl : headerIs line "Content-Range:" = false) :
    match h'.range with
    | none => (lines ++ [line]).filter (headerIs · "Content-Range:") = []
    | some (first, last, total) =>
      ∃ l, (lines ++ [line]).filter (headerIs · "Content-Range:") = [l] ∧
        IsRangeValue (l.drop 14) first last total := by
  rw [hb]
  simpa [List.filter_append, hl] using hd.range

theorem describes_length (hd : Describes lines h) (hl : headerIs line "Content-Length:" = true)
    (hs : headerStep h line = .ok h') : Describes (lines ++ [line]) h' := by
  have ht : headerIs line "Transfer-Encoding:" = false := headerIs_eq_false hl (by decide)
  have hc : headerIs line "Content-Encoding:" = false := headerIs_eq_false hl (by decide)
  have hm : headerIs line "Content-Type:" = false := headerIs_eq_false hl (by decide)
  have hr : headerIs line "Content-Range:" = false := headerIs_eq_false hl (by decide)
  rw [headerStep, if_pos hl] at hs
  split at hs
  · rename_i n hb hp
    cases hs
    have hlen := hd.length
    rw [hb] at hlen
    refine ⟨⟨line, ?_, parseLength_spec hp⟩, ?_, ?_, ?_, hd.range_snoc rfl hr⟩
    · simp [List.filter_append, hlen, hl]
    · simp [hd.chunked, ht]
    · simp [hd.encoding, declaresCoding, hc]
    · simp [hd.multipart, declaresMultipart, hm]
  · cases hs

theorem describes_range (hd : Describes lines h) (hr : headerIs line "Content-Range:" = true)
    (hs : headerStep h line = .ok h') : Describes (lines ++ [line]) h' := by
  have hl : headerIs line "Content-Length:" = false := headerIs_eq_false hr (by decide)
  have ht : headerIs line "Transfer-Encoding:" = false := headerIs_eq_false hr (by decide)
  have hc : headerIs line "Content-Encoding:" = false := headerIs_eq_false hr (by decide)
  have hm : headerIs line "Content-Type:" = false := headerIs_eq_false hr (by decide)
  simp only [headerStep, hl, ht, hc, hm, hr, Bool.false_eq_true, if_false, if_true] at hs
  split at hs
  · rename_i range hb hp
    cases hs
    have hrange := hd.range
    rw [hb] at hrange
    refine ⟨hd.length_snoc rfl hl, ?_, ?_, ?_, ⟨line, ?_, parseRange_spec hp⟩⟩
    · simp [hd.chunked, ht]
    · simp [hd.encoding, declaresCoding, hc]
    · simp [hd.multipart, declaresMultipart, hm]
    · simp [List.filter_append, hrange, hr]
  · cases hs

/-- **One header line.** -/
theorem describes_step (hd : Describes lines h) (hs : headerStep h line = .ok h') :
    Describes (lines ++ [line]) h' := by
  cases hl : headerIs line "Content-Length:" with
  | true => exact describes_length hd hl hs
  | false =>
    cases hr : headerIs line "Content-Range:" with
    | true => exact describes_range hd hr hs
    | false =>
      simp only [headerStep, hl, hr, Bool.false_eq_true, if_false] at hs
      split_ifs at hs with ht hc hcoding hty hm
      · have hc : headerIs line "Content-Encoding:" = false := headerIs_eq_false ht (by decide)
        have hm : headerIs line "Content-Type:" = false := headerIs_eq_false ht (by decide)
        cases hs
        refine ⟨hd.length_snoc rfl hl, ?_, ?_, ?_, hd.range_snoc rfl hr⟩
        · simp [ht]
        · simp [hd.encoding, declaresCoding, hc]
        · simp [hd.multipart, declaresMultipart, hm]
      · have hm : headerIs line "Content-Type:" = false := headerIs_eq_false hc (by decide)
        cases hs
        refine ⟨hd.length_snoc rfl hl, ?_, ?_, ?_, hd.range_snoc rfl hr⟩
        · simp [hd.chunked, ht]
        · simp only [List.any_append, declaresCoding, hc, Bool.true_and, List.any_cons,
            List.any_nil, Bool.or_false, hcoding, Bool.or_true]
        · simp [hd.multipart, declaresMultipart, hm]
      · have hm : headerIs line "Content-Type:" = false := headerIs_eq_false hc (by decide)
        cases hs
        refine ⟨hd.length_snoc rfl hl, ?_, ?_, ?_, hd.range_snoc rfl hr⟩
        · simp [hd.chunked, ht]
        · rw [Bool.not_eq_true] at hcoding
          simp only [hd.encoding, List.any_append, declaresCoding, hc, Bool.true_and,
            List.any_cons, List.any_nil, Bool.or_false, hcoding]
        · simp [hd.multipart, declaresMultipart, hm]
      · cases hs
        refine ⟨hd.length_snoc rfl hl, ?_, ?_, ?_, hd.range_snoc rfl hr⟩
        · simp [hd.chunked, ht]
        · simp [hd.encoding, declaresCoding, hc]
        · simp [declaresMultipart, hty, hm]
      · cases hs
        refine ⟨hd.length_snoc rfl hl, ?_, ?_, ?_, hd.range_snoc rfl hr⟩
        · simp [hd.chunked, ht]
        · simp [hd.encoding, declaresCoding, hc]
        · simp [hd.multipart, declaresMultipart, hm]
      · cases hs
        refine ⟨hd.length_snoc rfl hl, ?_, ?_, ?_, hd.range_snoc rfl hr⟩
        · simp [hd.chunked, ht]
        · simp [hd.encoding, declaresCoding, hc]
        · simp [hd.multipart, declaresMultipart, hty]

end

theorem describes_foldlM {lines done : List Text} {h h' : Header} (hd : Describes done h)
    (hf : lines.foldlM headerStep h = .ok h') : Describes (done ++ lines) h' := by
  induction lines generalizing done h with
  | nil =>
    cases hf
    simpa using hd
  | cons line lines ih =>
    rw [List.foldlM_cons] at hf
    cases hs : headerStep h line with
    | error err => simp [hs, bind, Except.bind] at hf
    | ok h₁ =>
      rw [hs] at hf
      have := ih (describes_step hd hs) hf
      rwa [List.append_assoc] at this

/-! ### A response that is accepted -/

/-- The header lines of a header block, behind the status line. -/
def fieldLines (hdr : Text) : List Text := (headerLines hdr).tail

theorem describes_of_parseHeader {hdr : Text} {status : ℕ} {h : Header}
    (hp : parseHeader hdr = .ok (status, h)) :
    parseStatus hdr = some status ∧ Describes (fieldLines hdr) h := by
  unfold parseHeader at hp
  split at hp
  · cases hp
  · rename_i hst
    split_ifs at hp
    split at hp
    · cases hp
    · rename_i hf
      cases hp
      have hempty : Describes [] emptyHeader := ⟨rfl, rfl, rfl, rfl, rfl⟩
      exact ⟨hst, by simpa [fieldLines] using describes_foldlM hempty hf⟩

/-- What a call that starts a stream has seen. -/
theorem httpStreamBegin_live {send : Text → Bool} {req : Request} {conn : Conn}
    (h : (httpStreamBegin send req conn).2.1.live = true) :
    ∃ e status hd bodyLen, headerEnd conn.rest = some e ∧ checkRequest req = .ok () ∧
      parseHeader (conn.rest.take e) = .ok (status, hd) ∧
      checkResponse req status hd = .ok (some bodyLen) ∧
      (httpStreamBegin send req conn).1 =
        { result := .ok status, contentLen := bodyLen, total := hd.total
          hasTotal := hd.range.isSome } ∧
      Framed (httpStreamBegin send req conn).2.1 (httpStreamBegin send req conn).2.2 bodyLen
        (conn.rest.drop e) := by
  rw [httpStreamBegin] at h ⊢
  rcases hq : checkRequest req with err | ⟨⟨⟩⟩ <;> simp only [hq] at h ⊢
  · cases h
  cases hsend : send (requestText req) with
  | false =>
    rw [hsend] at h
    cases h
  | true =>
    have hr := recvHeader_spec conn [] rfl (by simp)
    rw [List.nil_append] at hr
    simp only [hsend, Bool.not_true, Bool.false_eq_true, if_false] at h ⊢
    rcases hres : recvHeader conn [] with ⟨res, conn'⟩
    rw [hres] at h hr
    obtain ⟨-, rfl⟩ | ⟨e, k, he, hek, hk, hmax, rfl, hrest⟩ := hr
    · cases h
    simp only [finishBegin, List.take_take, Nat.min_eq_left hek] at h ⊢
    rcases hp : parseHeader (conn.rest.take e) with err | ⟨status, hd⟩
    · simp only [hp] at h
      cases h
    simp only [hp] at h ⊢
    rcases hc : checkResponse req status hd with err | _ | bodyLen
    · simp only [hc] at h
      cases h
    · simp only [hc] at h
      cases h
    simp only [hc] at h
    split_ifs at h with hlen
    · cases h
    · refine ⟨e, status, hd, bodyLen, he, trivial, hp, hc, by simp only [hlen, if_false], ?_⟩
      simp only [hlen, if_false]
      have hlong : ((conn.rest.take k).drop e).length ≤ streamChunk := by
        rw [List.length_drop, List.length_take]
        unfold hdrMax at hmax
        rw [streamChunk]
        omega
      have hstage : ((conn.rest.take k).drop e).take streamChunk = (conn.rest.take k).drop e :=
        List.take_of_length_le hlong
      refine ⟨rfl, rfl, ?_, ?_⟩
      · change ((conn.rest.take k).drop e).take streamChunk ++ conn'.rest = _
        rw [hstage, show conn'.rest = conn.rest.drop k from hrest]
        exact drop_take_append_drop hek
      · change (((conn.rest.take k).drop e).take streamChunk).length ≤ bodyLen
        rw [hstage, List.length_drop]
        omega

/-- A total is reported with a stream. -/
theorem live_of_hasTotal {send : Text → Bool} {req : Request} {conn : Conn}
    (h : (httpStreamBegin send req conn).1.hasTotal = true) :
    (httpStreamBegin send req conn).2.1.live = true := by
  rw [httpStreamBegin] at h ⊢
  rcases hq : checkRequest req with err | ⟨⟨⟩⟩ <;> simp only [hq] at h ⊢
  · cases h
  cases hsend : send (requestText req) with
  | false =>
    rw [hsend] at h
    cases h
  | true =>
    simp only [hsend, Bool.not_true, Bool.false_eq_true, if_false] at h ⊢
    rcases hres : recvHeader conn [] with ⟨_ | ⟨hdr, e⟩, conn'⟩
    · rw [hres] at h
      cases h
    simp only [hres, finishBegin] at h ⊢
    rcases hp : parseHeader (hdr.take e) with err | ⟨status, hd⟩
    · simp only [hp] at h
      cases h
    simp only [hp] at h ⊢
    rcases hc : checkResponse req status hd with err | _ | bodyLen
    · simp only [hc] at h
      cases h
    · simp only [hc] at h
      cases h
    simp only [hc] at h ⊢
    split_ifs at h ⊢
    · cases h
    · rfl


/-- **What a ranged request accepts.** When `HttpStreamBegin` starts a stream for a ranged
request, the status is below 300 and not 200; there is exactly one `Content-Length`, and its
value is the reported length; no transfer coding, no content coding but `identity` and no
multipart body is declared; there is at most one `Content-Range`. When the status is 206, which
is the only one the callers go on with, there is exactly one `Content-Range`, its value is
`bytes first-last/total` with the first and the last byte that were asked for and the reported
total behind them, and the length is that of the range. -/
theorem ranged_stream_sound (send : Text → Bool) (req : Request) (hreq : req.useRange = true)
    (conn : Conn) (hlive : (httpStreamBegin send req conn).2.1.live = true) :
    ∃ e status : ℕ, headerEnd conn.rest = some e ∧
      parseStatus (conn.rest.take e) = some status ∧
      (httpStreamBegin send req conn).1.result = .ok status ∧ status < 300 ∧ status ≠ 200 ∧
      (∃ line v, (fieldLines (conn.rest.take e)).filter (headerIs · "Content-Length:") = [line] ∧
        IsLengthValue (line.drop 15) v ∧ (httpStreamBegin send req conn).1.contentLen = v) ∧
      (fieldLines (conn.rest.take e)).any (headerIs · "Transfer-Encoding:") = false ∧
      (fieldLines (conn.rest.take e)).any declaresCoding = false ∧
      (fieldLines (conn.rest.take e)).any declaresMultipart = false ∧
      ((fieldLines (conn.rest.take e)).filter (headerIs · "Content-Range:")).length ≤ 1 ∧
      (status = 206 → ∃ line total,
        (fieldLines (conn.rest.take e)).filter (headerIs · "Content-Range:") = [line] ∧
        IsRangeValue (line.drop 14) req.rangeStart req.rangeEnd total ∧ req.rangeEnd < total ∧
        (httpStreamBegin send req conn).1.total = total ∧
        (httpStreamBegin send req conn).1.hasTotal = true ∧
        (httpStreamBegin send req conn).1.contentLen =
          (req.rangeEnd - req.rangeStart + 1 : ℕ)) := by
  obtain ⟨e, status, h, bodyLen, he, -, hp, hc, hreply, -⟩ := httpStreamBegin_live hlive
  obtain ⟨hst, hd⟩ := describes_of_parseHeader hp
  have hbody := bodyLen_of_checkResponse hc
  rw [checkResponse, hreq] at hc
  split_ifs at hc with hcoded hrange h200 h300
  · cases hc
  simp only [Bool.or_eq_true, not_or, Bool.not_eq_true, Bool.true_and, beq_eq_false_iff_ne] at h200
  simp only [Bool.or_eq_true, not_or, Bool.not_eq_true] at hcoded
  refine ⟨e, status, he, hst, by rw [hreply], not_le.mp h300, h200.1, ?_,
    hd.chunked ▸ hcoded.1.1, hd.encoding ▸ hcoded.1.2, hd.multipart ▸ hcoded.2, ?_, ?_⟩
  · have hlen := hd.length
    rw [hbody] at hlen
    obtain ⟨line, hfilter, hvalue⟩ := hlen
    exact ⟨line, bodyLen, hfilter, hvalue, by rw [hreply]⟩
  · have hr := hd.range
    rcases hrng : h.range with _ | ⟨first, last, total⟩
    · rw [hrng] at hr
      simp [hr]
    · rw [hrng] at hr
      obtain ⟨line, hfilter, -⟩ := hr
      simp [hfilter]
  · intro h206
    have hr := hd.range
    have hmatch : rangeMatches req h = true := by simpa [h206] using hrange
    rcases hrng : h.range with _ | ⟨first, last, total⟩
    · simp [rangeMatches, hrng] at hmatch
    rw [hrng] at hr
    obtain ⟨line, hfilter, hvalue⟩ := hr
    simp only [rangeMatches, hrng, Bool.and_eq_true, beq_iff_eq, decide_eq_true_eq] at hmatch
    obtain ⟨⟨⟨rfl, rfl⟩, hlt⟩, hlen⟩ := hmatch
    refine ⟨line, total, hfilter, hvalue, hlt, ?_, ?_, ?_⟩
    · rw [hreply]
      simp [Header.total, hrng]
    · rw [hreply]
      simp [hrng]
    · rw [hreply]
      rw [hbody] at hlen
      cases hlen
      rfl

/-- A ranged request for the first byte. -/
def firstByte : Request :=
  { host := "h".toList, uri := "/g.iso".toList, useRange := true, rangeStart := 0, rangeEnd := 0
    keepAlive := true }

/-- A matching answer to `firstByte`. -/
def partialContent : Text :=
  "HTTP/1.1 206 P\r\nContent-Range: bytes 0-0/9\r\nContent-Length: 1\r\n\r\na".toList

/-- An answer to `firstByte` with another status and no range. -/
def nonAuthoritative : Text := "HTTP/1.1 203 N\r\nContent-Length: 1\r\n\r\na".toList

theorem live_partialContent :
    (httpStreamBegin (fun _ => true) firstByte ⟨partialContent, fun _ => 0⟩).2.1.live = true := by
  have he : headerEnd partialContent = some 65 := by decide
  have hp : parseHeader (partialContent.take 65) =
      .ok (206, { emptyHeader with bodyLen := some 1, range := some (0, 0, 9) }) := by decide
  have hx := noExcess_of_parseHeader he hp (by rintro _ ⟨⟩; decide)
  exact live_of_beginSpec hx (show _ = some (65, 1) by decide)

theorem ranged_stream_sound_partialContent :
    firstByte.useRange = true ∧
      (httpStreamBegin (fun _ => true) firstByte ⟨partialContent, fun _ => 0⟩).2.1.live = true ∧
      ∃ status, (httpStreamBegin (fun _ => true) firstByte ⟨partialContent, fun _ => 0⟩).1.result =
        .ok status ∧ status < 300 ∧ status ≠ 200 := by
  obtain ⟨e, status, -, -, hres, hlt, hne, -⟩ := ranged_stream_sound (fun _ => true) firstByte rfl
    ⟨partialContent, fun _ => 0⟩ live_partialContent
  exact ⟨rfl, live_partialContent, status, hres, hlt, hne⟩

/-- A stream is started for a ranged request whose answer is a 203 without a `Content-Range`. -/
theorem not_ranged_stream_sound :
    firstByte.useRange = true ∧
      (httpStreamBegin (fun _ => true) firstByte ⟨nonAuthoritative, fun _ => 0⟩).2.1.live = true ∧
      (httpStreamBegin (fun _ => true) firstByte ⟨nonAuthoritative, fun _ => 0⟩).1.result =
        .ok 203 ∧
      headerEnd nonAuthoritative = some 37 ∧
      (fieldLines (nonAuthoritative.take 37)).filter (headerIs · "Content-Range:") = [] := by
  have he : headerEnd nonAuthoritative = some 37 := by decide
  have hp : parseHeader (nonAuthoritative.take 37) =
      .ok (203, { emptyHeader with bodyLen := some 1 }) := by decide
  have hx := noExcess_of_parseHeader he hp (by rintro _ ⟨⟩; decide)
  have hres : (beginSpec (fun _ => true) firstByte nonAuthoritative).1.result = .ok 203 := by
    decide
  exact ⟨rfl, live_of_beginSpec hx (show _ = some (37, 1) by decide),
    (congrArg Reply.result (httpStreamBegin_spec _ _ _ hx).1).trans hres, he, by decide⟩

end HttpStream

end OpenPS2Loader
