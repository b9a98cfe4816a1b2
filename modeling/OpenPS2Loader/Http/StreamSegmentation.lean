import Mathlib.Algebra.Ring.Int.Defs
import OpenPS2Loader.Http.Stream

/-!
# The stream reader does not see how the stream was cut up

`HttpStreamBegin` and `HttpStreamRead` receive whatever the transport has: the header may arrive
byte by byte, its terminator may straddle two receives, and the last receive of the header may
already hold part of the body. Both calls are compared with what they are for: `beginSpec` reads
the reply off the whole response, and `serve` hands out the body as the reads ask for it. Neither
knows about the transport, so the results do not depend on it.

## Main definitions

* `headerEnd`, `beginSpec` — the header block of a response, and the reply to it
* `NoExcess` — the response carries no bytes beyond its declared body
* `Serving` — what holds of a stream between two reads
* `serve` — the reader the caller is promised

## Main results

* `recvHeader_spec` — the header receive loop
* `httpStreamBegin_spec` — `HttpStreamBegin` replies as `beginSpec`
* `readAll_eq_serve` — `HttpStreamRead` refines `serve`
* `stream_independent_of_segmentation` — the two together, for any two segmentations
-/

namespace OpenPS2Loader

namespace HttpStream

/-! ### The header block -/

/-- The end of the header block of a response: behind the first terminator among the first
`hdrMax` bytes. -/
def headerEnd (response : Text) : Option ℕ :=
  (Text.find terminator (response.take hdrMax)).map (· + 4)

theorem scanEnd_append {hdr : Text} (h : Text.find terminator hdr = none) (r : Text) :
    scanEnd (hdr ++ r) (hdr.length - 3) = (Text.find terminator (hdr ++ r)).map (· + 4) := by
  rw [Text.find_append_eq_find_drop (by decide) h r, scanEnd, Option.map_map]
  rfl

theorem recvBounded_eq (conn : Conn) {max : ℕ} (hmax : 0 < max) :
    ∃ n conn', 0 < n ∧ n ≤ max ∧ recvBounded conn max = (conn.rest.take n, conn') ∧
      conn'.rest = conn.rest.drop n :=
  ⟨min max (conn.sizes 0 + 1), _, by omega, by omega, rfl, rfl⟩

/-- The outcome of the receive loop on a response: it fails, or it holds the header block and
`k - e` bytes of the body. -/
def HeaderReceived (response : Text) (res : Option (Text × ℕ) × Conn) : Prop :=
  (headerEnd response = none ∧ res.1 = none) ∨
    ∃ e k, headerEnd response = some e ∧ e ≤ k ∧ k ≤ response.length ∧ k ≤ hdrMax ∧
      res.1 = some (response.take k, e) ∧ res.2.rest = response.drop k

/-- **The receive loop.** However the response is cut up, the loop ends with the header block
when that ends within the first `hdrMax` bytes, and fails otherwise. -/
theorem recvHeader_spec (conn : Conn) (hdr : Text) (hnone : Text.find terminator hdr = none)
    (hlen : hdr.length ≤ hdrMax) :
    HeaderReceived (hdr ++ conn.rest) (recvHeader conn hdr) := by
  induction hn : hdrMax - hdr.length using Nat.strong_induction_on generalizing conn hdr with
  | _ n ih =>
    rw [recvHeader]
    by_cases hlt : hdr.length < hdrMax
    · rw [dif_pos hlt]
      obtain ⟨k, conn', hk, hmax, hrecv, hrest⟩ :=
        recvBounded_eq conn (show 0 < hdrMax - hdr.length by omega)
      split
      · rename_i conn₁ hr
        have hnil : conn.rest = [] := by
          rw [hrecv, Prod.mk.injEq, List.take_eq_nil_iff] at hr
          exact hr.1.resolve_left (by omega)
        left
        rw [hnil, List.append_nil, headerEnd, List.take_of_length_le hlen, hnone]
        exact ⟨rfl, rfl⟩
      · rename_i b r conn₁ hr
        rw [hrecv, Prod.mk.injEq] at hr
        obtain ⟨hbr, rfl⟩ := hr
        rw [← hbr, scanEnd_append hnone]
        -- the response is what was received so far and what is still to come
        have hlong : (hdr ++ conn.rest.take k).length ≤ hdrMax := by
          rw [List.length_append, List.length_take]
          omega
        rw [show hdr ++ conn.rest = (hdr ++ conn.rest.take k) ++ conn'.rest by
          rw [hrest, List.append_assoc, List.take_append_drop]]
        cases hf : Text.find terminator (hdr ++ conn.rest.take k) with
        | some i =>
          refine .inr ⟨i + 4, (hdr ++ conn.rest.take k).length, ?_, ?_, ?_, hlong, ?_, ?_⟩
          · rw [headerEnd, List.take_append, List.take_of_length_le hlong,
              Text.find_append_of_eq_some hf]
            rfl
          · exact (Text.find_eq_some hf).2
          · exact (List.prefix_append _ _).length_le
          · rw [List.take_left]
            rfl
          · rw [List.drop_left]
            rfl
        | none =>
          refine ih _ ?_ conn' (hdr ++ conn.rest.take k) hf hlong rfl
          have : (conn.rest.take k).length ≠ 0 := by simp [hbr]
          rw [List.length_append]
          omega
    · left
      rw [dif_neg hlt, headerEnd, List.take_append_of_le_length (by omega),
        List.take_of_length_le (by omega), hnone]
      exact ⟨rfl, rfl⟩

/-! ### The reply -/

/-- The response carries no bytes beyond the body its header declares. -/
def NoExcess (response : Text) : Prop :=
  ∀ e status h bodyLen, headerEnd response = some e →
    parseHeader (response.take e) = .ok (status, h) → h.bodyLen = some bodyLen →
    response.length ≤ e + bodyLen

theorem noExcess_of_parseHeader {response : Text} {e status : ℕ} {h : Header}
    (he : headerEnd response = some e) (hp : parseHeader (response.take e) = .ok (status, h))
    (hlen : ∀ bodyLen, h.bodyLen = some bodyLen → response.length ≤ e + bodyLen) :
    NoExcess response := by
  intro e' status' h' bodyLen he' hp' hb
  rw [he] at he'
  cases he'
  rw [hp] at hp'
  cases hp'
  exact hlen bodyLen hb

/-- What the caller learns from a response, and, when the body is streamed, the end of the header
block and the length of the body. -/
def beginSpec (send : Text → Bool) (req : Request) (response : Text) :
    Reply × Option (ℕ × ℕ) :=
  match checkRequest req with
  | .error err => (.early (.error err), none)
  | .ok () =>
    if !send (requestText req) then (.early (.error .send), none)
    else
      match headerEnd response with
      | none => (.early (.error .headers), none)
      | some e =>
        match parseHeader (response.take e) with
        | .error err => (.early (.error err), none)
        | .ok (status, h) =>
          match checkResponse req status h with
          | .error err => (.early (.error err), none)
          | .ok none => (.early (.ok status), none)
          | .ok (some bodyLen) =>
            ({ result := .ok status, contentLen := bodyLen, total := h.total
               hasTotal := h.range.isSome }, some (e, bodyLen))

theorem bodyLen_of_checkResponse {req : Request} {status : ℕ} {h : Header} {bodyLen : ℕ}
    (hc : checkResponse req status h = .ok (some bodyLen)) : h.bodyLen = some bodyLen := by
  unfold checkResponse at hc
  split_ifs at hc
  · cases hc
  · cases hb : h.bodyLen <;> simp_all

theorem beginSpec_eq_some {send : Text → Bool} {req : Request} {response : Text} {e bodyLen : ℕ}
    (h : (beginSpec send req response).2 = some (e, bodyLen)) :
    headerEnd response = some e ∧ (beginSpec send req response).1.contentLen = bodyLen := by
  rw [beginSpec] at h ⊢
  repeat' split at h
  all_goals cases h
  rename_i hsend _ _ _ _ _ he _ _
  rw [if_neg hsend]
  exact ⟨he, rfl⟩

/-- A stream that is about to deliver a body: `avail` is what the peer sends of it, and the header
promised `bodyLen` bytes. -/
structure Serving (stream : Stream) (conn : Conn) (bodyLen : ℕ) (avail : Text) : Prop where
  live : stream.live = true
  remaining : stream.remaining = bodyLen
  body : stream.stage ++ conn.rest = avail
  length_le : avail.length ≤ bodyLen

/-- The same, whatever the peer sends behind the body. -/
structure Framed (stream : Stream) (conn : Conn) (bodyLen : ℕ) (avail : Text) : Prop where
  live : stream.live = true
  remaining : stream.remaining = bodyLen
  body : stream.stage ++ conn.rest = avail
  stage_le : stream.stage.length ≤ bodyLen

theorem Serving.framed {stream : Stream} {conn : Conn} {bodyLen : ℕ} {avail : Text}
    (h : Serving stream conn bodyLen avail) : Framed stream conn bodyLen avail := by
  refine ⟨h.live, h.remaining, h.body, ?_⟩
  have hlen := h.length_le
  rw [← h.body, List.length_append] at hlen
  omega

/-- What follows the header block, cut at a later position. -/
theorem drop_take_append_drop {s : Text} {e k : ℕ} (hek : e ≤ k) :
    (s.take k).drop e ++ s.drop k = s.drop e := by
  rw [List.drop_take]
  have := List.take_append_drop (k - e) (s.drop e)
  rwa [List.drop_drop, Nat.add_sub_cancel' hek] at this

/-- **`HttpStreamBegin`, however the response is cut up.** -/
theorem httpStreamBegin_spec (send : Text → Bool) (req : Request) (conn : Conn)
    (hx : NoExcess conn.rest) :
    (httpStreamBegin send req conn).1 = (beginSpec send req conn.rest).1 ∧
      match (beginSpec send req conn.rest).2 with
      | none => (httpStreamBegin send req conn).2.1 = httpStreamEnd
      | some (e, bodyLen) =>
        Serving (httpStreamBegin send req conn).2.1 (httpStreamBegin send req conn).2.2 bodyLen
          (conn.rest.drop e) := by
  rw [httpStreamBegin, beginSpec]
  cases checkRequest req with
  | error err => exact ⟨rfl, rfl⟩
  | ok u =>
    cases send (requestText req) with
    | false => exact ⟨rfl, rfl⟩
    | true =>
      have hr := recvHeader_spec conn [] rfl (by simp)
      rw [List.nil_append] at hr
      simp only [Bool.not_true, Bool.false_eq_true, if_false]
      rcases hres : recvHeader conn [] with ⟨res, conn'⟩
      rw [hres] at hr
      obtain ⟨he, rfl⟩ | ⟨e, k, he, hek, hk, hmax, rfl, hrest⟩ := hr
      · rw [he]
        exact ⟨rfl, rfl⟩
      · simp only [he, finishBegin, List.take_take, Nat.min_eq_left hek]
        rcases hp : parseHeader (conn.rest.take e) with err | ⟨status, h⟩
        · exact ⟨rfl, rfl⟩
        · dsimp only
          rcases hc : checkResponse req status h with err | _ | bodyLen
          · exact ⟨rfl, rfl⟩
          · exact ⟨rfl, rfl⟩
          · have hlen := hx e status h bodyLen he hp (bodyLen_of_checkResponse hc)
            have hnot : ¬ bodyLen < (conn.rest.take k).length - e := by
              rw [List.length_take]
              omega
            simp only [if_neg hnot]
            refine ⟨trivial, rfl, rfl, ?_, ?_⟩
            · change ((conn.rest.take k).drop e).take streamChunk ++ conn'.rest = _
              rw [List.take_of_length_le, show conn'.rest = conn.rest.drop k from hrest]
              · exact drop_take_append_drop hek
              · rw [List.length_drop, List.length_take]
                unfold hdrMax at hmax
                rw [streamChunk]
                omega
            · rw [List.length_drop]
              omega

theorem live_of_beginSpec {req : Request} {response : Text} {e bodyLen : ℕ}
    (hx : NoExcess response) (hs : (beginSpec (fun _ => true) req response).2 = some (e, bodyLen)) :
    (httpStreamBegin (fun _ => true) req ⟨response, fun _ => 0⟩).2.1.live = true := by
  have h := (httpStreamBegin_spec (fun _ => true) req ⟨response, fun _ => 0⟩ hx).2
  simp only [hs] at h
  exact h.live

/-! ### Serving the body -/

/-- The reader the caller is promised: each read delivers as much as was asked for, at most
`streamChunk` bytes and at most what is left of the body, or reports that the peer stopped. -/
def serve (bodyLen : ℕ) (avail : Text) : List ℤ → List (Except StreamErr Text)
  | [] => []
  | w :: ws =>
    let n := min (min w streamChunk).toNat bodyLen
    if n ≤ avail.length then .ok (avail.take n) :: serve (bodyLen - n) (avail.drop n) ws
    else .error .trunc :: ws.map fun _ => .error .noStream

/-- The results of a sequence of calls of `HttpStreamRead`. -/
def readAll (stream : Stream) (conn : Conn) : List ℤ → List (Except StreamErr Text)
  | [] => []
  | w :: ws =>
    let (res, stream, conn) := httpStreamRead stream conn w
    res :: readAll stream conn ws

theorem recvBody_spec (conn : Conn) (remaining need : ℕ) :
    (min need remaining ≤ conn.rest.length →
      (recvBody conn remaining need).1 = .ok (conn.rest.take (min need remaining)) ∧
      (recvBody conn remaining need).2.1 = (remaining - min need remaining : ℕ) ∧
      (recvBody conn remaining need).2.2.rest = conn.rest.drop (min need remaining)) ∧
    (conn.rest.length < min need remaining → (recvBody conn remaining need).1 = .error .trunc) := by
  induction need using Nat.strong_induction_on generalizing conn remaining with
  | _ need ih =>
    rw [recvBody]
    by_cases h0 : need = 0 ∨ (remaining : ℤ) = 0
    · have hmin : min need remaining = 0 := by omega
      rw [dif_pos h0]
      simp [hmin]
    · rw [dif_neg h0]
      have hchunk : chunkSize remaining need = min need remaining := by
        rw [chunkSize]
        split_ifs <;> omega
      obtain ⟨k, conn', hk, hmax, hrecv, hrest⟩ :=
        recvBounded_eq conn (show 0 < min need remaining by omega)
      rw [← hchunk] at hrecv
      split
      · rename_i conn₁ hr
        have hnil : conn.rest = [] := by
          rw [hrecv, Prod.mk.injEq, List.take_eq_nil_iff] at hr
          exact hr.1.resolve_left (by omega)
        rw [if_pos (by omega), hnil]
        refine ⟨fun h => ?_, fun _ => rfl⟩
        rw [List.length_nil] at h
        omega
      · rename_i b r conn₁ hr
        rw [hrecv, Prod.mk.injEq] at hr
        obtain ⟨hbr, rfl⟩ := hr
        have hm : (b :: r).length = min k conn.rest.length := by rw [← hbr, List.length_take]
        have hpos : 0 < (b :: r).length := by simp
        have hrem : (if 0 < (remaining : ℤ) then (remaining : ℤ) - (b :: r).length
            else remaining) = (remaining - (b :: r).length : ℕ) := by
          split_ifs <;> omega
        obtain ⟨hok, herr⟩ := ih (need - (b :: r).length) (by omega) conn'
          (remaining - (b :: r).length)
        rw [Nat.sub_min_sub_right, hrest, List.length_drop] at hok herr
        simp only [hrem]
        constructor
        · intro hle
          obtain ⟨h₁, h₂, h₃⟩ := hok (by omega)
          have hmk : (b :: r).length = k := by omega
          obtain ⟨j, hj⟩ := Nat.exists_eq_add_of_le hmax
          rw [hmk] at h₁ h₂ h₃ ⊢
          rw [h₁, h₂, h₃, hj, ← hbr, Nat.add_sub_cancel_left]
          refine ⟨?_, by omega, ?_⟩
          · rw [List.take_add]
            rfl
          · rw [List.drop_drop]
        · intro hlt
          rw [herr (by omega)]
          rfl

theorem readAll_of_not_live {stream : Stream} (h : stream.live = false) (conn : Conn)
    (ws : List ℤ) : readAll stream conn ws = ws.map fun _ => .error .noStream := by
  induction ws with
  | nil => rfl
  | cons w ws ih =>
    have hr : httpStreamRead stream conn w = (.error .noStream, stream, conn) := by
      simp [httpStreamRead, h]
    rw [readAll, hr, List.map_cons]
    exact congrArg _ ih

/-- `HttpStreamRead`, whatever the peer sends behind the body. -/
theorem httpStreamRead_framed {stream : Stream} {conn : Conn} {bodyLen n : ℕ} {avail : Text} {w : ℤ}
    (hs : Framed stream conn bodyLen avail) (hw : 0 < w)
    (hn : n = min (min w streamChunk).toNat bodyLen) :
    (n ≤ avail.length →
      (httpStreamRead stream conn w).1 = .ok (avail.take n) ∧
      Framed (httpStreamRead stream conn w).2.1 (httpStreamRead stream conn w).2.2 (bodyLen - n)
        (avail.drop n)) ∧
    (avail.length < n →
      (httpStreamRead stream conn w).1 = .error .trunc ∧
      (httpStreamRead stream conn w).2.1.live = false) := by
  obtain ⟨hlive, hremaining, rfl, hlen⟩ := hs
  rw [List.length_append]
  have hW : (min w streamChunk).toNat ≠ 0 := by
    rw [streamChunk]
    omega
  rw [httpStreamRead, hremaining]
  simp only [hlive, Bool.not_true, Bool.false_eq_true, if_false, if_neg hW]
  generalize (min w streamChunk).toNat = W at hW hn ⊢
  have hm : (stream.stage.take W).length = min W stream.stage.length := List.length_take
  have hrem : (if 0 < (bodyLen : ℤ) then (bodyLen : ℤ) - (stream.stage.take W).length
      else bodyLen) = (bodyLen - (stream.stage.take W).length : ℕ) := by
    split_ifs <;> omega
  rw [hrem, hm]
  obtain ⟨hok, herr⟩ := recvBody_spec conn (bodyLen - min W stream.stage.length)
    (W - min W stream.stage.length)
  rw [Nat.sub_min_sub_right, ← hn] at hok herr
  constructor
  · intro hle
    obtain ⟨h₁, h₂, h₃⟩ := hok (by omega)
    have hS : min W stream.stage.length = min n stream.stage.length := by omega
    have htake : stream.stage.take W = stream.stage.take n := List.take_eq_take_iff.mpr hS
    have hdrop : stream.stage.drop W = stream.stage.drop n := List.drop_eq_drop_iff.mpr hS
    have hsub : n - min W stream.stage.length = n - stream.stage.length := by omega
    rw [hsub] at h₁ h₂ h₃
    rw [h₁, h₂]
    refine ⟨?_, rfl, ?_, ?_, ?_⟩
    · rw [List.take_append, htake]
      rfl
    · change ((_ : ℕ) : ℤ) = _
      omega
    · rw [h₃, List.drop_append, hdrop]
    · rw [List.length_drop]
      omega
  · intro hlt
    rw [herr (by omega)]
    exact ⟨rfl, rfl⟩

/-- **`HttpStreamRead`, however the body is cut up.** -/
theorem httpStreamRead_spec {stream : Stream} {conn : Conn} {bodyLen n : ℕ} {avail : Text} {w : ℤ}
    (hs : Serving stream conn bodyLen avail) (hw : 0 < w)
    (hn : n = min (min w streamChunk).toNat bodyLen) :
    (n ≤ avail.length →
      (httpStreamRead stream conn w).1 = .ok (avail.take n) ∧
      Serving (httpStreamRead stream conn w).2.1 (httpStreamRead stream conn w).2.2 (bodyLen - n)
        (avail.drop n)) ∧
    (avail.length < n →
      (httpStreamRead stream conn w).1 = .error .trunc ∧
      (httpStreamRead stream conn w).2.1.live = false) := by
  obtain ⟨hok, herr⟩ := httpStreamRead_framed hs.framed hw hn
  refine ⟨fun hle => ?_, herr⟩
  obtain ⟨hread, hnext⟩ := hok hle
  refine ⟨hread, hnext.live, hnext.remaining, hnext.body, ?_⟩
  have hlen := hs.length_le
  rw [List.length_drop]
  omega

/-- **The reader is the promised one.** -/
theorem readAll_eq_serve {stream : Stream} {conn : Conn} {bodyLen : ℕ} {avail : Text}
    (hs : Serving stream conn bodyLen avail) {ws : List ℤ} (hws : ∀ w ∈ ws, 0 < w) :
    readAll stream conn ws = serve bodyLen avail ws := by
  induction ws generalizing stream conn bodyLen avail with
  | nil => rfl
  | cons w ws ih =>
    obtain ⟨hok, herr⟩ := httpStreamRead_spec hs (hws w (by simp)) rfl
    rw [readAll, serve]
    dsimp only
    split_ifs with hle
    · obtain ⟨h₁, h₂⟩ := hok hle
      rw [h₁, ih h₂ fun w hw => hws w (by simp [hw])]
    · obtain ⟨h₁, h₂⟩ := herr (not_le.mp hle)
      rw [h₁, readAll_of_not_live h₂]

/-! ### What the reads deliver -/

/-- The bytes delivered by a sequence of reads. -/
def delivered (outs : List (Except StreamErr Text)) : Text :=
  outs.flatMap fun res => res.toOption.getD []

theorem delivered_ok_cons (bytes : Text) (outs : List (Except StreamErr Text)) :
    delivered (.ok bytes :: outs) = bytes ++ delivered outs := by
  simp [delivered, Except.toOption]

theorem delivered_error_cons (err : StreamErr) (outs : List (Except StreamErr Text)) :
    delivered (.error err :: outs) = delivered outs := by
  simp [delivered, Except.toOption]

theorem delivered_noStream (ws : List ℤ) :
    delivered (ws.map fun _ => .error .noStream) = [] := by
  induction ws with
  | nil => rfl
  | cons w ws ih => rw [List.map_cons, delivered_error_cons, ih]

theorem delivered_serve_prefix (bodyLen : ℕ) (avail : Text) (ws : List ℤ) :
    delivered (serve bodyLen avail ws) <+: avail := by
  induction ws generalizing bodyLen avail with
  | nil => exact List.nil_prefix
  | cons w ws ih =>
    rw [serve]
    split_ifs with hle
    · obtain ⟨t, ht⟩ := ih (bodyLen - min (min w streamChunk).toNat bodyLen)
        (avail.drop (min (min w streamChunk).toNat bodyLen))
      refine ⟨t, ?_⟩
      rw [delivered_ok_cons, List.append_assoc, ht, List.take_append_drop]
    · rw [delivered_error_cons, delivered_noStream]
      exact List.nil_prefix

/-- A read that returns `0` comes after the whole body. -/
theorem serve_end {bodyLen : ℕ} {avail : Text} {ws : List ℤ} (hlen : avail.length ≤ bodyLen)
    (hws : ∀ w ∈ ws, 0 < w) {i : ℕ} (h : (serve bodyLen avail ws)[i]? = some (.ok [])) :
    delivered ((serve bodyLen avail ws).take i) = avail ∧ avail.length = bodyLen := by
  induction ws generalizing bodyLen avail i with
  | nil => simp [serve] at h
  | cons w ws ih =>
    have hw : 0 < (min w streamChunk).toNat := by
      have := hws w (by simp)
      rw [streamChunk]
      omega
    rw [serve] at h ⊢
    generalize (min w streamChunk).toNat = W at hw h ⊢
    split_ifs at h ⊢ with hle
    · cases i with
      | zero =>
        simp only [List.length_cons, Nat.zero_lt_succ, List.getElem?_eq_getElem,
          List.getElem_cons_zero, Option.some.injEq, Except.ok.injEq, List.take_eq_nil_iff] at h
        have hnil : avail = [] := by
          rw [← List.length_eq_zero_iff]
          rcases h with h | h
          · omega
          · rw [h]
            rfl
        subst hnil
        refine ⟨rfl, ?_⟩
        rw [List.length_nil] at hle ⊢
        omega
      | succ i =>
        rw [List.getElem?_cons_succ] at h
        have hrest : (avail.drop (min W bodyLen)).length ≤ bodyLen - min W bodyLen := by
          rw [List.length_drop]
          omega
        obtain ⟨h₁, h₂⟩ := ih hrest (fun w hw => hws w (by simp [hw])) h
        rw [List.take_succ_cons, delivered_ok_cons, h₁, List.take_append_drop]
        rw [List.length_drop] at h₂
        exact ⟨rfl, by omega⟩
    · cases i with
      | zero => simp at h
      | succ i =>
        rw [List.getElem?_cons_succ, List.getElem?_map] at h
        cases hwi : ws[i]? <;> simp [hwi] at h

/-- Reads beyond what the peer sent report an error. -/
theorem serve_truncated {bodyLen : ℕ} {avail : Text} {ws : List ℤ} (hlen : avail.length < bodyLen)
    (hws : ∀ w ∈ ws, 0 < w) (hsum : avail.length < (ws.map (min · (streamChunk : ℤ))).sum) :
    ∃ err, .error err ∈ serve bodyLen avail ws := by
  induction ws generalizing bodyLen avail with
  | nil =>
    rw [List.map_nil, List.sum_nil] at hsum
    omega
  | cons w ws ih =>
    have hw := hws w (by simp)
    have hW : ((min w (streamChunk : ℤ)).toNat : ℤ) = min w streamChunk := by
      rw [streamChunk]
      omega
    rw [List.map_cons, List.sum_cons, ← hW] at hsum
    rw [serve]
    generalize (min w (streamChunk : ℤ)).toNat = W at hsum ⊢
    split_ifs with hle
    · obtain ⟨err, herr⟩ := @ih (bodyLen - min W bodyLen) (avail.drop (min W bodyLen))
        (by rw [List.length_drop]; omega) (fun w hw => hws w (by simp [hw]))
        (by rw [List.length_drop]; omega)
      exact ⟨err, List.mem_cons_of_mem _ herr⟩
    · exact ⟨.trunc, List.mem_cons_self⟩

/-- No read of a body that arrives whole fails. -/
theorem serve_complete {bodyLen : ℕ} {avail : Text} (hlen : avail.length = bodyLen)
    (ws : List ℤ) : ∀ res ∈ serve bodyLen avail ws, res.isOk = true := by
  induction ws generalizing bodyLen avail with
  | nil => simp [serve]
  | cons w ws ih =>
    rw [serve, if_pos (by omega)]
    intro res hres
    rcases List.mem_cons.mp hres with rfl | hres
    · rfl
    · exact ih (by rw [List.length_drop]; omega) res hres

/-! ### Independence of the segmentation -/

/-- **The stream reader does not see how the stream was cut up.** For a response that carries no
bytes beyond its declared body and any two ways of cutting it up, `HttpStreamBegin` replies the
same. When it starts a stream, reads of positive size deliver the same bytes either way, and these
are a prefix of the declared body; a read returns `0` only after all of it; of a body that is cut
short no read returns `0`, and reads that ask for more than there is report an error; and no read
of a whole body fails. -/
theorem stream_independent_of_segmentation (send : Text → Bool) (req : Request) (response : Text)
    (hx : NoExcess response) (sizes sizes' : ℕ → ℕ) :
    (httpStreamBegin send req ⟨response, sizes⟩).1 =
        (httpStreamBegin send req ⟨response, sizes'⟩).1 ∧
      ((httpStreamBegin send req ⟨response, sizes⟩).2.1.live = true →
        ∃ e bodyLen : ℕ, headerEnd response = some e ∧
          (httpStreamBegin send req ⟨response, sizes⟩).1.contentLen = bodyLen ∧
          ∀ ws : List ℤ, (∀ w ∈ ws, 0 < w) → ∀ outs body,
            outs = readAll (httpStreamBegin send req ⟨response, sizes⟩).2.1
              (httpStreamBegin send req ⟨response, sizes⟩).2.2 ws →
            body = (response.drop e).take bodyLen →
            outs = readAll (httpStreamBegin send req ⟨response, sizes'⟩).2.1
              (httpStreamBegin send req ⟨response, sizes'⟩).2.2 ws ∧
            delivered outs <+: body ∧
            (∀ i, outs[i]? = some (.ok []) →
              delivered (outs.take i) = body ∧ body.length = bodyLen) ∧
            (body.length < bodyLen → .ok [] ∉ outs ∧
              (body.length < (ws.map (min · (streamChunk : ℤ))).sum → ∃ err, .error err ∈ outs)) ∧
            (body.length = bodyLen → ∀ res ∈ outs, res.isOk = true)) := by
  obtain ⟨hreply, hstream⟩ := httpStreamBegin_spec send req ⟨response, sizes⟩ hx
  obtain ⟨hreply', hstream'⟩ := httpStreamBegin_spec send req ⟨response, sizes'⟩ hx
  refine ⟨hreply.trans hreply'.symm, fun hlive => ?_⟩
  rcases hs : (beginSpec send req response).2 with _ | ⟨e, bodyLen⟩
  · simp only [hs] at hstream
    rw [hstream] at hlive
    cases hlive
  simp only [hs] at hstream hstream'
  obtain ⟨he, hcontent⟩ := beginSpec_eq_some hs
  have hle : (response.drop e).length ≤ bodyLen := hstream.length_le
  refine ⟨e, bodyLen, he, by rw [hreply, hcontent], fun ws hws outs body houts hbody => ?_⟩
  rw [List.take_of_length_le hle] at hbody
  rw [readAll_eq_serve hstream hws, ← hbody] at houts
  rw [readAll_eq_serve hstream' hws, ← hbody]
  subst houts
  rw [← hbody] at hle
  refine ⟨rfl, delivered_serve_prefix _ _ _, fun i hi => serve_end hle hws hi,
    fun hlt => ⟨fun hmem => ?_, serve_truncated hlt hws⟩, fun heq => serve_complete heq ws⟩
  obtain ⟨i, hi⟩ := List.mem_iff_getElem?.mp hmem
  exact hlt.ne (serve_end hle hws hi).2

/-- A response with a body of three bytes. -/
def shortResponse : Text := "HTTP/1.1 200 OK\r\nContent-Length: 3\r\n\r\nabc".toList

/-- A request without a range. -/
def plainGet : Request :=
  { host := "h".toList, uri := "/x".toList, useRange := false, rangeStart := 0, rangeEnd := 0
    keepAlive := true }

theorem noExcess_shortResponse : NoExcess shortResponse := by
  have he : headerEnd shortResponse = some 38 := by decide
  have hp : parseHeader (shortResponse.take 38) =
      .ok (200, { emptyHeader with bodyLen := some 3 }) := by decide
  exact noExcess_of_parseHeader he hp (by rintro _ ⟨⟩; decide)

/-- One byte at a time, and as much as fits: both start a stream, and with the same reply. -/
theorem stream_independent_of_segmentation_shortResponse :
    NoExcess shortResponse ∧
      (httpStreamBegin (fun _ => true) plainGet ⟨shortResponse, fun _ => 0⟩).1 =
        (httpStreamBegin (fun _ => true) plainGet ⟨shortResponse, fun _ => 4096⟩).1 ∧
      (httpStreamBegin (fun _ => true) plainGet ⟨shortResponse, fun _ => 0⟩).2.1.live = true := by
  exact ⟨noExcess_shortResponse, (stream_independent_of_segmentation _ _ _
    noExcess_shortResponse _ _).1,
    live_of_beginSpec noExcess_shortResponse (show _ = some (38, 3) by decide)⟩

end HttpStream

end OpenPS2Loader
