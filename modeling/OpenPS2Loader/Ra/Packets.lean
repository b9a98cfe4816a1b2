import Mathlib.Algebra.Group.Nat.Defs
import Mathlib.Logic.Function.Basic
import OpenPS2Loader.Ra.Snapshot

/-!
# Packets of a snapshot

`raudp.c` cuts the snapshot in the buffer of the IOP into packets. A packet is a text header of
fixed-width fields (`ra_head_build`) and then bytes of values; `ra_send_one` copies the snapshot
out, and fills in and sends one packet after the other.

## Main definitions

* `Telemetry.Raudp` — the variables of the module
* `Telemetry.Raudp.frameInit` — the payload part of `ra_frame_init`
* `Telemetry.raCopy` — `ra_copy`
* `Telemetry.Raudp.sendOne` — `ra_send_one`
* `Telemetry.Encodes` — packets that carry some values

## Main results

* `Telemetry.Raudp.exists_sendOne` — a call stays in its buffers, and its packets carry the values
  of the snapshot
-/

namespace OpenPS2Loader

namespace Telemetry

open Bytes

/-! ### The header -/

/-- `enum ra_field_id` -/
inductive FieldId
  | seq | sz | us | mx | rxq | fail | err | sk | lk | sq | ds | bad | n | vb | pt | np | id
  deriving DecidableEq, Repr

/-- `ra_fields`: labels and widths. -/
def raFields : List (FieldId × List Char × ℕ) :=
  [(.seq, ['s', 'e', 'q'], 6), (.sz, ['s', 'z'], 4), (.us, ['u', 's'], 5), (.mx, ['m', 'x'], 5),
    (.rxq, ['r', 'x', 'q'], 3), (.fail, ['f', 'a', 'i', 'l'], 6), (.err, ['e', 'r', 'r'], 4),
    (.sk, ['s', 'k'], 6), (.lk, ['l', 'k'], 4), (.sq, ['s', 'q'], 6), (.ds, ['d', 's'], 6),
    (.bad, ['b', 'a', 'd'], 4), (.n, ['n'], 4), (.vb, ['v', 'b'], 4), (.pt, ['p', 't'], 1),
    (.np, ['n', 'p'], 1), (.id, ['i', 'd'], 15)]

/-- `RA_PAYLOAD` -/
def payloadLen : ℕ := 1472

/-- `RA_HDR_LEN` -/
def hdrLen : ℕ := 42

def ascii (cs : List Char) : List UInt8 := cs.map fun c => UInt8.ofNat c.toNat

structure Raudp where
  /-- `ra_payload`, up to the end of `ra_frame` -/
  payload : List UInt8
  /-- the offsets in `ra_fields` -/
  offs : FieldId → ℕ
  /-- `ra_head_len` -/
  headLen : ℕ
  /-- `ra_chunk` -/
  chunk : ℕ
  /-- `ra_stage` -/
  stage : List UInt8
  /-- `ra_seq` -/
  seq : ℕ
  /-- `ra_fail` -/
  fail : ℕ
  /-- `ra_err` -/
  err : ℤ
  /-- `ra_us` -/
  us : ℕ
  /-- `ra_us_max` -/
  usMax : ℕ
  /-- `ra_rxq` -/
  rxq : ℕ
  /-- `ra_skip` -/
  skip : ℕ
  /-- `ra_snap_bad` -/
  snapBad : ℕ
  /-- `ra_sent_sq` -/
  sentSq : ℕ
  /-- `ra_sent_any` -/
  sentAny : Bool

/-- The module when it is loaded. -/
def raudpStart : Raudp :=
  ⟨List.replicate payloadLen 0, fun _ => 0, 0, snapChunkBytes, List.replicate snapMaxBytes 0,
    0, 0, 0, 0, 0, 0, 0, 0, 0, false⟩

/-- The writes of the loop of `ra_head_build`: the payload, `pos` and the offsets. -/
def headLoop : List (FieldId × List Char × ℕ) → List UInt8 → ℕ → (FieldId → ℕ) →
    Option (List UInt8 × ℕ × (FieldId → ℕ))
  | [], p, pos, offs => some (p, pos, offs)
  | (f, label, width) :: fs, p, pos, offs =>
    (stores p [(pos, ascii [' ']), (pos + 1, ascii label), (pos + 1 + label.length, ascii ['=']),
      (pos + 1 + label.length + 1, List.replicate width 48)]).bind fun p =>
      headLoop fs p (pos + 1 + label.length + 1 + width)
        (Function.update offs f (pos + 1 + label.length + 1))

/-- The characters `ra_id_put` writes. -/
def idChar (c : UInt8) : UInt8 := if 0x20 ≤ c ∧ c < 0x7F then c else 0x7E

/-- Successive writes to fields of the header. -/
def Raudp.write (r : Raudp) (ws : List (FieldId × List UInt8)) : Option Raudp :=
  (stores r.payload (ws.map fun w => (r.offs w.1, w.2))).map fun p => { r with payload := p }

/-- `ra_id_put` -/
def Raudp.idPut (r : Raudp) (src : ℕ → UInt8) : Option Raudp :=
  r.write [(.id, (slice src 0 15).map idChar)]

/-- `ra_head_build` -/
def Raudp.headBuild (r : Raudp) (gameId : ℕ → UInt8) : Option Raudp :=
  (store r.payload 0 (ascii ['R', 'A', '1', '5'])).bind fun p =>
    (headLoop raFields p 4 r.offs).bind fun h =>
      (store h.1 h.2.1 (ascii [' '])).bind fun p =>
        Raudp.idPut { r with payload := p, offs := h.2.2, headLen := h.2.1 + 1,
                             chunk := min (payloadLen - (h.2.1 + 1)) snapChunkBytes } gameId

/-- `ra_fmt` -/
def raFmt : ℕ → ℕ → List UInt8
  | 0, _ => []
  | width + 1, v => raFmt width (v / 10) ++ [UInt8.ofNat (48 + v % 10)]

/-- `ra_fmt_err` -/
def raFmtErr (v : ℤ) : List UInt8 :=
  if v < 0 then ascii ['-'] ++ raFmt 3 v.natAbs else ascii ['+'] ++ raFmt 3 v.natAbs

/-- The speed in `MODE1`. -/
inductive Media
  | m100 | m10 | other
  deriving DecidableEq, Repr

def Media.text : Media → List Char
  | .m100 => ['1', '0', '0']
  | .m10 => ['0', '1', '0']
  | .other => ['9', '9', '9']

/-- The part of `ra_frame_init` that is about the payload. -/
def Raudp.frameInit (r : Raudp) (gameId : ℕ → UInt8) (media : Media) (fdx : Bool) :
    Option Raudp :=
  (r.headBuild gameId).bind fun r =>
    (stores r.payload [(r.headLen, List.replicate (payloadLen - 1 - r.headLen) 46),
      (payloadLen - 1, [10])]).bind fun p =>
        Raudp.write { r with payload := p }
          [(.sz, raFmt 4 payloadLen), (.lk, ascii (media.text ++ [if fdx then 'F' else 'H']))]

/-! ### Copying -/

/-- A loop of `ra_copy`: units of `w` bytes from `src[s]` to `dst[d]`, while `more` holds. -/
def copyLoop (w : ℕ) (more : ℕ → Bool) (src : List UInt8) (s d : ℕ) :
    ℕ → List UInt8 × ℕ → Option (List UInt8 × ℕ)
  | 0, b => some b
  | fuel + 1, b =>
    if more b.2 then
      (store b.1 (d + b.2) (field src (s + b.2) w)).bind fun dst =>
        copyLoop w more src s d fuel (dst, b.2 + w)
    else some b

/-- The part of `ra_copy` in words or halfwords. `da` and `sa` are the addresses of `dst[d]` and
`src[s]`. -/
def copyWide (da sa : ℕ) (dst : List UInt8) (d : ℕ) (src : List UInt8) (s n : ℕ) :
    Option (List UInt8 × ℕ) :=
  if (da ^^^ sa) &&& 3 = 0 then
    (copyLoop 1 (fun i => i < n ∧ (da + i) &&& 3 ≠ 0) src s d n (dst, 0)).bind
      (copyLoop 4 (fun i => i + 4 ≤ n) src s d n)
  else if (da ^^^ sa) &&& 1 = 0 then
    (copyLoop 1 (fun i => i < n ∧ (da + i) &&& 1 ≠ 0) src s d 1 (dst, 0)).bind
      (copyLoop 2 (fun i => i + 2 ≤ n) src s d n)
  else some (dst, 0)

/-- `ra_copy` -/
def raCopy (da sa : ℕ) (dst : List UInt8) (d : ℕ) (src : List UInt8) (s n : ℕ) :
    Option (List UInt8) :=
  (copyWide da sa dst d src s n).bind fun b =>
    (copyLoop 1 (fun i => i < n) src s d n b).map Prod.fst

/-! ### Sending -/

/-- Where the linker and the heap put the buffers. -/
structure Addrs where
  frame : ℕ
  stage : ℕ
  snap : ℕ

/-- What a call of `ra_send_one` meets: whether the transmitter is busy, the depth of the receive
FIFO, the time it takes, and what `SMAPSendPacket` returns for each part. -/
structure Poll where
  busy : Bool
  rxq : ℕ
  us : ℕ
  ret : ℕ → ℤ

/-- The copy of the snapshot: `nb` and `staged_sq`, or nothing when the copy is torn. -/
def Raudp.takeSnap (a : Addrs) (r : Raudp) (snap : Option (List UInt8)) :
    Option (Raudp × Option (ℕ × ℕ)) :=
  match snap with
  | none => some (r, some (0, 0))
  | some s =>
    if wordAt s 0 = snapMagic then
      (raCopy a.stage (a.snap + snapHdr) r.stage 0 s snapHdr (min (wordAt s 24) snapMaxBytes)).bind
        fun stage =>
          if wordAt s (trailerOff (min (wordAt s 24) snapMaxBytes)) ≠ wordAt s 4 then
            some ({ r with stage, snapBad := (r.snapBad + 1) % 2 ^ 32 }, none)
          else
            (Raudp.write { r with stage } [(.sq, raFmt 6 (wordAt s 4)),
              (.ds, raFmt 6 (wordAt s 12)), (.n, raFmt 4 (wordAt s 20))]).bind fun r =>
                (r.idPut fun i => s.getD (32 + i) 0).map fun r =>
                  (r, some (min (wordAt s 24) snapMaxBytes, wordAt s 4))
    else some ({ r with snapBad := (r.snapBad + 1) % 2 ^ 32 }, some (0, 0))

/-- `parts` -/
def Raudp.parts (r : Raudp) (nb : ℕ) : ℕ :=
  if 0 < nb then min ((nb + r.chunk - 1) / r.chunk) snapParts else 1

/-- `len` of a part -/
def Raudp.partLen (r : Raudp) (nb part : ℕ) : ℕ := min (nb - part * r.chunk) r.chunk

/-- A pass of the loop over the parts, with the payload that is sent. -/
def Raudp.sendPart (a : Addrs) (r : Raudp) (nb parts part : ℕ) (ret : ℤ) :
    Option (Raudp × List UInt8) :=
  (r.write [(.seq, raFmt 6 r.seq), (.vb, raFmt 4 (r.partLen nb part)), (.pt, raFmt 1 part),
    (.np, raFmt 1 parts)]).bind fun r =>
      (raCopy (a.frame + hdrLen + r.headLen) (a.stage + part * r.chunk) r.payload r.headLen r.stage
        (part * r.chunk) (r.partLen nb part)).map fun p =>
          if ret < 0 then
            ({ r with payload := p, fail := (r.fail + 1) % 2 ^ 32, err := ret,
                      seq := (r.seq + 1) % 2 ^ 32 }, p)
          else ({ r with payload := p, seq := (r.seq + 1) % 2 ^ 32 }, p)

/-- The loop over the parts: the payloads, and whether all of them were sent. -/
def Raudp.sendParts (a : Addrs) (nb parts : ℕ) (ret : ℕ → ℤ) :
    List ℕ → Raudp → Option (Raudp × List (List UInt8) × Bool)
  | [], r => some (r, [], true)
  | part :: rest, r =>
    (r.sendPart a nb parts part (ret part)).bind fun s =>
      (sendParts a nb parts ret rest s.1).map fun t =>
        (t.1, s.2 :: t.2.1, decide (0 ≤ ret part) && t.2.2)

/-- The times, and the number of the snapshot that was sent. -/
def Raudp.finish (r : Raudp) (us nb sq : ℕ) (sent : Bool) : Raudp :=
  let r := { r with us, usMax := max r.usMax us }
  if 0 < nb ∧ sent then { r with sentSq := sq, sentAny := true } else r

/-- `ra_send_one`, with the payloads that are sent. `snap` is the buffer of the snapshots. -/
def Raudp.sendOne (a : Addrs) (r : Raudp) (snap : Option (List UInt8)) (p : Poll) :
    Option (Raudp × List (List UInt8)) :=
  if p.busy then some ({ r with rxq := p.rxq, skip := (r.skip + 1) % 2 ^ 32 }, [])
  else
    (Raudp.write { r with rxq := p.rxq } [(.us, raFmt 5 r.us), (.mx, raFmt 5 r.usMax),
      (.rxq, raFmt 3 p.rxq), (.fail, raFmt 6 r.fail), (.err, raFmtErr r.err),
      (.sk, raFmt 6 r.skip)]).bind fun r =>
        (r.takeSnap a snap).bind fun t =>
          match t.2 with
          | none => some (t.1, [])
          | some (nb, sq) =>
            (t.1.write [(.bad, raFmt 4 t.1.snapBad)]).bind fun r =>
              (sendParts a nb (r.parts nb) p.ret (List.range (r.parts nb)) r).map fun s =>
                (s.1.finish p.us nb sq s.2.2, s.2.1)

/-! ### Copying is copying -/

section Copy

variable {src dst : List UInt8} {s d n : ℕ} (hs : s + n ≤ src.length) (hd : d + n ≤ dst.length)

include hs hd

/-- A loop continues the copy, and stops in it only when its condition says so. -/
theorem exists_copyLoop {w : ℕ} (more : ℕ → Bool) (hw : 0 < w)
    (hmore : ∀ i, more i = true → i + w ≤ n) (fuel : ℕ) {i : ℕ} (hi : i ≤ n) :
    ∃ j, i ≤ j ∧ j ≤ n ∧ (more j = false ∨ i + fuel ≤ j) ∧
      copyLoop w more src s d fuel (overwrite dst d (field src s i), i) =
        some (overwrite dst d (field src s j), j) := by
  induction fuel generalizing i with
  | zero => exact ⟨i, Nat.le_refl i, hi, Or.inr (Nat.le_refl i), rfl⟩
  | succ fuel ih =>
    rw [copyLoop]
    split_ifs with hm
    · have hle := hmore i hm
      have hi' : (field src s i).length = i := length_field (by omega)
      have hwl : (field src (s + i) w).length = w := length_field (by omega)
      have hfit : d + (field src s i).length ≤ dst.length := by omega
      have hstep : store (overwrite dst d (field src s i)) (d + i) (field src (s + i) w) =
          some (overwrite dst d (field src s (i + w))) := by
        rw [store_of_le (by rw [length_overwrite hfit, hwl]; omega), field_add]
        have h := overwrite_overwrite (field src (s + i) w) hfit
        rw [hi'] at h
        rw [h]
      rw [hstep, Option.bind_some]
      obtain ⟨j, hij, hjn, hend, hj⟩ := ih hle
      exact ⟨j, by omega, hjn, hend.imp_right (by omega), hj⟩
    · exact ⟨i, Nat.le_refl i, hi, Or.inl (Bool.not_eq_true _ ▸ hm), rfl⟩

theorem exists_copyWide (da sa : ℕ) :
    ∃ j ≤ n, copyWide da sa dst d src s n = some (overwrite dst d (field src s j), j) := by
  have hstart : dst = overwrite dst d (field src s 0) := by
    rw [field, List.take_zero, overwrite_nil]
  rw [copyWide]
  split_ifs
  · obtain ⟨i, -, hi, -, hfirst⟩ := exists_copyLoop hs hd
      (fun i => i < n ∧ (da + i) &&& 3 ≠ 0) Nat.one_pos (fun _ h => (of_decide_eq_true h).1) n
      (Nat.zero_le n)
    obtain ⟨j, -, hj, -, hsecond⟩ := exists_copyLoop hs hd (w := 4)
      (fun i => i + 4 ≤ n) (by decide) (by simp) n hi
    rw [← hstart] at hfirst
    exact ⟨j, hj, by rw [hfirst, Option.bind_some, hsecond]⟩
  · obtain ⟨i, -, hi, -, hfirst⟩ := exists_copyLoop hs hd
      (fun i => i < n ∧ (da + i) &&& 1 ≠ 0) Nat.one_pos (fun _ h => (of_decide_eq_true h).1) 1
      (Nat.zero_le n)
    obtain ⟨j, -, hj, -, hsecond⟩ := exists_copyLoop hs hd (w := 2)
      (fun i => i + 2 ≤ n) (by decide) (by simp) n hi
    rw [← hstart] at hfirst
    exact ⟨j, hj, by rw [hfirst, Option.bind_some, hsecond]⟩
  · exact ⟨0, Nat.zero_le n, by rw [← hstart]⟩

/-- `ra_copy` copies, whatever the alignments. -/
theorem raCopy_eq (da sa : ℕ) :
    raCopy da sa dst d src s n = some (overwrite dst d (field src s n)) := by
  obtain ⟨i, hi, hwide⟩ := exists_copyWide hs hd da sa
  obtain ⟨j, hij, hjn, hend, hrest⟩ := exists_copyLoop hs hd
    (fun i => i < n) Nat.one_pos (fun _ h => of_decide_eq_true h) n hi
  have hj : j = n := by
    obtain hend | hend := hend
    · have := of_decide_eq_false hend
      omega
    · omega
  rw [raCopy, hwide, Option.bind_some, hrest, hj, Option.map_some]

end Copy

/-! ### The header that is built -/

/-- The length of the text of some fields. -/
def textLen (fs : List (FieldId × List Char × ℕ)) : ℕ :=
  (fs.map fun f => 1 + f.2.1.length + 1 + f.2.2).sum

/-- The offsets of fields whose text starts at `pos`. -/
def offsFrom : List (FieldId × List Char × ℕ) → ℕ → (FieldId → ℕ) → FieldId → ℕ
  | [], _, offs => offs
  | (f, label, width) :: fs, pos, offs =>
    offsFrom fs (pos + 1 + label.length + 1 + width)
      (Function.update offs f (pos + 1 + label.length + 1))

theorem exists_headLoop {fs : List (FieldId × List Char × ℕ)} {p : List UInt8} {pos : ℕ}
    (h : pos + textLen fs ≤ p.length) (offs : FieldId → ℕ) :
    ∃ p', headLoop fs p pos offs = some (p', pos + textLen fs, offsFrom fs pos offs) ∧
      p'.length = p.length := by
  induction fs generalizing p pos offs with
  | nil => exact ⟨p, rfl, rfl⟩
  | cons f fs ih =>
    obtain ⟨f, label, width⟩ := f
    rw [textLen, List.map_cons, List.sum_cons, ← textLen] at h ⊢
    dsimp only at h ⊢
    obtain ⟨p₁, hp₁, hlen₁, -⟩ := exists_stores p
      [(pos, ascii [' ']), (pos + 1, ascii label), (pos + 1 + label.length, ascii ['=']),
        (pos + 1 + label.length + 1, List.replicate width 48)] (by simp [ascii]; omega)
    have hroom : pos + 1 + label.length + 1 + width + textLen fs ≤ p₁.length := by omega
    obtain ⟨p₂, hp₂, hlen₂⟩ := ih hroom (Function.update offs f (pos + 1 + label.length + 1))
    refine ⟨p₂, ?_, hlen₂.trans hlen₁⟩
    rw [headLoop, hp₁, Option.bind_some, hp₂, offsFrom]
    congr 3
    omega

/-- Where the fields are: what `ra_head_build` puts into the table. -/
def fieldOff : FieldId → ℕ
  | .seq => 9 | .sz => 19 | .us => 27 | .mx => 36 | .rxq => 46 | .fail => 55 | .err => 66
  | .sk => 74 | .lk => 84 | .sq => 92 | .ds => 102 | .bad => 113 | .n => 120 | .vb => 128
  | .pt => 136 | .np => 141 | .id => 146

theorem offsFrom_raFields (offs : FieldId → ℕ) : offsFrom raFields 4 offs = fieldOff := by
  funext f
  cases f <;> rfl

theorem fieldOff_le (f : FieldId) : fieldOff f ≤ 146 := by
  cases f <;> decide

/-- The module when the header is built. -/
structure Raudp.Ready (r : Raudp) : Prop where
  payload : r.payload.length = payloadLen
  stage : r.stage.length = snapMaxBytes
  offs : r.offs = fieldOff
  headLen : r.headLen = 162
  chunk : r.chunk = 1305

theorem Raudp.Ready.with_payload {r : Raudp} (h : r.Ready) {p : List UInt8}
    (hp : p.length = payloadLen) : Raudp.Ready { r with payload := p } :=
  ⟨hp, h.stage, h.offs, h.headLen, h.chunk⟩

theorem Raudp.Ready.inside {r : Raudp} (h : r.Ready) {ws : List (FieldId × List UInt8)}
    (hws : ∀ w ∈ ws, w.2.length ≤ 15) :
    ∀ w ∈ ws.map fun w => (fieldOff w.1, w.2), w.1 + w.2.length ≤ r.payload.length := by
  intro w hw
  obtain ⟨v, hv, rfl⟩ := List.mem_map.mp hw
  have hoff := fieldOff_le v.1
  have hwidth := hws v hv
  rw [h.payload, payloadLen]
  dsimp only
  omega

/-- A write to the fields stays in the header. -/
theorem Raudp.exists_write {r : Raudp} (h : r.Ready) (ws : List (FieldId × List UInt8))
    (hws : ∀ w ∈ ws, w.2.length ≤ 15) :
    ∃ r', r.write ws = some r' ∧ r'.Ready ∧ r'.stage = r.stage := by
  obtain ⟨p, hp, hlen, -⟩ := exists_stores r.payload _ (h.inside hws)
  refine ⟨_, ?_, h.with_payload (hlen.trans h.payload), rfl⟩
  rw [write, h.offs, hp, Option.map_some]

/-- A field is read back when the later ones are not written over it. -/
theorem Raudp.field_write {r r' : Raudp} (h : r.Ready) (ws : List (FieldId × List UInt8))
    {f : FieldId} {bs : List UInt8} {vs : List (FieldId × List UInt8)}
    (hws : ∀ w ∈ ws ++ (f, bs) :: vs, w.2.length ≤ 15)
    (hr' : r.write (ws ++ (f, bs) :: vs) = some r')
    (hvs : ∀ v ∈ vs, Apart (fieldOff f) bs.length (fieldOff v.1, v.2)) :
    field r'.payload (fieldOff f) bs.length = bs := by
  have hin := h.inside hws
  rw [List.map_append, List.map_cons] at hin
  obtain ⟨p, hp, rfl⟩ := Option.map_eq_some_iff.mp hr'
  rw [h.offs, List.map_append, List.map_cons] at hp
  refine field_stores hin hp fun v hv => ?_
  obtain ⟨w, hw, rfl⟩ := List.mem_map.mp hv
  exact hvs w hw

theorem Raudp.exists_idPut {r : Raudp} (h : r.Ready) (src : ℕ → UInt8) :
    ∃ r', r.idPut src = some r' ∧ r'.Ready ∧ r'.stage = r.stage := by
  exact r.exists_write h [(.id, (slice src 0 15).map idChar)]
    (by simp [List.length_map, length_slice])

/-- The header has 162 bytes, so a packet has room for 1305 bytes of values and more. -/
theorem Raudp.exists_headBuild {r : Raudp} (hpayload : r.payload.length = payloadLen)
    (hstage : r.stage.length = snapMaxBytes) (gameId : ℕ → UInt8) :
    ∃ r', r.headBuild gameId = some r' ∧ r'.Ready := by
  rw [headBuild, store_of_le (by rw [hpayload]; decide), Option.bind_some]
  have hlen : (overwrite r.payload 0 (ascii ['R', 'A', '1', '5'])).length = payloadLen := by
    rw [length_overwrite (by rw [hpayload]; decide), hpayload]
  obtain ⟨p₁, hp₁, hlen₁⟩ := exists_headLoop
    (show 4 + textLen raFields ≤ (overwrite r.payload 0 (ascii ['R', 'A', '1', '5'])).length by
      rw [hlen]
      decide) r.offs
  rw [hp₁, Option.bind_some, offsFrom_raFields]
  dsimp only
  have htext : 4 + textLen raFields = 161 := rfl
  have hroom : 161 + (ascii [' ']).length ≤ p₁.length := by
    rw [hlen₁, hlen]
    decide
  rw [htext, store_of_le hroom, Option.bind_some]
  have hready : Raudp.Ready
      { r with payload := overwrite p₁ 161 (ascii [' ']), offs := fieldOff, headLen := 161 + 1,
               chunk := min (payloadLen - (161 + 1)) snapChunkBytes } :=
    ⟨by rw [length_overwrite hroom, hlen₁, hlen], hstage, rfl, rfl, rfl⟩
  obtain ⟨r', hr', hready', -⟩ := Raudp.exists_idPut hready gameId
  exact ⟨r', hr', hready'⟩

theorem length_raFmt (width v : ℕ) : (raFmt width v).length = width := by
  induction width generalizing v with
  | zero => rfl
  | succ width ih => rw [raFmt, List.length_append, ih, List.length_singleton]

theorem length_raFmtErr (v : ℤ) : (raFmtErr v).length = 4 := by
  rw [raFmtErr]
  split_ifs
  · rw [List.length_append, length_raFmt]
    rfl
  · rw [List.length_append, length_raFmt]
    rfl

/-- `ra_frame_init` stays in the frame and makes the module ready. -/
theorem Raudp.exists_frameInit {r : Raudp} (hpayload : r.payload.length = payloadLen)
    (hstage : r.stage.length = snapMaxBytes) (gameId : ℕ → UInt8) (media : Media) (fdx : Bool) :
    ∃ r', r.frameInit gameId media fdx = some r' ∧ r'.Ready := by
  obtain ⟨r₁, hr₁, hready⟩ := r.exists_headBuild hpayload hstage gameId
  have hin : ∀ w ∈ [(r₁.headLen, List.replicate (payloadLen - 1 - r₁.headLen) (46 : UInt8)),
      (payloadLen - 1, [10])], w.1 + w.2.length ≤ r₁.payload.length := by
    intro w hw
    rw [hready.payload, payloadLen]
    obtain rfl | hw := List.mem_cons.mp hw
    · rw [List.length_replicate, hready.headLen, payloadLen]
      decide
    · obtain rfl := List.mem_singleton.mp hw
      decide
  obtain ⟨p, hp, hlen, -⟩ := exists_stores _ _ hin
  have hready' := hready.with_payload (hlen.trans hready.payload)
  obtain ⟨r', hr', hfinal, -⟩ := Raudp.exists_write hready' [(.sz, raFmt 4 payloadLen),
    (.lk, ascii (media.text ++ [if fdx then 'F' else 'H']))] (by
      cases media <;> simp [length_raFmt, ascii, Media.text])
  refine ⟨r', ?_, hfinal⟩
  rw [frameInit, hr₁, Option.bind_some, hp, Option.bind_some, hr']

/-! ### What the PC reads -/

/-- The number in a field of digits. -/
def number (digits : List UInt8) : ℕ := digits.foldl (fun n d => 10 * n + (d.toNat - 48)) 0

theorem number_raFmt (width v : ℕ) : number (raFmt width v) = v % 10 ^ width := by
  induction width generalizing v with
  | zero => rw [Nat.pow_zero, Nat.mod_one]; rfl
  | succ width ih =>
    have hdigit : (UInt8.ofNat (48 + v % 10)).toNat - 48 = v % 10 := by
      rw [UInt8.toNat_ofNat']
      omega
    have h := ih (v / 10)
    rw [number] at h
    rw [number, raFmt, List.foldl_append, h, List.foldl_cons, List.foldl_nil, hdigit,
      Nat.pow_succ', Nat.mod_mul]
    omega

/-- `vb`, the number of bytes of values. -/
def vbOf (p : List UInt8) : ℕ := number (field p (fieldOff .vb) 4)

/-- `pt`, the index of a part. -/
def ptOf (p : List UInt8) : ℕ := number (field p (fieldOff .pt) 1)

/-- `np`, the number of parts. -/
def npOf (p : List UInt8) : ℕ := number (field p (fieldOff .np) 1)

/-- The bytes of values behind the header. -/
def valueBytes (p : List UInt8) : List UInt8 := field p 162 (vbOf p)

/-- Packets that carry `vals`: at most three parts with their numbers, none of them empty and none
longer than a datagram. -/
structure Encodes (vals : List UInt8) (ps : List (List UInt8)) : Prop where
  parts : ps.length ≤ snapParts
  np : ∀ p ∈ ps, npOf p = ps.length
  pt : ps.map ptOf = List.range ps.length
  vb : ∀ p ∈ ps, 0 < vbOf p
  length : ∀ p ∈ ps, p.length ≤ payloadLen
  values : ps.flatMap valueBytes = vals

/-! ### The packets -/

/-- The packet of one part of the `nb` bytes in the stage. -/
structure IsPart (stage : List UInt8) (nb parts part : ℕ) (p : List UInt8) : Prop where
  length : p.length = payloadLen
  vb : vbOf p = min (nb - part * 1305) 1305
  pt : ptOf p = part
  np : npOf p = parts
  values : valueBytes p = field stage (part * 1305) (min (nb - part * 1305) 1305)

theorem Raudp.exists_sendPart {r : Raudp} (h : r.Ready) (a : Addrs) (nb : ℕ) {parts part : ℕ}
    (hpart : part < snapParts) (hparts : parts ≤ snapParts) (ret : ℤ) :
    ∃ r' p, r.sendPart a nb parts part ret = some (r', p) ∧ r'.Ready ∧ r'.stage = r.stage ∧
      IsPart r.stage nb parts part p := by
  rw [snapParts] at hpart hparts
  have hws : ∀ w ∈ [(FieldId.seq, raFmt 6 r.seq), (.vb, raFmt 4 (r.partLen nb part)),
      (.pt, raFmt 1 part), (.np, raFmt 1 parts)], w.2.length ≤ 15 := by simp [length_raFmt]
  obtain ⟨r₁, hr₁, hready, hstage⟩ := r.exists_write h _ hws
  have hlen : r.partLen nb part = min (nb - part * 1305) 1305 := by rw [partLen, h.chunk]
  have hlen₁ : r₁.partLen nb part = min (nb - part * 1305) 1305 := by rw [partLen, hready.chunk]
  -- the fields of the header
  have hvb := r.field_write h [_] hws hr₁ (by simp [Apart, fieldOff, length_raFmt])
  have hpt := r.field_write h [_, _] hws hr₁ (by simp [Apart, fieldOff, length_raFmt])
  have hnp := r.field_write h [_, _, _] hws hr₁ (by simp)
  rw [length_raFmt] at hvb hpt hnp
  -- the bytes behind it
  have hsrc : part * 1305 + min (nb - part * 1305) 1305 ≤ r₁.stage.length := by
    rw [hready.stage, snapMaxBytes_eq]
    omega
  have hvalue := length_field hsrc
  have hdst : 162 + min (nb - part * 1305) 1305 ≤ r₁.payload.length := by
    rw [hready.payload, payloadLen]
    omega
  rw [← hvalue] at hdst
  have hcopy := raCopy_eq hsrc (hvalue ▸ hdst) (a.frame + hdrLen + 162) (a.stage + part * 1305)
  have hfront : ∀ q n, q + n ≤ 162 → field (overwrite r₁.payload 162
      (field r₁.stage (part * 1305) (min (nb - part * 1305) 1305))) q n = field r₁.payload q n :=
    fun q n hq => field_overwrite_of_le hdst hq
  have hlength := (length_overwrite hdst).trans hready.payload
  have hpart : IsPart r.stage nb parts part (overwrite r₁.payload 162
      (field r₁.stage (part * 1305) (min (nb - part * 1305) 1305))) := by
    have hnumber : vbOf (overwrite r₁.payload 162
        (field r₁.stage (part * 1305) (min (nb - part * 1305) 1305))) =
          min (nb - part * 1305) 1305 := by
      rw [vbOf, hfront _ _ (by decide), hvb, number_raFmt, hlen, Nat.mod_eq_of_lt (by omega)]
    refine ⟨hlength, hnumber, ?_, ?_, ?_⟩
    · rw [ptOf, hfront _ _ (by decide), hpt, number_raFmt, Nat.mod_eq_of_lt (by omega)]
    · rw [npOf, hfront _ _ (by decide), hnp, number_raFmt, Nat.mod_eq_of_lt (by omega)]
    · have hself := field_overwrite_self hdst
      rw [hvalue] at hself
      rw [valueBytes, hnumber, hself, hstage]
  rw [sendPart, hr₁, Option.bind_some, hready.headLen, hready.chunk, hlen₁, hcopy, Option.map_some]
  split_ifs
  · exact ⟨_, _, rfl, ⟨hlength, hready.stage, hready.offs, rfl, rfl⟩, hstage, hpart⟩
  · exact ⟨_, _, rfl, ⟨hlength, hready.stage, hready.offs, rfl, rfl⟩, hstage, hpart⟩

/-- The loop sends a packet for each part. -/
theorem Raudp.exists_sendParts {r : Raudp} (h : r.Ready) (a : Addrs) (nb : ℕ) {parts : ℕ}
    (hparts : parts ≤ snapParts) (ret : ℕ → ℤ) {ks : List ℕ}
    (hks : ∀ k ∈ ks, k < snapParts) :
    ∃ r' ps sent, r.sendParts a nb parts ret ks = some (r', ps, sent) ∧ r'.Ready ∧
      List.Forall₂ (IsPart r.stage nb parts) ks ps := by
  induction ks generalizing r with
  | nil => exact ⟨r, [], true, rfl, h, List.Forall₂.nil⟩
  | cons k ks ih =>
    obtain ⟨r₁, p, hsend, hready, hstage, hpart⟩ :=
      r.exists_sendPart h a nb (hks k List.mem_cons_self) hparts (ret k)
    obtain ⟨r₂, ps, sent, hrest, hready', hforall⟩ :=
      ih hready fun k' hk' => hks k' (List.mem_cons_of_mem k hk')
    rw [hstage] at hforall
    refine ⟨r₂, p :: ps, decide (0 ≤ ret k) && sent, ?_, hready', List.Forall₂.cons hpart hforall⟩
    rw [sendParts, hsend, Option.bind_some, hrest, Option.map_some]

/-- A part of the bytes that are sent. -/
theorem field_take_chunk (stage : List UInt8) (nb p c : ℕ) :
    field (stage.take nb) p c = field stage p (min (nb - p) c) := by
  rw [field, List.drop_take, List.take_take, field, Nat.min_comm]

/-- The parts of a staged snapshot are packets that carry it. -/
theorem encodes_of_forall₂ {stage : List UInt8} {nb parts : ℕ} {ps : List (List UInt8)}
    (hnb : 0 < nb) (hparts : parts = (nb + 1305 - 1) / 1305) (hle : parts ≤ snapParts)
    (h : List.Forall₂ (IsPart stage nb parts) (List.range parts) ps) :
    Encodes (stage.take nb) ps := by
  have hlen : ps.length = parts := by rw [← h.length_eq, List.length_range]
  have hget : ∀ i (hi : i < ps.length), IsPart stage nb parts i ps[i] := by
    intro i hi
    have hk := (List.forall₂_iff_get.mp h).2 i (by rw [List.length_range]; omega) hi
    rwa [List.get_eq_getElem, List.getElem_range] at hk
  have hpart : ∀ p ∈ ps, ∃ k < parts, IsPart stage nb parts k p := by
    intro p hp
    obtain ⟨i, hi, rfl⟩ := List.mem_iff_getElem.mp hp
    exact ⟨i, by omega, hget i hi⟩
  refine ⟨hlen ▸ hle, ?_, ?_, ?_, ?_, ?_⟩
  · intro p hp
    obtain ⟨k, -, hk⟩ := hpart p hp
    rw [hk.np, hlen]
  · refine List.ext_getElem (by rw [List.length_map, List.length_range]) fun i hi _ => ?_
    rw [List.length_map] at hi
    rw [List.getElem_map, List.getElem_range, (hget i hi).pt]
  · intro p hp
    obtain ⟨k, hk, hk'⟩ := hpart p hp
    rw [hk'.vb]
    omega
  · intro p hp
    obtain ⟨k, -, hk⟩ := hpart p hp
    rw [hk.length]
  · have hmap : ps.map valueBytes =
        (List.range parts).map fun k => field (stage.take nb) (k * 1305) 1305 := by
      refine List.ext_getElem (by rw [List.length_map, List.length_map, List.length_range, hlen])
        fun i hi _ => ?_
      rw [List.length_map] at hi
      rw [List.getElem_map, List.getElem_map, List.getElem_range, (hget i hi).values,
        field_take_chunk]
    rw [List.flatMap_def, hmap, ← List.flatMap_def, flatMap_field_range, List.take_of_length_le]
    rw [List.length_take]
    omega

/-- The copy of a snapshot stays in the stage, and the values of a whole one are staged. -/
theorem Raudp.exists_takeSnap {r : Raudp} (h : r.Ready) (a : Addrs) {snap : Option (List UInt8)}
    (hsnap : ∀ s ∈ snap, s.length = snapTotal) :
    ∃ r' t, r.takeSnap a snap = some (r', t) ∧ r'.Ready ∧ (∀ q ∈ t, q.1 ≤ snapMaxBytes) ∧
      ∀ s ∈ snap, ∀ vals, vals.length ≤ snapMaxBytes → Carries vals s →
        ∃ sq, t = some (vals.length, sq) ∧ r'.stage.take vals.length = vals := by
  cases snap with
  | none => exact ⟨r, _, rfl, h, by simp, by simp⟩
  | some s =>
    have hlen := hsnap s rfl
    rw [takeSnap]
    by_cases hmagic : wordAt s 0 = snapMagic
    · have hle : min (wordAt s 24) snapMaxBytes ≤ snapMaxBytes := Nat.min_le_right _ _
      have hsrc : snapHdr + min (wordAt s 24) snapMaxBytes ≤ s.length := by
        rw [snapMaxBytes_eq] at hle ⊢
        rw [hlen, snapTotal_eq, snapHdr]
        omega
      have hdst : 0 + (field s snapHdr (min (wordAt s 24) snapMaxBytes)).length ≤
          r.stage.length := by
        rw [length_field hsrc, h.stage, Nat.zero_add]
        exact hle
      have htake := take_overwrite hdst
      rw [length_field hsrc, List.take_zero, List.nil_append, Nat.zero_add] at htake
      have hready : Raudp.Ready { r with
          stage := overwrite r.stage 0 (field s snapHdr (min (wordAt s 24) snapMaxBytes)) } :=
        ⟨h.payload, (length_overwrite hdst).trans h.stage, h.offs, h.headLen, h.chunk⟩
      rw [length_field hsrc] at hdst
      rw [if_pos hmagic, raCopy_eq hsrc hdst, Option.bind_some]
      by_cases htrailer :
          wordAt s (trailerOff (min (wordAt s 24) snapMaxBytes)) = wordAt s 4
      · rw [if_neg (not_not.mpr htrailer)]
        obtain ⟨r₁, hr₁, hready₁, hstage₁⟩ := Raudp.exists_write hready
          [(.sq, raFmt 6 (wordAt s 4)), (.ds, raFmt 6 (wordAt s 12)), (.n, raFmt 4 (wordAt s 20))]
          (by simp [length_raFmt])
        obtain ⟨r₂, hr₂, hready₂, hstage₂⟩ := r₁.exists_idPut hready₁ fun i => s.getD (32 + i) 0
        refine ⟨r₂, _, by rw [hr₁, Option.bind_some, hr₂, Option.map_some], hready₂, ?_, ?_⟩
        · intro q hq
          obtain rfl := Option.mem_some.mp hq
          exact hle
        · intro s' hs' vals hvals hcarries
          obtain rfl := Option.mem_some.mp hs'
          have hnb : min (wordAt s 24) snapMaxBytes = vals.length := by
            rw [hcarries.bytes, Nat.min_eq_left hvals]
          rw [hnb] at htake
          rw [hnb, hstage₂, hstage₁]
          exact ⟨_, rfl, by rw [hnb, htake, hcarries.values]⟩
      · rw [if_pos htrailer]
        refine ⟨_, _, rfl, ⟨h.payload, hready.stage, h.offs, h.headLen, h.chunk⟩, by simp, ?_⟩
        intro s' hs' vals hvals hcarries
        obtain rfl := Option.mem_some.mp hs'
        refine absurd ?_ htrailer
        rw [hcarries.bytes, Nat.min_eq_left hvals, hcarries.trailer]
    · rw [if_neg hmagic]
      refine ⟨_, _, rfl, ⟨h.payload, h.stage, h.offs, h.headLen, h.chunk⟩, by simp, ?_⟩
      intro s' hs' vals _ hcarries
      obtain rfl := Option.mem_some.mp hs'
      exact absurd hcarries.magic hmagic

theorem Raudp.parts_le (r : Raudp) (nb : ℕ) : r.parts nb ≤ snapParts := by
  rw [parts]
  split_ifs
  · exact Nat.min_le_right _ _
  · decide

theorem Raudp.Ready.finish {r : Raudp} (h : r.Ready) (us nb sq : ℕ) (sent : Bool) :
    (r.finish us nb sq sent).Ready := by
  rw [Raudp.finish]
  split_ifs
  · exact ⟨h.payload, h.stage, h.offs, h.headLen, h.chunk⟩
  · exact ⟨h.payload, h.stage, h.offs, h.headLen, h.chunk⟩

/-- **The packets of a snapshot carry its values.** A call of `ra_send_one` stays in its buffers
whatever the snapshot buffer holds; when it holds a whole snapshot and the transmitter is free, the
packets carry the values of the snapshot. -/
theorem Raudp.exists_sendOne {r : Raudp} (h : r.Ready) (a : Addrs) {snap : Option (List UInt8)}
    (hsnap : ∀ s ∈ snap, s.length = snapTotal) (p : Poll) :
    ∃ r' ps, r.sendOne a snap p = some (r', ps) ∧ r'.Ready ∧
      ∀ s ∈ snap, ∀ vals, 0 < vals.length → vals.length ≤ snapMaxBytes → Carries vals s →
        p.busy = false → Encodes vals ps := by
  rw [sendOne]
  split_ifs with hbusy
  · refine ⟨_, [], rfl, ⟨h.payload, h.stage, h.offs, h.headLen, h.chunk⟩, ?_⟩
    intro s _ vals _ _ _ hfree
    rw [hbusy] at hfree
    cases hfree
  · have hready : Raudp.Ready { r with rxq := p.rxq } :=
      ⟨h.payload, h.stage, h.offs, h.headLen, h.chunk⟩
    obtain ⟨r₁, hr₁, hready₁, -⟩ := Raudp.exists_write hready
      [(.us, raFmt 5 r.us), (.mx, raFmt 5 r.usMax), (.rxq, raFmt 3 p.rxq), (.fail, raFmt 6 r.fail),
        (.err, raFmtErr r.err), (.sk, raFmt 6 r.skip)] (by simp [length_raFmt, length_raFmtErr])
    obtain ⟨r₂, t, ht, hready₂, hle, hcarries⟩ := r₁.exists_takeSnap hready₁ a hsnap
    rw [hr₁, Option.bind_some, ht, Option.bind_some]
    cases t with
    | none =>
      refine ⟨r₂, [], rfl, hready₂, ?_⟩
      intro s hs vals _ hvals hc _
      obtain ⟨sq, hsq, -⟩ := hcarries s hs vals hvals hc
      cases hsq
    | some q =>
      obtain ⟨nb, sq⟩ := q
      obtain ⟨r₃, hr₃, hready₃, hstage₃⟩ := r₂.exists_write hready₂ [(.bad, raFmt 4 r₂.snapBad)]
        (by simp [length_raFmt])
      obtain ⟨r₄, ps, sent, hr₄, hready₄, hparts⟩ := r₃.exists_sendParts hready₃ a nb
        (r₃.parts_le nb) p.ret fun k hk => (List.mem_range.mp hk).trans_le (r₃.parts_le nb)
      refine ⟨_, ps, ?_, hready₄.finish p.us nb sq sent, ?_⟩
      · dsimp only
        rw [hr₃, Option.bind_some, hr₄, Option.map_some]
      intro s hs vals hpos hvals hc _
      obtain ⟨sq', hsq', htake⟩ := hcarries s hs vals hvals hc
      obtain ⟨rfl, rfl⟩ := Prod.mk.inj (Option.some.inj hsq')
      rw [snapMaxBytes_eq] at hvals
      have hcount : r₃.parts vals.length = (vals.length + 1305 - 1) / 1305 := by
        rw [parts, if_pos hpos, hready₃.chunk, snapParts]
        omega
      have hencodes := encodes_of_forall₂ hpos hcount (r₃.parts_le _) hparts
      rwa [hstage₃, htake] at hencodes

end Telemetry

end OpenPS2Loader
