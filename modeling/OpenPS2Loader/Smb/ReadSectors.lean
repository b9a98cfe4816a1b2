import OpenPS2Loader.Cdvdman.Read
import OpenPS2Loader.Smb.Session

/-!
# Disc images in parts over SMB

`DeviceReadSectors` of `device-smb.c`: a disc image is one file, or several of which each holds
`0x80000` sectors, the last one possibly fewer. The loop over the parts reads from each what the
request has in it.

A request that ends at the end of a part is not over for the loop. It goes on to the next part
with nothing left to read, and takes the `0` that `smb_ReadFile` returns for that as an error.

## Main definitions

* `PartRequest` — an image and a request for some of its sectors
* `PartRequest.deviceReadSectors` — the loop over the parts
* `PartRequest.Delivers` — the request is answered with its sectors, and only then without an error
* `PartRequest.Clean` — the request ends inside a part, or where the loop ends

## Main results

* `PartRequest.delivers_iff` — the requests that are served
-/

namespace OpenPS2Loader

open Read (CdErr)

/-- An image in parts, and a call of `DeviceReadSectors`: sector numbers are 32 bits wide, and the
destination lies in a 32-bit address space. -/
structure PartRequest where
  numParts : ℕ
  fids : ℕ → ℕ
  /-- the number of sectors in the last part -/
  lastSectors : ℕ
  lsn : ℕ
  count : ℕ
  numParts_pos : 0 < numParts
  numParts_lt : numParts < 2 ^ 8
  count_pos : 0 < count
  lsn_add_count_le : lsn + count ≤ (numParts - 1) * 0x80000 + lastSectors
  lsn_add_count_lt : lsn + count < 2 ^ 32
  count_lt : count * 2048 < 2 ^ 32

/-- The local variables of the loop. -/
structure PartVars where
  lsn : ℕ
  sectors : ℕ
  sectorsToRead : ℕ
  lbound : ℕ
  ubound : ℕ
  nlsn : ℕ
  offslsn : ℕ
  r : ℕ

namespace PartVars

/-- The part of the loop header that goes on to the next part. -/
def advance (v : PartVars) : PartVars :=
  { v with
    lbound := v.ubound
    ubound := (v.ubound + 0x80000) % 2 ^ 32
    offslsn := (v.offslsn + 2 ^ 32 - 0x80000) % 2 ^ 32 }

/-- The request goes on behind the part. -/
def crosses (v : PartVars) : Prop := v.ubound - 1 < (v.lsn + v.sectors) % 2 ^ 32

instance (v : PartVars) : Decidable v.crosses := inferInstanceAs (Decidable (_ < _))

/-- What is read from this part. -/
def clip (v : PartVars) : PartVars :=
  if v.crosses then
    { v with
      sectorsToRead := v.ubound - v.lsn
      sectors := (v.sectors + 2 ^ 32 - (v.ubound - v.lsn)) % 2 ^ 32
      nlsn := v.ubound }
  else v

/-- The variables after a read. -/
def past (v : PartVars) : PartVars :=
  { v with
    r := (v.r + v.sectorsToRead * 2048) % 2 ^ 32
    offslsn := (v.offslsn + v.sectorsToRead) % 2 ^ 32
    sectorsToRead := v.sectors
    lsn := v.nlsn }

end PartVars

/-- `smb_ReadCD`. -/
def Smb.readCD (s : Smb) (fid lsn nsectors : ℕ) (buf : Buf) (ptr : ℕ) : Option (Smb × ℤ × Buf) :=
  s.readFile fid (UInt32.ofNat (lsn * 2048)) (UInt32.ofNat (lsn / 2 ^ 21)) buf ptr
    (Smb.toInt (nsectors * 2048))

/-- The loop over the parts; `i` is the number of the part, and the argument that is counted down
the number of parts from there on. -/
def partLoop (fids : ℕ → ℕ) : ℕ → ℕ → Smb → PartVars → Buf → Option (Smb × CdErr × Buf)
  | 0, _, s, _, buf => some (s, .no, buf)
  | n + 1, i, s, v, buf =>
    if v.lbound ≤ v.lsn ∧ v.lsn < v.ubound then
      (s.readCD (fids i) v.offslsn v.clip.sectorsToRead buf v.r).bind fun out =>
        if out.2.1 ≤ 0 then some (out.1, .read, out.2.2)
        else if v.crosses then partLoop fids n (i + 1) out.1 v.clip.past.advance out.2.2
        else some (out.1, .no, out.2.2)
    else partLoop fids n (i + 1) s v.advance buf

/-! ### Reading from one part -/

section readCD

variable {s s' : Smb} {fid lsn nsectors ptr : ℕ} {buf buf' : Buf} {result : ℤ}

/-- The offset of a sector in its file. -/
theorem offset_sector (h : lsn < 2 ^ 32) :
    offset (UInt32.ofNat (lsn * 2048)).toNat (UInt32.ofNat (lsn / 2 ^ 21)).toNat =
      UInt64.ofNat (lsn * 2048) := by
  have hsum : lsn / 2 ^ 21 % 2 ^ 32 * 2 ^ 32 + lsn * 2048 % 2 ^ 32 = lsn * 2048 := by omega
  rw [offset, UInt32.toNat_ofNat', UInt32.toNat_ofNat', hsum]

theorem readCD_of_reads (hs : s.Reads) (hsema : s.sema ≠ 0) (fid : ℕ) (hlsn : lsn < 2 ^ 32)
    (hn : nsectors * 2048 < 2 ^ 31) (buf : Buf) (ptr : ℕ) :
    ∃ n, s.readCD fid lsn nsectors buf ptr = some (s.skip n, ((nsectors * 2048 : ℕ) : ℤ),
      buf.put ptr (nsectors * 2048) (fileFrom (s.files fid) (UInt64.ofNat (lsn * 2048)))) := by
  obtain ⟨n, h⟩ := Smb.readFile_eq_put hs hsema fid (UInt32.ofNat (lsn * 2048))
    (UInt32.ofNat (lsn / 2 ^ 21)) buf ptr ((nsectors * 2048 : ℕ) : ℤ)
  refine ⟨n, ?_⟩
  rw [Smb.readCD, Smb.toInt_of_lt hn, h, offset_sector hlsn, Int.toNat_natCast]

theorem readCD_of_wholeReplies (hs : s.WholeReplies) (hlsn : lsn < 2 ^ 32)
    (hn : nsectors * 2048 < 2 ^ 31)
    (h : s.readCD fid lsn nsectors buf ptr = some (s', result, buf')) (hresult : 0 < result) :
    (∃ n, s' = s.skip n) ∧
      (∀ k < nsectors * 2048,
        buf' (ptr + k) = some (fileFrom (s.files fid) (UInt64.ofNat (lsn * 2048)) k)) ∧
      ∀ k < ptr, buf' k = buf k := by
  rw [Smb.readCD, Smb.toInt_of_lt hn] at h
  have hread := Smb.readFile_of_wholeReplies hs h hresult
  rw [offset_sector hlsn, Int.toNat_natCast] at hread
  exact hread

end readCD

/-! ### The loop -/

/-- The variables when the loop comes to part `i`, with `c` sectors from `lsn` on still to read. -/
def varsAt (i lsn c nlsn r : ℕ) : PartVars where
  lsn := lsn
  sectors := c
  sectorsToRead := c
  lbound := i * 0x80000
  ubound := (i + 1) * 0x80000
  nlsn := nlsn
  offslsn := lsn - i * 0x80000
  r := r

@[simp] theorem varsAt_offslsn (i lsn c nlsn r : ℕ) :
    (varsAt i lsn c nlsn r).offslsn = lsn - i * 0x80000 := rfl

@[simp] theorem varsAt_r (i lsn c nlsn r : ℕ) : (varsAt i lsn c nlsn r).r = r := rfl

section loop

variable {fids : ℕ → ℕ} {disc : ℕ → UInt8} {s s' : Smb} {buf buf' : Buf} {i n lsn c nlsn r : ℕ}

theorem advance_varsAt (hi : i < 2 ^ 8) (hlsn : (i + 1) * 0x80000 ≤ lsn) (h : lsn < 2 ^ 32) :
    (varsAt i lsn c nlsn r).advance = varsAt (i + 1) lsn c nlsn r := by
  simp only [varsAt, PartVars.advance, PartVars.mk.injEq, true_and, and_true]
  omega

theorem crosses_varsAt (h : lsn + c < 2 ^ 32) :
    (varsAt i lsn c nlsn r).crosses ↔ (i + 1) * 0x80000 ≤ lsn + c := by
  simp only [PartVars.crosses, varsAt]
  omega

theorem clip_varsAt_of_crosses (h : lsn + c < 2 ^ 32) (hcross : (i + 1) * 0x80000 ≤ lsn + c) :
    ((varsAt i lsn c nlsn r).clip).sectorsToRead = (i + 1) * 0x80000 - lsn := by
  rw [PartVars.clip, if_pos ((crosses_varsAt h).mpr hcross)]
  rfl

theorem clip_varsAt_of_not_crosses (h : lsn + c < 2 ^ 32)
    (hcross : ¬ (i + 1) * 0x80000 ≤ lsn + c) :
    ((varsAt i lsn c nlsn r).clip).sectorsToRead = c := by
  rw [PartVars.clip, if_neg (mt (crosses_varsAt h).mp hcross)]
  rfl

/-- The variables behind a part that the request fills to its end. -/
theorem past_varsAt (hi : i < 2 ^ 8) (hlo : i * 0x80000 ≤ lsn)
    (hhi : lsn < (i + 1) * 0x80000) (hcross : (i + 1) * 0x80000 ≤ lsn + c)
    (h : lsn + c < 2 ^ 32) (hr : r + c * 2048 < 2 ^ 32) :
    ((varsAt i lsn c nlsn r).clip).past.advance =
      varsAt (i + 1) ((i + 1) * 0x80000) (lsn + c - (i + 1) * 0x80000)
        ((i + 1) * 0x80000) (r + ((i + 1) * 0x80000 - lsn) * 2048) := by
  rw [PartVars.clip, if_pos ((crosses_varsAt h).mpr hcross)]
  simp only [varsAt, PartVars.past, PartVars.advance, PartVars.mk.injEq, true_and]
  omega

/-- The bytes of part `i` in the image. -/
theorem fileFrom_part {m k : ℕ} (hdisc : ∀ x < 2 ^ 30,
      disc (i * 2 ^ 30 + x) = s.files (fids i) (UInt64.ofNat x))
    (hlo : i * 0x80000 ≤ lsn) (hm : lsn + m ≤ (i + 1) * 0x80000) (hk : k < m * 2048) :
    fileFrom (s.files (fids i)) (UInt64.ofNat ((lsn - i * 0x80000) * 2048)) k =
      disc (lsn * 2048 + k) := by
  have hx : lsn * 2048 + k = i * 2 ^ 30 + ((lsn - i * 0x80000) * 2048 + k) := by
    omega
  rw [fileFrom, ← UInt64.ofNat_add, hx, hdisc _ (by omega)]

/-- The loop with a server that answers every read: it stops at the end of the parts, and takes a
request that ends at the end of a part other than the last for an error. -/
theorem partLoop_of_reads (hs : s.Reads) (hsema : s.sema ≠ 0) (hn : i + n < 2 ^ 8)
    (hdisc : ∀ j, i ≤ j → j < i + n → ∀ x < 2 ^ 30,
      disc (j * 2 ^ 30 + x) = s.files (fids j) (UInt64.ofNat x))
    (hlo : i * 0x80000 ≤ lsn) (h : lsn + c < 2 ^ 32) (hr : r + c * 2048 < 2 ^ 32)
    (hc : c = 0 → lsn % 0x80000 = 0) :
    ∃ m, partLoop fids n i s (varsAt i lsn c nlsn r) buf = some (s.skip m,
      if (lsn + c) % 0x80000 = 0 ∧ lsn + c < (i + n) * 0x80000 then .read else .no,
      buf.put r ((min (lsn + c) ((i + n) * 0x80000) - lsn) * 2048)
        fun k => disc (lsn * 2048 + k)) := by
  induction n generalizing i s buf lsn c nlsn r with
  | zero =>
    have hmin : min (lsn + c) ((i + 0) * 0x80000) - lsn = 0 := by omega
    refine ⟨0, ?_⟩
    rw [partLoop, if_neg (by omega), hmin, Nat.zero_mul, Buf.put_zero]
    rfl
  | succ n ih =>
    have hsucc : i + (n + 1) = i + 1 + n := by omega
    rw [partLoop]
    by_cases hhi : lsn < (i + 1) * 0x80000
    · have hpart := hdisc i (Nat.le_refl i) (by omega)
      rw [if_pos ⟨hlo, hhi⟩, varsAt_offslsn, varsAt_r]
      by_cases hcross : (i + 1) * 0x80000 ≤ lsn + c
      · -- the part is read to its end, and the loop goes on
        rw [clip_varsAt_of_crosses h hcross]
        generalize hd : (i + 1) * 0x80000 - lsn = d
        obtain ⟨m, hm⟩ := @readCD_of_reads s (lsn - i * 0x80000) d hs hsema (fids i) (by omega)
          (by omega) buf r
        have hlo' : (i + 1) * 0x80000 ≤ (i + 1) * 0x80000 := Nat.le_refl _
        have hsum : (i + 1) * 0x80000 + (lsn + c - (i + 1) * 0x80000) = lsn + c := by omega
        obtain ⟨m', hm'⟩ := @ih (s.skip m)
          (buf.put r (d * 2048) (fileFrom (s.files (fids i))
            (UInt64.ofNat ((lsn - i * 0x80000) * 2048))))
          (i + 1) ((i + 1) * 0x80000) (lsn + c - (i + 1) * 0x80000) ((i + 1) * 0x80000)
          (r + d * 2048) (hs.skip m) hsema (by omega)
          (fun j hj hj' => hdisc j (by omega) (by omega)) hlo' (by omega) (by omega)
          (fun _ => Nat.mul_mod_left _ _)
        refine ⟨m' + m, ?_⟩
        rw [hm, Option.bind_some, if_neg (by simp only; omega),
          if_pos ((crosses_varsAt h).mpr hcross), past_varsAt (by omega) hlo hhi hcross h hr, hd,
          hm',
          Smb.skip_skip, hsum, hsucc]
        have hput : buf.put r (d * 2048) (fileFrom (s.files (fids i))
            (UInt64.ofNat ((lsn - i * 0x80000) * 2048))) =
              buf.put r (d * 2048) fun k => disc (lsn * 2048 + k) :=
          buf.put_congr r fun k hk => fileFrom_part hpart hlo (by omega) hk
        have hlen : d * 2048 + (min (lsn + c) ((i + 1 + n) * 0x80000) - (i + 1) * 0x80000) * 2048 =
            (min (lsn + c) ((i + 1 + n) * 0x80000) - lsn) * 2048 := by
          clear * - hd hcross hhi
          omega
        have hshift : (fun k => disc ((i + 1) * 0x80000 * 2048 + k)) =
            fun k => disc (lsn * 2048 + (d * 2048 + k)) := by
          funext k
          have hk : (i + 1) * 0x80000 * 2048 + k = lsn * 2048 + (d * 2048 + k) := by
            clear * - hd hhi
            omega
          rw [hk]
        rw [hput, hshift, Buf.put_put buf r (d * 2048) _ fun k => disc (lsn * 2048 + k), hlen]
      · rw [clip_varsAt_of_not_crosses h hcross]
        obtain ⟨m, hm⟩ := @readCD_of_reads s (lsn - i * 0x80000) c hs hsema (fids i) (by omega)
          (by omega) buf r
        have hput : buf.put r (c * 2048) (fileFrom (s.files (fids i))
            (UInt64.ofNat ((lsn - i * 0x80000) * 2048))) =
              buf.put r (c * 2048) fun k => disc (lsn * 2048 + k) :=
          buf.put_congr r fun k hk => fileFrom_part hpart hlo (by omega) hk
        have hlen : min (lsn + c) ((i + (n + 1)) * 0x80000) - lsn = c := by omega
        refine ⟨m, ?_⟩
        rw [hm, Option.bind_some, hput, hlen]
        by_cases hc0 : c = 0
        · -- nothing is left to read in this part
          rw [if_pos (by simp only [hc0]; omega), if_pos ⟨by have := hc hc0; omega, by omega⟩]
        · rw [if_neg (by simp only; omega), if_neg (mt (crosses_varsAt h).mp hcross),
            if_neg (by omega)]
    · have hdisc' : ∀ j, i + 1 ≤ j → j < i + 1 + n → ∀ x < 2 ^ 30,
          disc (j * 2 ^ 30 + x) = s.files (fids j) (UInt64.ofNat x) :=
        fun j hj hj' => hdisc j (by omega) (by omega)
      have hlo' : (i + 1) * 0x80000 ≤ lsn := Nat.le_of_not_lt hhi
      obtain ⟨m, hm⟩ := @ih s buf (i + 1) lsn c nlsn r hs hsema (by omega) hdisc' hlo' h hr hc
      refine ⟨m, ?_⟩
      rw [if_neg fun hin => hhi hin.2, advance_varsAt (by omega) hlo' (by omega), hm, hsucc]

/-- The loop with a server whose replies are whole: without an error, every sector is there. -/
theorem partLoop_of_wholeReplies (hs : s.WholeReplies) (hn : i + n < 2 ^ 8)
    (hdisc : ∀ j, i ≤ j → j < i + n → ∀ x < 2 ^ 30,
      disc (j * 2 ^ 30 + x) = s.files (fids j) (UInt64.ofNat x))
    (hlo : i * 0x80000 ≤ lsn) (h : lsn + c < 2 ^ 32) (hr : r + c * 2048 < 2 ^ 32)
    (hend : lsn + c ≤ (i + n) * 0x80000)
    (hloop : partLoop fids n i s (varsAt i lsn c nlsn r) buf = some (s', .no, buf')) :
    (∀ k < c * 2048, buf' (r + k) = some (disc (lsn * 2048 + k))) ∧ ∀ k < r, buf' k = buf k := by
  induction n generalizing i s buf lsn c nlsn r with
  | zero =>
    cases hloop
    exact ⟨fun k hk => absurd hk (by omega), fun k _ => rfl⟩
  | succ n ih =>
    have hsucc : i + (n + 1) = i + 1 + n := by omega
    rw [hsucc] at hend
    rw [partLoop] at hloop
    by_cases hhi : lsn < (i + 1) * 0x80000
    · have hpart := hdisc i (Nat.le_refl i) (by omega)
      rw [if_pos ⟨hlo, hhi⟩, varsAt_offslsn, varsAt_r, Option.bind_eq_some_iff] at hloop
      obtain ⟨⟨s1, result, buf1⟩, hread, hloop⟩ := hloop
      dsimp only at hloop
      by_cases hresult : result ≤ 0
      · rw [if_pos hresult] at hloop
        cases hloop
      rw [if_neg hresult] at hloop
      by_cases hcross : (i + 1) * 0x80000 ≤ lsn + c
      · rw [clip_varsAt_of_crosses h hcross] at hread
        rw [if_pos ((crosses_varsAt h).mpr hcross),
          past_varsAt (by omega) hlo hhi hcross h hr] at hloop
        generalize hd : (i + 1) * 0x80000 - lsn = d at hread hloop
        obtain ⟨⟨m, hm⟩, hin, hfront⟩ :=
          readCD_of_wholeReplies hs (by omega) (by omega) hread (by omega)
        have hdisc' : ∀ j, i + 1 ≤ j → j < i + 1 + n → ∀ x < 2 ^ 30,
            disc (j * 2 ^ 30 + x) = s1.files (fids j) (UInt64.ofNat x) := by
          rw [hm]
          exact fun j hj hj' => hdisc j (by omega) (by omega)
        have hsum : (i + 1) * 0x80000 + (lsn + c - (i + 1) * 0x80000) = lsn + c := by omega
        have hrest := ih (hm ▸ hs.skip m) (by omega) hdisc' (Nat.le_refl _) (hsum.symm ▸ h)
          (by omega) (hsum.symm ▸ hend) hloop
        refine ⟨fun k hk => ?_, fun k hk => ?_⟩
        · by_cases hk' : k < d * 2048
          · rw [hrest.2 (r + k) (by omega), hin k hk', fileFrom_part hpart hlo (by omega) hk']
          · have hk2 := hrest.1 (k - d * 2048) (by omega)
            have hpos : r + d * 2048 + (k - d * 2048) = r + k := by omega
            have hbyte : (i + 1) * 0x80000 * 2048 + (k - d * 2048) = lsn * 2048 + k := by
              clear * - hd hhi hk'
              omega
            rw [hpos, hbyte] at hk2
            exact hk2
        · rw [hrest.2 k (by omega), hfront k hk]
      · rw [clip_varsAt_of_not_crosses h hcross] at hread
        rw [if_neg (mt (crosses_varsAt h).mp hcross)] at hloop
        cases hloop
        obtain ⟨-, hin, hfront⟩ := readCD_of_wholeReplies hs (by omega) (by omega) hread (by omega)
        have hle : lsn + c ≤ (i + 1) * 0x80000 := Nat.le_of_lt (Nat.lt_of_not_le hcross)
        refine ⟨fun k hk => ?_, hfront⟩
        rw [hin k hk, fileFrom_part hpart hlo hle hk]
    · have hdisc' : ∀ j, i + 1 ≤ j → j < i + 1 + n → ∀ x < 2 ^ 30,
          disc (j * 2 ^ 30 + x) = s.files (fids j) (UInt64.ofNat x) :=
        fun j hj hj' => hdisc j (by omega) (by omega)
      have hlo' : (i + 1) * 0x80000 ≤ lsn := Nat.le_of_not_lt hhi
      rw [if_neg fun hin => hhi hin.2, advance_varsAt (by omega) hlo' (by omega)] at hloop
      exact ih hs (by omega) hdisc' hlo' h hr hend hloop

end loop

namespace PartRequest

/-- The variables in front of the loop. -/
def vars (p : PartRequest) : PartVars where
  lsn := p.lsn
  sectors := p.count
  sectorsToRead := p.count
  lbound := 0
  ubound := if 1 < p.numParts then 0x80000 else 0xFFFFFFFF
  nlsn := 0
  offslsn := p.lsn
  r := 0

/-- `DeviceReadSectors` into an empty buffer. -/
def deviceReadSectors (p : PartRequest) (s : Smb) : Option (Smb × CdErr × Buf) :=
  partLoop p.fids p.numParts 0 s p.vars fun _ => none

/-- The byte of the image at a position: parts are `2 ^ 30` bytes long, and what lies behind the
others is in the last one. -/
def discByte (p : PartRequest) (s : Smb) (b : ℕ) : UInt8 :=
  let i := min (b / 2 ^ 30) (p.numParts - 1)
  s.files (p.fids i) (UInt64.ofNat (b - i * 2 ^ 30))

/-- The buffer with the sectors of the request and nothing else. -/
def filled (p : PartRequest) (s : Smb) : Buf :=
  Buf.put (fun _ => none) 0 (p.count * 2048) fun k => p.discByte s (p.lsn * 2048 + k)

/-- A server that answers every read gives the sectors of the request, and there is no success
without them. -/
def Delivers (p : PartRequest) (s : Smb) : Prop :=
  (s.Reads → ∃ s', p.deviceReadSectors s = some (s', .no, p.filled s)) ∧
    ∀ s' buf', p.deviceReadSectors s = some (s', .no, buf') →
      ∀ k < p.count * 2048, buf' k = some (p.discByte s (p.lsn * 2048 + k))

/-- A file of its own is read with one request, whose length is an `int`. In parts, a request must
not end at the end of a part other than the last, nor behind the parts as the loop counts them. -/
def Clean (p : PartRequest) : Prop :=
  if p.numParts = 1 then p.count < 2 ^ 20
  else p.lsn + p.count ≤ p.numParts * 0x80000 ∧
    ¬ ((p.lsn + p.count) % 0x80000 = 0 ∧ p.lsn + p.count < p.numParts * 0x80000)

/-! ### One part -/

theorem deviceReadSectors_one (p : PartRequest) (h1 : p.numParts = 1) (s : Smb) :
    p.deviceReadSectors s = (s.readCD (p.fids 0) p.lsn p.count (fun _ => none) 0).bind fun out =>
      if out.2.1 ≤ 0 then some (out.1, .read, out.2.2) else some (out.1, .no, out.2.2) := by
  have hlt := p.lsn_add_count_lt
  have hpos := p.count_pos
  have hub : p.vars.ubound = 0xFFFFFFFF := by
    rw [vars, h1]
    rfl
  have hclip : p.vars.clip.sectorsToRead = p.count := by
    rw [PartVars.clip]
    by_cases hcross : p.vars.crosses
    · have hc : p.vars.ubound - 1 < (p.lsn + p.count) % 2 ^ 32 := hcross
      rw [hub] at hc
      rw [if_pos hcross]
      show p.vars.ubound - p.lsn = p.count
      rw [hub]
      omega
    · rw [if_neg hcross]
      rfl
  have hin : p.vars.lbound ≤ p.vars.lsn ∧ p.vars.lsn < p.vars.ubound := by
    rw [hub]
    exact ⟨Nat.zero_le _, show p.lsn < 0xFFFFFFFF by omega⟩
  rw [deviceReadSectors, h1, partLoop, if_pos hin, hclip]
  congr 1
  funext out
  by_cases hout : out.2.1 ≤ 0
  · rw [if_pos hout, if_pos hout]
  · rw [if_neg hout, if_neg hout]
    split_ifs <;> rfl

theorem discByte_one {p : PartRequest} (h1 : p.numParts = 1) (s : Smb) (b : ℕ) :
    p.discByte s b = s.files (p.fids 0) (UInt64.ofNat b) := by
  simp only [discByte, h1, Nat.sub_self, Nat.min_zero, Nat.zero_mul, Nat.sub_zero]

/-- A file of its own, with a length that is an `int`. -/
theorem delivers_one {p : PartRequest} (h1 : p.numParts = 1) (hcount : p.count < 2 ^ 20) {s : Smb}
    (hsema : s.sema ≠ 0) (hs : s.WholeReplies) : p.Delivers s := by
  have hlt := p.lsn_add_count_lt
  have hpos := p.count_pos
  have hbyte : ∀ k, fileFrom (s.files (p.fids 0)) (UInt64.ofNat (p.lsn * 2048)) k =
      p.discByte s (p.lsn * 2048 + k) := by
    intro k
    rw [discByte_one h1, fileFrom, ← UInt64.ofNat_add]
  rw [Delivers, deviceReadSectors_one p h1]
  refine ⟨fun hreads => ?_, fun s' buf' h k hk => ?_⟩
  · obtain ⟨n, hn⟩ := @readCD_of_reads s p.lsn p.count hreads hsema (p.fids 0) (by omega)
      (by omega) (fun _ => none) 0
    refine ⟨s.skip n, ?_⟩
    rw [hn, Option.bind_some, if_neg (by simp only; omega), filled,
      Buf.put_congr _ 0 fun k _ => hbyte k]
  · rw [Option.bind_eq_some_iff] at h
    obtain ⟨⟨s1, result, buf1⟩, hread, hout⟩ := h
    dsimp only at hout
    split_ifs at hout with hresult
    · cases hout
    · cases hout
      obtain ⟨-, hin, -⟩ := readCD_of_wholeReplies hs (by omega) (by omega) hread (by omega)
      rw [← hbyte k, ← hin k hk, Nat.zero_add]

/-- A server that gives what it is asked for. -/
def obliging : Smb :=
  ⟨1, fun _ _ => 0, fun _ nbytes => .received (Smb.replySegs nbytes),
    fun _ nbytes => .done nbytes, 0, 0⟩

theorem obliging_reads : obliging.Reads := by
  intro k nbytes hpos hle
  rw [Smb.clientMaxRecvSize] at hle
  exact ⟨_, nbytes, rfl, hpos, Nat.le_refl _, fun data => Smb.whole_replySegs data (by omega)⟩

/-- A longer read has a negative length and is taken for an error. -/
theorem not_delivers_one {p : PartRequest} (h1 : p.numParts = 1) (hcount : ¬ p.count < 2 ^ 20) :
    ¬ p.Delivers obliging := by
  intro hdel
  have hlt := p.count_lt
  obtain ⟨s', h⟩ := hdel.1 obliging_reads
  have hneg : Smb.toInt (p.count * 2048) < 0 := by
    rw [Smb.toInt, if_neg (by omega)]
    omega
  rw [deviceReadSectors_one p h1, Smb.readCD, Smb.readFile, Smb.waitSema_eq_some (by decide),
    Option.bind_some, Int.toNat_of_nonpos (by omega), Smb.readLoop, Option.map_some,
    Option.bind_some, if_pos (by simp only; omega)] at h
  cases h

/-! ### Several parts -/

theorem vars_eq_varsAt {p : PartRequest} (h1 : p.numParts ≠ 1) :
    p.vars = varsAt 0 p.lsn p.count 0 0 := by
  have hpos := p.numParts_pos
  rw [vars, if_pos (by omega), varsAt, Nat.zero_mul, Nat.zero_add, Nat.one_mul, Nat.sub_zero]

theorem discByte_part {p : PartRequest} (s : Smb) {j x : ℕ} (hj : j < p.numParts)
    (hx : x < 2 ^ 30) :
    p.discByte s (j * 2 ^ 30 + x) = s.files (p.fids j) (UInt64.ofNat x) := by
  have hdiv : min ((j * 2 ^ 30 + x) / 2 ^ 30) (p.numParts - 1) = j := by omega
  rw [discByte]
  simp only [hdiv, Nat.add_sub_cancel_left]

/-- What a server that answers every read makes of a request in parts. -/
theorem deviceReadSectors_parts (p : PartRequest) (h1 : p.numParts ≠ 1) {s : Smb}
    (hreads : s.Reads) (hsema : s.sema ≠ 0) :
    ∃ m, p.deviceReadSectors s = some (s.skip m,
      if (p.lsn + p.count) % 0x80000 = 0 ∧ p.lsn + p.count < p.numParts * 0x80000 then .read
      else .no,
      Buf.put (fun _ => none) 0 ((min (p.lsn + p.count) (p.numParts * 0x80000) - p.lsn) * 2048)
        fun k => p.discByte s (p.lsn * 2048 + k)) := by
  have hlt := p.lsn_add_count_lt
  have hpos := p.count_pos
  have hcount := p.count_lt
  have hparts := p.numParts_lt
  obtain ⟨m, hm⟩ := @partLoop_of_reads p.fids (p.discByte s) s (fun _ => none) 0 p.numParts p.lsn
    p.count 0 0 hreads hsema (by omega) (fun j _ hj x hx => discByte_part s (by omega) hx)
    (by omega)
    hlt (by omega) (by omega)
  refine ⟨m, ?_⟩
  rw [Nat.zero_add] at hm
  rw [deviceReadSectors, vars_eq_varsAt h1, hm]

/-- Several parts, and a request that does not end at the end of one. -/
theorem delivers_parts {p : PartRequest} (h1 : p.numParts ≠ 1) (hclean : p.Clean) {s : Smb}
    (hsema : s.sema ≠ 0) (hs : s.WholeReplies) : p.Delivers s := by
  rw [Clean, if_neg h1] at hclean
  obtain ⟨hend, hboundary⟩ := hclean
  have hparts := p.numParts_lt
  have hcount := p.count_lt
  refine ⟨fun hreads => ?_, fun s' buf' h k hk => ?_⟩
  · obtain ⟨m, hm⟩ := deviceReadSectors_parts p h1 hreads hsema
    have hlen : min (p.lsn + p.count) (p.numParts * 0x80000) - p.lsn = p.count := by omega
    refine ⟨s.skip m, ?_⟩
    rw [hm, if_neg hboundary, hlen, filled]
  · rw [deviceReadSectors, vars_eq_varsAt h1] at h
    have hlo : 0 * 0x80000 ≤ p.lsn := by rw [Nat.zero_mul]; exact Nat.zero_le _
    have hall := partLoop_of_wholeReplies hs (by omega)
      (fun j _ hj x hx => discByte_part s (by omega) hx) hlo p.lsn_add_count_lt (by omega)
      (by rw [Nat.zero_add]; exact hend) h
    rw [← hall.1 k hk, Nat.zero_add]

/-- Several parts, and a request that ends at the end of one or behind all of them. -/
theorem not_delivers_parts {p : PartRequest} (h1 : p.numParts ≠ 1) (hclean : ¬ p.Clean) :
    ¬ p.Delivers obliging := by
  intro hdel
  rw [Clean, if_neg h1] at hclean
  obtain ⟨s', h⟩ := hdel.1 obliging_reads
  obtain ⟨m, hm⟩ := deviceReadSectors_parts p h1 obliging_reads (by decide)
  rw [hm] at h
  by_cases hboundary : (p.lsn + p.count) % 0x80000 = 0 ∧ p.lsn + p.count < p.numParts * 0x80000
  · rw [if_pos hboundary] at h
    cases h
  · -- the last byte of the request was not read
    have hend : p.numParts * 0x80000 < p.lsn + p.count := by
      by_contra hle
      exact hclean ⟨Nat.le_of_not_lt hle, hboundary⟩
    have hpos := p.count_pos
    rw [if_neg hboundary] at h
    have hbuf := congrFun (congrArg (fun out => out.2.2) (Option.some.inj h)) (p.count * 2048 - 1)
    simp only [filled, Buf.put] at hbuf
    rw [if_neg (by omega), if_pos (by omega)] at hbuf
    cases hbuf

/-- **The requests that are served.** With servers whose replies are whole, a request is served as
it should be exactly when it is a clean one. -/
theorem delivers_iff (p : PartRequest) :
    (∀ s : Smb, s.sema ≠ 0 → s.WholeReplies → p.Delivers s) ↔ p.Clean := by
  by_cases h1 : p.numParts = 1
  · refine ⟨fun hall => ?_, fun hclean s hsema hs => ?_⟩
    · by_contra hclean
      rw [Clean, if_pos h1] at hclean
      exact not_delivers_one h1 hclean (hall obliging (by decide) obliging_reads.wholeReplies)
    · rw [Clean, if_pos h1] at hclean
      exact delivers_one h1 hclean hsema hs
  · refine ⟨fun hall => ?_, fun hclean s hsema hs => delivers_parts h1 hclean hsema hs⟩
    by_contra hclean
    exact not_delivers_parts h1 hclean (hall obliging (by decide) obliging_reads.wholeReplies)

theorem oneSector_lt : 1 * 2048 < 2 ^ 32 := by decide

/-- The last sector of the first of two parts. -/
def lastOfFirst : PartRequest where
  numParts := 2
  fids := id
  lastSectors := 0x1000
  lsn := 0x7FFFF
  count := 1
  numParts_pos := Nat.two_pos
  numParts_lt := by decide
  count_pos := Nat.one_pos
  lsn_add_count_le := by decide
  lsn_add_count_lt := by decide
  count_lt := oneSector_lt

/-- A request that ends at the end of the first part is answered with an error. -/
theorem not_delivers_lastOfFirst : ¬ lastOfFirst.Delivers obliging := by
  rintro ⟨hno, -⟩
  obtain ⟨s', h⟩ := hno obliging_reads
  obtain ⟨m, hm⟩ := deviceReadSectors_parts lastOfFirst (by decide) obliging_reads (by decide)
  rw [hm, if_pos (by decide)] at h
  cases h

end PartRequest

end OpenPS2Loader
