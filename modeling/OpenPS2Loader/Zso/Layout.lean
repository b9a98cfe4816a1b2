import OpenPS2Loader.Zso.IndexCache

/-!
# Images that can be read back

What a compressed image has to look like for `ziso_read_sector` to expand it: every block lies at
an aligned position, no block takes more than 2048 bytes up to the next one, and the place of a
block holds the block as it is, or starts with its compressed form. The reader works in the buffer
of the caller, with the compressed data at its end, and the bound on the blocks is what keeps the
expanded data from running into the compressed data.

## Main definitions

* `Layout` — an image of some blocks

## Main results

* `readBlocks_eq` — the loop over the blocks, on a laid out image
* `Layout.zisoReadSector_eq` — a call of `ziso_read_sector`
-/

namespace OpenPS2Loader

namespace Zso

open Bytes

variable {σ : Type} {file : List UInt8} {raw : RawRead σ} {Good : σ → Prop} {z : Codec}
  {block : ℕ → List UInt8} {n align : ℕ} {whole : ℕ → Prop}

/-- Decompression undoes compression, whatever follows the compressed block in the buffer. -/
def Codec.Inverse (z : Codec) : Prop :=
  ∀ b t, b.length = 2048 → z.decompressFast (z.compress b ++ t) = b

/-- The file is an image of `n` blocks. The places of the blocks with `whole` hold all of them. -/
structure Layout (z : Codec) (block : ℕ → List UInt8) (n align : ℕ) (whole : ℕ → Prop)
    (file : List UInt8) where
  pos : ℕ → ℕ
  plain : ℕ → Bool
  length_block : ∀ b < n, (block b).length = 2048
  aligned : ∀ b ≤ n, 2 ^ align ∣ pos b
  fits : ∀ b ≤ n, pos b / 2 ^ align < 2 ^ 31
  entry : ∀ b ≤ n, fileEntry file b % 2 ^ 31 = pos b / 2 ^ align
  topbit : ∀ b < n, 2 ^ 31 ≤ fileEntry file b ↔ plain b = true
  mono : ∀ b < n, pos b ≤ pos (b + 1)
  size_le : ∀ b < n, pos (b + 1) ≤ pos b + 2048
  pos_le : pos n ≤ file.length
  stored_plain : ∀ b < n, plain b = true →
    (file.drop (pos b)).take (pos (b + 1) - pos b) = block b
  stored : ∀ b < n, whole b → plain b = false →
    ∃ t, (file.drop (pos b)).take (pos (b + 1) - pos b) = z.compress (block b) ++ t

theorem sizeBetween_eq {p q : ℕ} (hp : 2 ^ align ∣ p) (hq : 2 ^ align ∣ q) (hpq : p ≤ q)
    (hfits : q / 2 ^ align < 2 ^ 31) (hsize : q - p < 2 ^ 32) :
    sizeBetween align (p / 2 ^ align) (q / 2 ^ align) = q - p := by
  obtain ⟨a, rfl⟩ := hp
  obtain ⟨b, rfl⟩ := hq
  have hpos : 0 < 2 ^ align := Nat.two_pow_pos align
  have hab : a ≤ b := Nat.le_of_mul_le_mul_left hpq hpos
  rw [Nat.mul_div_cancel_left b hpos] at hfits
  have hdiff : (b + 2 ^ 32 - a) % 2 ^ 32 = b - a := by omega
  rw [sizeBetween, Nat.mul_div_cancel_left a hpos, Nat.mul_div_cancel_left b hpos, hdiff,
    Nat.mul_comm, Nat.mul_sub, Nat.mod_eq_of_lt hsize]

namespace Layout

variable (L : Layout z block n align whole file)

include L in
theorem pos_le_pos {b c : ℕ} (hbc : b ≤ c) (hc : c ≤ n) : L.pos b ≤ L.pos c := by
  induction c with
  | zero =>
    obtain rfl : b = 0 := by omega
    exact Nat.le_refl _
  | succ c ih =>
    by_cases h : b = c + 1
    · rw [h]
    · exact Nat.le_trans (ih (by omega) (by omega)) (L.mono c (by omega))

include L in
theorem pos_sub_pos_le {b c : ℕ} (hbc : b ≤ c) (hc : c ≤ n) :
    L.pos c ≤ L.pos b + 2048 * (c - b) := by
  induction c with
  | zero =>
    obtain rfl : b = 0 := by omega
    exact Nat.le_add_right _ _
  | succ c ih =>
    by_cases h : b = c + 1
    · rw [h]
      exact Nat.le_add_right _ _
    · have hstep := L.size_le c (by omega)
      have := ih (by omega) (by omega)
      omega

/-- The cursor stands before block `c.curBlock`, with `m` blocks to go. -/
structure At (disk : ℕ → UInt8) (m : ℕ) (c : Cursor) : Prop where
  tmp : c.tmp.length = 2048
  room : c.buf.length = c.addr + 2048 * m
  cBuff : c.cBuff + (L.pos (c.curBlock + m) - L.pos c.curBlock) = c.buf.length
  data : c.buf.drop c.cBuff =
    slice disk (L.pos c.curBlock) (L.pos (c.curBlock + m) - L.pos c.curBlock)

variable {L}

/-- Storing an expanded block leaves the data of the blocks behind it. -/
theorem At.store {disk : ℕ → UInt8} {m : ℕ} {c : Cursor} (hc : L.At disk (m + 1) c)
    (hn : c.curBlock + (m + 1) ≤ n) {out : List UInt8} (hout : out.length = 2048)
    (tmp : List UInt8) (htmp : tmp.length = 2048) :
    L.At disk m ⟨overwrite c.buf c.addr out, tmp, c.curBlock + 1, c.addr + 2048,
        c.cBuff + (L.pos (c.curBlock + 1) - L.pos c.curBlock)⟩ ∧
      (overwrite c.buf c.addr out).take (c.addr + 2048) = c.buf.take c.addr ++ out := by
  have hroom := hc.room
  have hcBuff := hc.cBuff
  have hend : c.curBlock + 1 + m = c.curBlock + (m + 1) := by omega
  have hmono := L.mono c.curBlock (by omega)
  have hmono' := L.pos_le_pos (b := c.curBlock + 1) (c := c.curBlock + (m + 1)) (by omega) hn
  have hrest := L.pos_sub_pos_le (b := c.curBlock + 1) (c := c.curBlock + (m + 1)) (by omega) hn
  have hlen : (overwrite c.buf c.addr out).length = c.buf.length :=
    length_overwrite (by omega)
  refine ⟨⟨htmp, by dsimp only; omega, by dsimp only; rw [hend]; omega, ?_⟩, ?_⟩
  · dsimp only
    have hdrop := congrArg (List.drop (L.pos (c.curBlock + 1) - L.pos c.curBlock)) hc.data
    rw [List.drop_drop, drop_slice _ _ (by omega)] at hdrop
    rw [drop_overwrite (by omega) (by omega), hdrop, hend]
    congr 1 <;> omega
  · have htake := take_overwrite (l := c.buf) (p := c.addr) (d := out) (by omega)
    rwa [hout] at htake

/-- The place of a block is what the buffer holds at `c_buff`. -/
theorem At.take_data {disk : ℕ → UInt8} {m : ℕ} {c : Cursor} (hc : L.At disk (m + 1) c)
    (hn : c.curBlock + (m + 1) ≤ n) (hdisk : Agrees file disk) :
    (c.buf.drop c.cBuff).take (L.pos (c.curBlock + 1) - L.pos c.curBlock) =
      (file.drop (L.pos c.curBlock)).take (L.pos (c.curBlock + 1) - L.pos c.curBlock) := by
  have hmono := L.mono c.curBlock (by omega)
  have hmono' := L.pos_le_pos (b := c.curBlock + 1) (c := c.curBlock + (m + 1)) (by omega) hn
  have hfile := Nat.le_trans (L.pos_le_pos (b := c.curBlock + 1) (by omega) (Nat.le_refl n))
    L.pos_le
  rw [hc.data, take_slice _ _ (by omega), hdisk.slice_eq (by omega)]

/-- One round expands one block. -/
theorem readBlock_eq {disk : ℕ → UInt8} (hz : z.Inverse) (hdisk : Agrees file disk) {m : ℕ}
    {c : Cursor} (hc : L.At disk (m + 1) c) (hn : c.curBlock + (m + 1) ≤ n)
    (hwhole : whole c.curBlock) {lookup : ℕ → Option ℕ}
    (h : lookup c.curBlock = some (fileEntry file c.curBlock))
    (h' : lookup (c.curBlock + 1) = some (fileEntry file (c.curBlock + 1))) :
    ∃ c', readBlock z align lookup c = some c' ∧ L.At disk m c' ∧ c'.curBlock = c.curBlock + 1 ∧
      c'.addr = c.addr + 2048 ∧ c'.buf.take c'.addr = c.buf.take c.addr ++ block c.curBlock := by
  have hlt : c.curBlock < n := by omega
  have hmono := L.mono c.curBlock hlt
  have hmono' := L.pos_le_pos (b := c.curBlock + 1) (c := c.curBlock + (m + 1)) (by omega) hn
  have hle := L.size_le c.curBlock hlt
  have hblock := L.length_block c.curBlock hlt
  have hcBuff := hc.cBuff
  have hsize : sizeBetween align (fileEntry file c.curBlock % 2 ^ 31)
      (fileEntry file (c.curBlock + 1) % 2 ^ 31) =
      L.pos (c.curBlock + 1) - L.pos c.curBlock := by
    rw [L.entry _ (by omega), L.entry _ (by omega)]
    exact sizeBetween_eq (L.aligned _ (by omega)) (L.aligned _ (by omega)) hmono
      (L.fits _ (by omega)) (by omega)
  rw [readBlock, h, h', Option.bind_some, Option.bind_some, hsize, Cursor.store, Cursor.data,
    Nat.min_eq_left (by omega), if_neg (by omega), hc.take_data hn hdisk]
  by_cases hplain : L.plain c.curBlock = true
  · rw [if_neg (Nat.not_lt.mpr ((L.topbit _ hlt).mpr hplain)), L.stored_plain _ hlt hplain]
    obtain ⟨hat, htake⟩ := hc.store hn hblock c.tmp hc.tmp
    exact ⟨_, rfl, hat, rfl, rfl, htake⟩
  · have htop : fileEntry file c.curBlock < 2 ^ 31 :=
      Nat.not_le.mp fun hge => hplain ((L.topbit _ hlt).mp hge)
    have hplace := congrArg List.length (hc.take_data hn hdisk)
    obtain ⟨t, ht⟩ := L.stored _ hlt hwhole (Bool.eq_false_iff.mpr hplain)
    have htmp := hc.tmp
    have hlen : ((file.drop (L.pos c.curBlock)).take
        (L.pos (c.curBlock + 1) - L.pos c.curBlock)).length ≤ 2048 :=
      Nat.le_trans (List.length_take_le _ _) (by omega)
    rw [if_pos htop]
    rw [ht] at hlen ⊢
    -- the temporary buffer starts with the compressed block
    have hout : z.decompressFast (overwrite c.tmp 0 (z.compress (block c.curBlock) ++ t)) =
        block c.curBlock := by
      rw [overwrite, List.take_zero, List.nil_append, List.append_assoc]
      exact hz _ _ hblock
    rw [hout]
    obtain ⟨hat, htake⟩ := hc.store hn hblock
      (overwrite c.tmp 0 (z.compress (block c.curBlock) ++ t))
      (by rw [length_overwrite (by omega), htmp])
    exact ⟨_, rfl, hat, rfl, rfl, htake⟩

/-- The blocks from `b` on, `m` of them. -/
theorem flatMap_range'_succ (block : ℕ → List UInt8) (b m : ℕ) :
    (List.range' b (m + 1)).flatMap block = block b ++ (List.range' (b + 1) m).flatMap block := by
  rw [List.range'_succ, List.flatMap_cons]

/-- The loop expands all the blocks. -/
theorem readBlocks_eq {disk : ℕ → UInt8} (hz : z.Inverse) (hdisk : Agrees file disk) {m : ℕ}
    {c : Cursor} (hc : L.At disk m c) (hn : c.curBlock + m ≤ n)
    (hwhole : ∀ b, c.curBlock ≤ b → b < c.curBlock + m → whole b) {lookup : ℕ → Option ℕ}
    (h : ∀ b, c.curBlock ≤ b → b ≤ c.curBlock + m → lookup b = some (fileEntry file b)) :
    ∃ c', readBlocks z align lookup m c = some c' ∧
      c'.buf = c.buf.take c.addr ++ (List.range' c.curBlock m).flatMap block := by
  induction m generalizing c with
  | zero =>
    have hroom := hc.room
    refine ⟨c, rfl, ?_⟩
    rw [List.range'_zero, List.flatMap_nil, List.append_nil, List.take_of_length_le (by omega)]
  | succ m ih =>
    obtain ⟨c₁, hc₁, hat, hcur, haddr, htake⟩ := readBlock_eq hz hdisk hc hn
      (hwhole _ (Nat.le_refl _) (by omega)) (h _ (by omega) (by omega)) (h _ (by omega) (by omega))
    obtain ⟨c', hc', hbuf⟩ := ih hat (by omega)
      (fun b hb hb' => hwhole b (by omega) (by omega))
      (fun b hb hb' => h b (by omega) (by omega))
    refine ⟨c', by rw [readBlocks, hc₁]; exact hc', ?_⟩
    rw [hbuf, htake, hcur, flatMap_range'_succ, List.append_assoc]

/-- The data of a call is expanded to its blocks. -/
theorem expand_eq (L : Layout z block n align whole file) (hz : z.Inverse)
    (hraw : Reads file raw Good) {r : Reader σ} (hr : Synced file Good r)
    (hralign : r.align = align)
    (halign : align ≤ 11) {buf : List UInt8} {lsn count : ℕ} (hbuf : buf.length = count * 2048)
    (hn : lsn + count ≤ n) (hcount : count ≤ 256)
    (hwhole : ∀ b, lsn ≤ b → b < lsn + count → whole b) {lookup : ℕ → Option ℕ}
    (h : ∀ b, lsn ≤ b → b ≤ lsn + count → lookup b = some (fileEntry file b)) :
    ∃ r', expand z raw lookup r buf lsn count =
      some (r', count, (List.range' lsn count).flatMap block) := by
  have hle := L.pos_sub_pos_le (b := lsn) (by omega) hn
  have hfits := L.fits lsn (by omega)
  obtain ⟨size, hend⟩ := Nat.exists_eq_add_of_le (L.pos_le_pos (b := lsn) (by omega) hn)
  have hdiff : L.pos (lsn + count) - L.pos lsn = size := by omega
  have hsize : sizeBetween align (fileEntry file lsn % 2 ^ 31)
      (fileEntry file (lsn + count) % 2 ^ 31) = size := by
    rw [L.entry _ (by omega), L.entry _ hn, ← hdiff]
    exact sizeBetween_eq (L.aligned _ (by omega)) (L.aligned _ hn) (by omega) (L.fits _ hn)
      (by omega)
  have hdest : ((buf.drop (count * 2048 - size)).take size).length = size := by
    rw [List.length_take, List.length_drop]
    omega
  obtain ⟨st, tmp, disk, hread, hdisk, -, htmp⟩ := hraw.read r.raw false r.tmp
    ((buf.drop (count * 2048 - size)).take size) (L.pos lsn / 2 ^ align) align hr.good hr.tmp halign
    (by omega) (by rw [hdest]; omega)
  rw [hdest, Nat.div_mul_cancel (L.aligned lsn (by omega))] at hread
  -- the cursor before the first block
  have hlen : (overwrite buf (count * 2048 - size) (slice disk (L.pos lsn) size)).length =
      count * 2048 := by
    rw [length_overwrite, hbuf]
    rw [length_slice]
    omega
  have hat : L.At disk count ⟨overwrite buf (count * 2048 - size) (slice disk (L.pos lsn) size),
      tmp, lsn, 0, count * 2048 - size⟩ := by
    refine ⟨htmp, by dsimp only; omega, by dsimp only; omega, ?_⟩
    have htail : buf.drop (count * 2048 - size + size) = [] := List.drop_eq_nil_of_le (by omega)
    dsimp only
    rw [hdiff, overwrite, length_slice, htail, List.append_nil, List.drop_left']
    rw [List.length_take]
    omega
  obtain ⟨c', hc', hout⟩ := readBlocks_eq hz hdisk hat hn hwhole h
  refine ⟨{ r with raw := st, tmp := c'.tmp }, ?_⟩
  rw [expand, h lsn (by omega) (by omega), h (lsn + count) (by omega) (by omega), Option.bind_some,
    Option.bind_some, hralign, hsize, expandData, if_neg (by omega), L.entry lsn (by omega),
    hralign,
    hread, Option.bind_some]
  dsimp only
  rw [hc', Option.map_some, hout]
  rfl

/-- **A call of `ziso_read_sector` on a laid out image.** -/
theorem zisoReadSector_eq (L : Layout z block n align whole file) (hz : z.Inverse)
    (hraw : Reads file raw Good) (hfile : Indexed file n) {r : Reader σ} (hr : Synced file Good r)
    (htotal : r.totalBlock = n) (hralign : r.align = align) (halign : align ≤ 11)
    {buf : List UInt8} {lsn count : ℕ} (hbuf : buf.length = count * 2048) (hn : lsn + count ≤ n)
    (hcount : count ≤ 256) (hwhole : ∀ b, lsn ≤ b → b < lsn + count → whole b) :
    ∃ r', zisoReadSector z raw r buf lsn count =
        some (r', count, (List.range' lsn count).flatMap block) ∧
      Synced file Good r' ∧ r'.totalBlock = n ∧ r'.align = align := by
  have hreach := hfile.reach
  rw [headerSize] at hreach
  have hclamp : clampCount r.totalBlock lsn count = count := by
    rw [clampCount, htotal, if_neg (by omega)]
  have hread : ∃ r', zisoReadSector z raw r buf lsn count =
      some (r', count, (List.range' lsn count).flatMap block) := by
    by_cases hlsn : lsn < r.totalBlock
    · obtain ⟨r₁, hr₁, hsync, -, halign₁, hlookup⟩ := hr.refresh hraw (by rwa [htotal])
        (by rwa [htotal]) (Nat.lt_succ_of_le hcount)
      rw [zisoReadSector_of_lt hlsn, hclamp, hr₁, Option.bind_some]
      exact L.expand_eq hz hraw hsync (halign₁.trans hralign) halign hbuf hn hcount hwhole hlookup
    · obtain rfl : count = 0 := by omega
      refine ⟨r, ?_⟩
      rw [Nat.zero_mul, List.length_eq_zero_iff] at hbuf
      rw [zisoReadSector, if_pos (Nat.not_lt.mp hlsn), hbuf]
      rfl
  obtain ⟨r', hr'⟩ := hread
  obtain ⟨hsync, htotal', halign'⟩ := hr.zisoReadSector (c := ⟨lsn, count, buf⟩) hraw
    (by rwa [htotal]) (fun _ => by rw [Call.clamped, hclamp]; exact Nat.lt_succ_of_le hcount) hr'
  exact ⟨r', hr', hsync, htotal'.trans htotal, halign'.trans hralign⟩

end Layout

end Zso

end OpenPS2Loader
