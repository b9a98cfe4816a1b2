import Mathlib.Algebra.Group.Int.Defs
import Mathlib.Algebra.Group.Nat.Defs
import Mathlib.Data.List.DropRight
import Mathlib.Data.List.GetD
import OpenPS2Loader.Lib.Bytes
import OpenPS2Loader.Lib.Scan

/-!
# The network files of POPStarter

`IPCONFIG.DAT` and `SMBCONFIG.DAT` of `src/vcdsupport.c`: how they are read and how they are
written. The texts are bytes without the NUL at their end; `snprintf` cuts them.

The first line of `SMBCONFIG.DAT` is split at its blanks, and every line loses those at its end. So
what the editor takes is not always what it shows the next time: the port 445 is the default and is
not written, and a blank at the end of a value, or at the start of a share, is lost.

## Main definitions

* `Vcd.PopsNet` — the configuration
* `Vcd.vcdParseIpConfig`, `Vcd.vcdParseSmbConfig`, `Vcd.inspectNetFiles`
* `Vcd.vcdBuildIpConfig`, `Vcd.vcdBuildSmbConfig`
* `Vcd.RoundTrips` — what is written is read

## Main results

* `Vcd.inspectNetFiles_build` — what is read of what is written
* `Vcd.roundTrips_iff_kept`
* `Vcd.recovered_build`
-/

namespace OpenPS2Loader

namespace Vcd

open Scan (decimal scanInt sscanf Directive)

/-! ### The configuration -/

/-- A `char[32]` of the configuration. -/
@[ext]
structure Field where
  text : List UInt8
  length_lt : text.length < 32
  nul_not_mem : 0 ∉ text

instance : DecidableEq Field := fun f g => decidable_of_iff (f.text = g.text) Field.ext_iff.symm

/-- `snprintf` of a text into it. -/
def Field.snprintf (t : List UInt8) : Field where
  text := (Bytes.cstr t).take 31
  length_lt := by
    rw [List.length_take]
    omega
  nul_not_mem := fun h => Bytes.zero_not_mem_cstr t (List.mem_of_mem_take h)

/-- An `int[4]`. -/
structure Quad where
  a : ℤ
  b : ℤ
  c : ℤ
  d : ℤ
  deriving DecidableEq

/-- What is read of a `vcd_popsnet_t`. -/
structure PopsNet where
  smbExists : Bool
  ipExists : Bool
  ipDhcp : Bool
  smbInvalid : Bool
  ipInvalid : Bool
  homeAvailable : Bool
  ps2Ip : Quad
  ps2Mask : Quad
  ps2Gw : Quad
  smbIp : Quad
  smbPort : ℤ
  smbShare : Field
  smbUser : Field
  smbPass : Field
  createDir : List UInt8
  home : List UInt8
  deriving DecidableEq

/-- `vcdQuadOk`. -/
def vcdQuadOk (q : Quad) : Bool :=
  (0 ≤ q.a ∧ q.a ≤ 255) ∧ (0 ≤ q.b ∧ q.b ≤ 255) ∧ (0 ≤ q.c ∧ q.c ≤ 255) ∧ 0 ≤ q.d ∧ q.d ≤ 255

/-- `0.0.0.0`. -/
def Quad.zero : Quad := ⟨0, 0, 0, 0⟩

/-- `vcdStaticIpUsable`. -/
def vcdStaticIpUsable (cfg : PopsNet) : Bool :=
  vcdQuadOk cfg.ps2Ip && vcdQuadOk cfg.ps2Mask && vcdQuadOk cfg.ps2Gw &&
    cfg.ps2Ip ≠ .zero && cfg.ps2Mask ≠ .zero && cfg.ps2Gw ≠ .zero

/-- `vcdSmbConfigUsable`. -/
def vcdSmbConfigUsable (cfg : PopsNet) : Bool :=
  cfg.smbShare.text ≠ [] && vcdQuadOk cfg.smbIp && cfg.smbIp ≠ .zero &&
    0 ≤ cfg.smbPort && cfg.smbPort ≤ 65535

/-- `vcdPopsNetValuesValid`. -/
def vcdPopsNetValuesValid (cfg : PopsNet) (validateSmb validateIp : Bool) : Bool :=
  !(validateSmb && !vcdSmbConfigUsable cfg) &&
    !(validateIp && !cfg.ipDhcp && !vcdStaticIpUsable cfg)

/-! ### Reading -/

/-- `%d.%d.%d.%d`. -/
def quadFormat : List Directive := [.int, .lit 46, .int, .lit 46, .int, .lit 46, .int]

/-- What `sscanf` stores in an `int[4]`. -/
def Quad.store (q : Quad) (vs : List ℤ) : Quad :=
  ⟨vs.getD 0 q.a, vs.getD 1 q.b, vs.getD 2 q.c, vs.getD 3 q.d⟩

/-- `vcdParseIpConfig`: whether a valid triple was read, and what is in the configuration then. -/
def vcdParseIpConfig (buf : List UInt8) (out : PopsNet) : Bool × PopsNet :=
  let vs := sscanf (quadFormat ++ .space :: (quadFormat ++ .space :: quadFormat)) buf
  let out := { out with
    ps2Ip := out.ps2Ip.store vs
    ps2Mask := out.ps2Mask.store (vs.drop 4)
    ps2Gw := out.ps2Gw.store (vs.drop 8) }
  (vs.length = 12 && vcdQuadOk out.ps2Ip && vcdQuadOk out.ps2Mask && vcdQuadOk out.ps2Gw, out)

/-- A blank: a space or a tab. -/
def isBlank (c : UInt8) : Bool := c = 32 || c = 9

/-- What is cut off at the end of a line. -/
def isLineEnd (c : UInt8) : Bool := c = 13 || isBlank c

/-- The first `n` lines of a text. -/
def lines : ℕ → List UInt8 → List (List UInt8)
  | 0, _ => []
  | _ + 1, [] => []
  | n + 1, c :: l =>
    (c :: l).takeWhile (· ≠ 10) :: lines n (((c :: l).dropWhile (· ≠ 10)).drop 1)

/-- `atoi`. -/
def atoi (l : List UInt8) : ℤ := ((scanInt l).map Prod.fst).getD 0

/-- The port behind the colon of a host, or 0. -/
def hostPort (host : List UInt8) : ℤ :=
  match host.dropWhile (· ≠ 58) with
  | [] => 0
  | _ :: port => if atoi port ≤ 0 ∨ 65535 < atoi port then 0 else atoi port

/-- The first line of `SMBCONFIG.DAT`. -/
def parseHostLine (line : List UInt8) (out : PopsNet) : PopsNet :=
  let line := line.dropWhile isBlank
  let host := (line.takeWhile (!isBlank ·)).take 31
  let share := (line.dropWhile (!isBlank ·)).dropWhile isBlank
  let vs := sscanf quadFormat (host.takeWhile (· ≠ 58))
  let out := { out with smbShare := .snprintf share }
  if vs.length = 4 ∧ vcdQuadOk (Quad.zero.store vs) then
    { out with smbIp := Quad.zero.store vs, smbPort := hostPort host }
  else out

/-- `vcdParseSmbConfig`. -/
def vcdParseSmbConfig (buf : List UInt8) (out : PopsNet) : PopsNet :=
  match (lines 3 ((Bytes.cstr buf).take 255)).map (List.rdropWhile isLineEnd) with
  | [] => out
  | [host] => parseHostLine host out
  | [host, user] => { parseHostLine host out with smbUser := .snprintf user }
  | host :: user :: pass :: _ =>
    { parseHostLine host out with smbUser := .snprintf user, smbPass := .snprintf pass }

/-- `vcdNetTextBlank`. -/
def vcdNetTextBlank (text : List UInt8) : Bool :=
  text.all fun c => c = 32 || c = 9 || c = 13 || c = 10

/-- A configuration that is all zeros, but for `ipDhcp`. -/
def blankNet : PopsNet :=
  ⟨false, false, true, false, false, false, .zero, .zero, .zero, .zero, 0, .snprintf [],
    .snprintf [], .snprintf [], [], []⟩

/-- What `vcdInspectPopstarterNetHome` makes of `IPCONFIG.DAT`. -/
def inspectIp (ip : List UInt8) (cfg : PopsNet) : PopsNet :=
  let cfg := { cfg with ipExists := true }
  if vcdNetTextBlank ip then cfg
  else
    match vcdParseIpConfig ip cfg with
    | (true, cfg) => { cfg with ipDhcp := false }
    | (false, cfg) => { cfg with ipInvalid := true }

/-- What it makes of `SMBCONFIG.DAT`. -/
def inspectSmb (smb : List UInt8) (cfg : PopsNet) : PopsNet :=
  let cfg := vcdParseSmbConfig smb { cfg with smbExists := true }
  if vcdSmbConfigUsable cfg then cfg else { cfg with smbInvalid := true }

/-- And of both. -/
def inspectNetFiles (ip smb : List UInt8) : PopsNet :=
  inspectSmb smb (inspectIp ip { blankNet with homeAvailable := true })

/-! ### Writing -/

/-- `%d`. -/
def fmtInt (n : ℤ) : List UInt8 := if n < 0 then 45 :: decimal n.natAbs else decimal n.toNat

/-- `%d.%d.%d.%d`. -/
def fmtQuad (q : Quad) : List UInt8 :=
  fmtInt q.a ++ 46 :: (fmtInt q.b ++ 46 :: (fmtInt q.c ++ 46 :: fmtInt q.d))

/-- `vcdBuildIpConfig`: the whole text, of which the buffer gets what fits. -/
def vcdBuildIpConfig (cfg : PopsNet) : List UInt8 :=
  if cfg.ipDhcp then []
  else fmtQuad cfg.ps2Ip ++ 32 :: (fmtQuad cfg.ps2Mask ++ 32 :: (fmtQuad cfg.ps2Gw ++ [10]))

/-- The host of `SMBCONFIG.DAT`, which has 24 bytes. -/
def smbHost (cfg : PopsNet) : List UInt8 :=
  if 0 < cfg.smbPort ∧ cfg.smbPort ≠ 445 then
    (fmtQuad cfg.smbIp ++ 58 :: fmtInt cfg.smbPort).take 23
  else (fmtQuad cfg.smbIp).take 23

/-- `vcdBuildSmbConfig`. -/
def vcdBuildSmbConfig (cfg : PopsNet) : List UInt8 :=
  smbHost cfg ++ 32 :: (cfg.smbShare.text ++ 10 :: (cfg.smbUser.text ++ 10 ::
    (cfg.smbPass.text ++ [10])))

/-- `vcdPopsNetChanged`. -/
def vcdPopsNetChanged (orig cur : PopsNet) : ℕ :=
  (if orig.smbIp ≠ cur.smbIp ∨ orig.smbPort ≠ cur.smbPort ∨ orig.smbShare ≠ cur.smbShare ∨
      orig.smbUser ≠ cur.smbUser ∨ orig.smbPass ≠ cur.smbPass then 1 else 0) +
    if orig.ipDhcp ≠ cur.ipDhcp ∨ cur.ipDhcp = false ∧ (orig.ps2Ip ≠ cur.ps2Ip ∨
      orig.ps2Mask ≠ cur.ps2Mask ∨ orig.ps2Gw ≠ cur.ps2Gw) then 2 else 0

/-! ### Round trips -/

/-- What is written fits, and is what is read. -/
structure RoundTrips (cfg : PopsNet) : Prop where
  smb_fits : (vcdBuildSmbConfig cfg).length < 256
  ip_fits : (vcdBuildIpConfig cfg).length < 256
  unchanged :
    vcdPopsNetChanged cfg (inspectNetFiles (vcdBuildIpConfig cfg) (vcdBuildSmbConfig cfg)) = 0

/-- No value has a line break. -/
def OneLine (cfg : PopsNet) : Prop :=
  ∀ c ∈ cfg.smbShare.text ++ cfg.smbUser.text ++ cfg.smbPass.text, c ≠ 10 ∧ c ≠ 13

/-- Nothing gets lost: the port is not 445, no value ends with a blank, and the share starts with
none. -/
structure Kept (cfg : PopsNet) : Prop where
  port : cfg.smbPort ≠ 445
  share_head : ∀ c ∈ cfg.smbShare.text.head?, isBlank c = false
  share_last : ∀ c ∈ cfg.smbShare.text.getLast?, isBlank c = false
  user_last : ∀ c ∈ cfg.smbUser.text.getLast?, isBlank c = false
  pass_last : ∀ c ∈ cfg.smbPass.text.getLast?, isBlank c = false

section Quads

variable {q : Quad}

theorem quadOk_iff : vcdQuadOk q = true ↔
    (0 ≤ q.a ∧ q.a ≤ 255) ∧ (0 ≤ q.b ∧ q.b ≤ 255) ∧ (0 ≤ q.c ∧ q.c ≤ 255) ∧ 0 ≤ q.d ∧ q.d ≤ 255 :=
  decide_eq_true_iff

theorem fmtInt_of_nonneg {n : ℤ} (h : 0 ≤ n) : fmtInt n = decimal n.toNat :=
  if_neg (Int.not_lt.mpr h)

theorem length_fmtInt_le {n : ℤ} {k : ℕ} (hk : 0 < k) (h : 0 ≤ n) (hn : n < 10 ^ k) :
    (fmtInt n).length ≤ k := by
  rw [fmtInt_of_nonneg h]
  refine Scan.length_decimalFrom_le _ hk ?_
  have : ((10 ^ k : ℕ) : ℤ) = 10 ^ k := by norm_cast
  omega

theorem length_fmtQuad_le (hq : vcdQuadOk q = true) : (fmtQuad q).length ≤ 15 := by
  obtain ⟨⟨ha, ha'⟩, ⟨hb, hb'⟩, ⟨hc, hc'⟩, hd, hd'⟩ := quadOk_iff.mp hq
  have hla := length_fmtInt_le (k := 3) (by omega) ha (by omega)
  have hlb := length_fmtInt_le (k := 3) (by omega) hb (by omega)
  have hlc := length_fmtInt_le (k := 3) (by omega) hc (by omega)
  have hld := length_fmtInt_le (k := 3) (by omega) hd (by omega)
  rw [fmtQuad]
  simp only [List.length_append, List.length_cons]
  omega

/-- An address is digits and dots. -/
theorem mem_fmtQuad (hq : vcdQuadOk q = true) {c : UInt8} (hc : c ∈ fmtQuad q) :
    Scan.isDigit c = true ∨ c = 46 := by
  obtain ⟨⟨ha, -⟩, ⟨hb, -⟩, ⟨hc', -⟩, hd, -⟩ := quadOk_iff.mp hq
  rw [fmtQuad, fmtInt_of_nonneg ha, fmtInt_of_nonneg hb, fmtInt_of_nonneg hc',
    fmtInt_of_nonneg hd] at hc
  simp only [List.mem_append, List.mem_cons] at hc
  rcases hc with hc | hc | hc | hc | hc | hc | hc
  · exact .inl (Scan.isDigit_of_mem_decimal hc)
  · exact .inr hc
  · exact .inl (Scan.isDigit_of_mem_decimal hc)
  · exact .inr hc
  · exact .inl (Scan.isDigit_of_mem_decimal hc)
  · exact .inr hc
  · exact .inl (Scan.isDigit_of_mem_decimal hc)

/-- A number that is written is read back. -/
theorem sscanf_fmtInt {n : ℤ} (h : 0 ≤ n) (ds : List Directive) (l : List UInt8)
    (hl : ∀ c ∈ l.head?, Scan.isDigit c = false) :
    sscanf (.int :: ds) (fmtInt n ++ l) = n :: sscanf ds l := by
  rw [fmtInt_of_nonneg h, Scan.sscanf_int_decimal ds _ l hl, Int.toNat_of_nonneg h]

/-- And so is an address. -/
theorem sscanf_fmtQuad (hq : vcdQuadOk q = true) (ds : List Directive) (l : List UInt8)
    (hl : ∀ c ∈ l.head?, Scan.isDigit c = false) :
    sscanf (quadFormat ++ ds) (fmtQuad q ++ l) = q.a :: q.b :: q.c :: q.d :: sscanf ds l := by
  obtain ⟨⟨ha, -⟩, ⟨hb, -⟩, ⟨hc, -⟩, hd, -⟩ := quadOk_iff.mp hq
  have hdot (r : List UInt8) : ∀ c ∈ (46 :: r).head?, Scan.isDigit c = false := fun c hc => by
    rw [← Option.some.inj hc]
    rfl
  simp only [quadFormat, fmtQuad, List.append_assoc, List.cons_append, List.nil_append]
  rw [sscanf_fmtInt ha _ _ (hdot _), Scan.sscanf_lit, sscanf_fmtInt hb _ _ (hdot _),
    Scan.sscanf_lit, sscanf_fmtInt hc _ _ (hdot _), Scan.sscanf_lit, sscanf_fmtInt hd _ _ hl]

/-- A blank between two addresses is skipped. -/
theorem sscanf_space_fmtQuad (hq : vcdQuadOk q = true) (ds : List Directive) (l : List UInt8)
    (hl : ∀ c ∈ l.head?, Scan.isDigit c = false) :
    sscanf (.space :: (quadFormat ++ ds)) (32 :: (fmtQuad q ++ l)) =
      q.a :: q.b :: q.c :: q.d :: sscanf ds l := by
  obtain ⟨⟨ha, -⟩, -⟩ := quadOk_iff.mp hq
  rw [← sscanf_fmtQuad hq ds l hl, fmtQuad, fmtInt_of_nonneg ha, List.append_assoc]
  exact Scan.sscanf_space_decimal _ rfl _ _

end Quads

/-- **The addresses** of `IPCONFIG.DAT`. -/
theorem vcdParseIpConfig_build {cfg : PopsNet} (out : PopsNet) (hdhcp : cfg.ipDhcp = false)
    (hok : vcdStaticIpUsable cfg = true) :
    vcdParseIpConfig (vcdBuildIpConfig cfg) out =
      (true, { out with ps2Ip := cfg.ps2Ip, ps2Mask := cfg.ps2Mask, ps2Gw := cfg.ps2Gw }) := by
  simp only [vcdStaticIpUsable, Bool.and_eq_true] at hok
  obtain ⟨⟨⟨⟨⟨hip, hmask⟩, hgw⟩, -⟩, -⟩, -⟩ := hok
  have hspace (r : List UInt8) : ∀ c ∈ (32 :: r).head?, Scan.isDigit c = false := fun c hc => by
    rw [← Option.some.inj hc]
    rfl
  have hend : ∀ c ∈ [10].head?, Scan.isDigit c = false := fun c hc => by
    rw [← Option.some.inj hc]
    rfl
  have hlast := sscanf_space_fmtQuad hgw [] [10] hend
  rw [List.append_nil] at hlast
  rw [vcdParseIpConfig, vcdBuildIpConfig, hdhcp, if_neg Bool.false_ne_true,
    sscanf_fmtQuad hip _ _ (hspace _), sscanf_space_fmtQuad hmask _ _ (hspace _), hlast]
  simp [Quad.store, sscanf, hip, hmask, hgw]

/-- A text with an address is not blank. -/
theorem not_vcdNetTextBlank_build {cfg : PopsNet} (hdhcp : cfg.ipDhcp = false)
    (hip : vcdQuadOk cfg.ps2Ip = true) : vcdNetTextBlank (vcdBuildIpConfig cfg) = false := by
  obtain ⟨⟨ha, -⟩, -⟩ := quadOk_iff.mp hip
  obtain ⟨d, ds, hd, hdigit⟩ := Scan.exists_decimal_eq_cons cfg.ps2Ip.a.toNat
  rw [vcdBuildIpConfig, hdhcp, if_neg Bool.false_ne_true, fmtQuad, fmtInt_of_nonneg ha, hd,
    vcdNetTextBlank, List.cons_append, List.cons_append, List.all_cons]
  have hrange := Scan.digit_bounds hdigit
  have hne (c : UInt8) (hc : c.toNat < 48) : (decide (d = c)) = false :=
    decide_eq_false fun h => by
      rw [h] at hrange
      omega
  rw [hne 32 (by decide), hne 9 (by decide), hne 13 (by decide), hne 10 (by decide)]
  rfl

theorem length_vcdBuildIpConfig_lt {cfg : PopsNet}
    (hok : cfg.ipDhcp = false → vcdStaticIpUsable cfg = true) :
    (vcdBuildIpConfig cfg).length < 256 := by
  rw [vcdBuildIpConfig]
  split_ifs with hdhcp
  · exact Nat.zero_lt_succ _
  · have hquads := hok (Bool.eq_false_iff.mpr hdhcp)
    simp only [vcdStaticIpUsable, Bool.and_eq_true] at hquads
    obtain ⟨⟨⟨⟨⟨hip, hmask⟩, hgw⟩, -⟩, -⟩, -⟩ := hquads
    have := length_fmtQuad_le hip
    have := length_fmtQuad_le hmask
    have := length_fmtQuad_le hgw
    simp only [List.length_append, List.length_cons, List.length_nil]
    omega

section Smb

variable {cfg : PopsNet}

/-- What `vcdSmbConfigUsable` says. -/
theorem smbConfigUsable_iff : vcdSmbConfigUsable cfg = true ↔
    cfg.smbShare.text ≠ [] ∧ vcdQuadOk cfg.smbIp = true ∧ cfg.smbIp ≠ .zero ∧
      0 ≤ cfg.smbPort ∧ cfg.smbPort ≤ 65535 := by
  simp only [vcdSmbConfigUsable, Bool.and_eq_true, decide_eq_true_eq, and_assoc]

/-- What `vcdPopsNetValuesValid` says. -/
theorem valuesValid_iff : vcdPopsNetValuesValid cfg true true = true ↔
    vcdSmbConfigUsable cfg = true ∧ (cfg.ipDhcp = false → vcdStaticIpUsable cfg = true) := by
  rw [vcdPopsNetValuesValid]
  cases vcdSmbConfigUsable cfg <;> cases cfg.ipDhcp <;> cases vcdStaticIpUsable cfg <;> decide

/-- The port that is written, or 0. -/
def writtenPort (cfg : PopsNet) : ℤ := if cfg.smbPort = 445 then 0 else cfg.smbPort

/-- What stands behind the address. -/
def portText (cfg : PopsNet) : List UInt8 :=
  if 0 < cfg.smbPort ∧ cfg.smbPort ≠ 445 then 58 :: fmtInt cfg.smbPort else []

/-- The host fits. -/
theorem smbHost_eq (h : vcdSmbConfigUsable cfg = true) :
    smbHost cfg = fmtQuad cfg.smbIp ++ portText cfg ∧ (smbHost cfg).length ≤ 21 := by
  obtain ⟨-, hip, -, hport, hport'⟩ := smbConfigUsable_iff.mp h
  have hlen := length_fmtQuad_le hip
  have hplen := length_fmtInt_le (k := 5) (by omega) hport (by omega)
  have heq : smbHost cfg = fmtQuad cfg.smbIp ++ portText cfg := by
    rw [smbHost, portText]
    split_ifs
    · rw [List.take_of_length_le]
      rw [List.length_append, List.length_cons]
      omega
    · rw [List.take_of_length_le (by omega), List.append_nil]
  refine ⟨heq, ?_⟩
  rw [heq, portText, List.length_append]
  split_ifs
  · rw [List.length_cons]
    omega
  · rw [List.length_nil]
    omega

/-- A host is digits, dots and colons. -/
theorem mem_smbHost (h : vcdSmbConfigUsable cfg = true) {c : UInt8} (hc : c ∈ smbHost cfg) :
    Scan.isDigit c = true ∨ c = 46 ∨ c = 58 := by
  obtain ⟨-, hip, -, hport, -⟩ := smbConfigUsable_iff.mp h
  rw [(smbHost_eq h).1, List.mem_append] at hc
  rcases hc with hc | hc
  · exact (mem_fmtQuad hip hc).imp_right .inl
  · rw [portText] at hc
    split_ifs at hc
    · rcases List.mem_cons.mp hc with rfl | hc
      · exact .inr (.inr rfl)
      · rw [fmtInt_of_nonneg hport] at hc
        exact .inl (Scan.isDigit_of_mem_decimal hc)
    · exact absurd hc List.not_mem_nil

theorem isBlank_of_mem_smbHost (h : vcdSmbConfigUsable cfg = true) {c : UInt8}
    (hc : c ∈ smbHost cfg) : isBlank c = false ∧ c ≠ 10 ∧ c ≠ 13 ∧ c ≠ 0 := by
  rcases mem_smbHost h hc with hd | rfl | rfl
  · have hrange := Scan.digit_bounds hd
    have hne (x : UInt8) (hx : x.toNat < 48) : c ≠ x := fun heq => by
      rw [heq] at hrange
      omega
    refine ⟨?_, hne 10 (by decide), hne 13 (by decide), hne 0 (by decide)⟩
    rw [isBlank, decide_eq_false (hne 32 (by decide)), decide_eq_false (hne 9 (by decide))]
    rfl
  · decide
  · decide

theorem smbHost_ne_nil (h : vcdSmbConfigUsable cfg = true) : smbHost cfg ≠ [] := by
  rw [(smbHost_eq h).1, fmtQuad]
  exact List.append_ne_nil_of_left_ne_nil
    (List.append_ne_nil_of_right_ne_nil _ (List.cons_ne_nil _ _)) _

/-- **The host** that is read is the one that is written. -/
theorem host_smbHost (h : vcdSmbConfigUsable cfg = true) :
    sscanf quadFormat ((smbHost cfg).takeWhile (· ≠ 58)) =
        [cfg.smbIp.a, cfg.smbIp.b, cfg.smbIp.c, cfg.smbIp.d] ∧
      hostPort (smbHost cfg) = writtenPort cfg := by
  obtain ⟨-, hip, -, hport, hport'⟩ := smbConfigUsable_iff.mp h
  have hcolon : ∀ c ∈ fmtQuad cfg.smbIp, decide (c ≠ 58) = true := fun c hc => by
    rcases mem_fmtQuad hip hc with hd | rfl
    · have hrange := Scan.digit_bounds hd
      refine decide_eq_true fun heq => ?_
      rw [heq] at hrange
      exact absurd hrange.2 (by decide)
    · rfl
  have hportTake : (portText cfg).takeWhile (· ≠ 58) = [] := by
    rw [portText]
    split_ifs <;> rfl
  have hscan := sscanf_fmtQuad hip [] [] fun c hc => by cases hc
  rw [List.append_nil, List.append_nil] at hscan
  rw [(smbHost_eq h).1, List.takeWhile_append_of_pos hcolon, hportTake, List.append_nil, hostPort,
    List.dropWhile_append_of_pos hcolon]
  refine ⟨hscan, ?_⟩
  rw [portText, writtenPort]
  split_ifs with hwritten h445 h445
  · exact absurd h445 hwritten.2
  · have hatoi : atoi (fmtInt cfg.smbPort) = cfg.smbPort := by
      have := Scan.scanInt_decimal_append cfg.smbPort.toNat [] fun c hc => by cases hc
      rw [List.append_nil] at this
      rw [atoi, fmtInt_of_nonneg hport, this, Option.map_some, Option.getD_some,
        Int.toNat_of_nonneg hport]
    have hdrop : (58 :: fmtInt cfg.smbPort).dropWhile (· ≠ 58) = 58 :: fmtInt cfg.smbPort := rfl
    rw [hdrop]
    dsimp only
    rw [hatoi, if_neg (by omega)]
  · rfl
  · have hzero : cfg.smbPort = 0 := by omega
    rw [hzero]
    rfl

/-- The text fits. -/
theorem length_vcdBuildSmbConfig_lt (h : vcdSmbConfigUsable cfg = true) :
    (vcdBuildSmbConfig cfg).length < 256 := by
  have hhost := (smbHost_eq h).2
  have hshare := cfg.smbShare.length_lt
  have huser := cfg.smbUser.length_lt
  have hpass := cfg.smbPass.length_lt
  rw [vcdBuildSmbConfig]
  simp only [List.length_append, List.length_cons, List.length_nil]
  omega

/-- The next line of a text. -/
theorem lines_line {l : List UInt8} (h : 10 ∉ l) (n : ℕ) (r : List UInt8) :
    lines (n + 1) (l ++ 10 :: r) = l :: lines n r := by
  have hne : ∀ c ∈ l, decide (c ≠ 10) = true := fun c hc => decide_eq_true fun heq => h (heq ▸ hc)
  have htake : (l ++ 10 :: r).takeWhile (· ≠ 10) = l := by
    rw [List.takeWhile_append_of_pos hne]
    exact List.append_nil l
  have hdrop : ((l ++ 10 :: r).dropWhile (· ≠ 10)).drop 1 = r := by
    rw [List.dropWhile_append_of_pos hne]
    rfl
  obtain ⟨c, s, hcs⟩ := List.exists_cons_of_ne_nil (List.append_ne_nil_of_right_ne_nil l
    (List.cons_ne_nil 10 r))
  rw [hcs] at htake hdrop ⊢
  rw [lines, htake, hdrop]

theorem rdropWhile_append {p : UInt8 → Bool} (l r : List UInt8) :
    (l ++ r).rdropWhile p =
      if r.rdropWhile p = [] then l.rdropWhile p else l ++ r.rdropWhile p := by
  rw [List.rdropWhile, List.reverse_append, List.dropWhile_append]
  by_cases h : r.rdropWhile p = []
  · have hrev : r.reverse.dropWhile p = [] := List.reverse_eq_nil_iff.mp h
    rw [if_pos h, hrev, if_pos List.isEmpty_nil, List.rdropWhile]
  · have hrev : ¬(r.reverse.dropWhile p).isEmpty := fun hnil =>
      h (List.reverse_eq_nil_iff.mpr (List.isEmpty_iff.mp hnil))
    rw [if_neg h, if_neg hrev, List.reverse_append, List.reverse_reverse, List.rdropWhile]

/-- The line with the share, once its end is cut off. -/
theorem rdropWhile_append_cons {p : UInt8 → Bool} {b : UInt8} {l : List UInt8} (hb : p b = true)
    (hl : l.rdropWhile p = l) (r : List UInt8) :
    (l ++ b :: r).rdropWhile p = l ++ if r.rdropWhile p = [] then [] else b :: r.rdropWhile p := by
  have hcons : (b :: r).rdropWhile p = if r.rdropWhile p = [] then [] else b :: r.rdropWhile p := by
    have hone : [b].rdropWhile p = [] := List.rdropWhile_singleton p b |>.trans (if_pos hb)
    have := rdropWhile_append (p := p) [b] r
    rwa [hone] at this
  rw [rdropWhile_append, hcons]
  by_cases h : r.rdropWhile p = []
  · rw [if_pos h, if_pos rfl, hl, List.append_nil]
  · rw [if_neg h, if_neg (List.cons_ne_nil _ _)]

/-- **The first line** that is read. -/
theorem parseHostLine_smbHost (h : vcdSmbConfigUsable cfg = true) (out : PopsNet)
    {rest : List UInt8} (hrest : ∀ c ∈ rest.head?, isBlank c = true) :
    parseHostLine (smbHost cfg ++ rest) out =
      { out with
        smbIp := cfg.smbIp
        smbPort := writtenPort cfg
        smbShare := .snprintf (rest.dropWhile isBlank) } := by
  obtain ⟨-, hip, -⟩ := smbConfigUsable_iff.mp h
  have hblank : ∀ c ∈ smbHost cfg, (!isBlank c) = true := fun c hc => by
    rw [(isBlank_of_mem_smbHost h hc).1]
    rfl
  have hhead : (smbHost cfg ++ rest).dropWhile isBlank = smbHost cfg ++ rest := by
    obtain ⟨c, s, hcs⟩ := List.exists_cons_of_ne_nil (smbHost_ne_nil h)
    have hc := (isBlank_of_mem_smbHost h (hcs ▸ List.mem_cons_self)).1
    rw [hcs, List.cons_append, List.dropWhile_cons_of_neg]
    rw [hc]
    exact Bool.false_ne_true
  have hstop : rest.takeWhile (!isBlank ·) = [] ∧ rest.dropWhile (!isBlank ·) = rest := by
    cases rest with
    | nil => exact ⟨rfl, rfl⟩
    | cons c s =>
      have hc : ¬(!isBlank c) = true := by
        rw [hrest c rfl]
        exact Bool.false_ne_true
      exact ⟨List.takeWhile_cons_of_neg hc, List.dropWhile_cons_of_neg hc⟩
  have htake : (smbHost cfg ++ rest).takeWhile (!isBlank ·) = smbHost cfg := by
    rw [List.takeWhile_append_of_pos hblank, hstop.1, List.append_nil]
  have hdrop : (smbHost cfg ++ rest).dropWhile (!isBlank ·) = rest := by
    rw [List.dropWhile_append_of_pos hblank, hstop.2]
  obtain ⟨hscan, hport⟩ := host_smbHost h
  rw [parseHostLine, hhead]
  dsimp only
  rw [htake, hdrop, List.take_of_length_le (Nat.le_trans (smbHost_eq h).2 (by omega)), hscan, hport]
  rw [if_pos]
  · rfl
  · exact ⟨rfl, hip⟩

/-- The lines that are written. -/
theorem lines_build (h : vcdSmbConfigUsable cfg = true) (hone : OneLine cfg) :
    (lines 3 ((Bytes.cstr (vcdBuildSmbConfig cfg)).take 255)) =
      [smbHost cfg ++ 32 :: cfg.smbShare.text, cfg.smbUser.text, cfg.smbPass.text] := by
  have hfits := length_vcdBuildSmbConfig_lt h
  have hshare : 10 ∉ cfg.smbShare.text := fun hc => (hone 10 (by simp [hc])).1 rfl
  have huser : 10 ∉ cfg.smbUser.text := fun hc => (hone 10 (by simp [hc])).1 rfl
  have hpass : 10 ∉ cfg.smbPass.text := fun hc => (hone 10 (by simp [hc])).1 rfl
  have hhost : 10 ∉ smbHost cfg ++ 32 :: cfg.smbShare.text := by
    intro hc
    rcases List.mem_append.mp hc with hc | hc
    · exact (isBlank_of_mem_smbHost h hc).2.1 rfl
    · rcases List.mem_cons.mp hc with heq | hc
      · exact absurd heq (by decide)
      · exact hshare hc
  have hnul : 0 ∉ vcdBuildSmbConfig cfg := by
    intro hc
    simp only [vcdBuildSmbConfig, List.mem_append, List.mem_cons, List.not_mem_nil, or_false] at hc
    rcases hc with hc | hc | hc | hc | hc | hc | hc | hc
    · exact (isBlank_of_mem_smbHost h hc).2.2.2 rfl
    · exact absurd hc (by decide)
    · exact cfg.smbShare.nul_not_mem hc
    · exact absurd hc (by decide)
    · exact cfg.smbUser.nul_not_mem hc
    · exact absurd hc (by decide)
    · exact cfg.smbPass.nul_not_mem hc
    · exact absurd hc (by decide)
  rw [Bytes.cstr_of_not_mem hnul, List.take_of_length_le (by omega), vcdBuildSmbConfig,
    ← List.cons_append, ← List.append_assoc, lines_line hhost, lines_line huser, lines_line hpass]
  rfl

/-- A share without the blanks around it. -/
def keptShare (cfg : PopsNet) : List UInt8 :=
  (cfg.smbShare.text.rdropWhile isLineEnd).dropWhile isBlank

/-- **The values** of `SMBCONFIG.DAT`. -/
theorem vcdParseSmbConfig_build (h : vcdSmbConfigUsable cfg = true) (hone : OneLine cfg)
    (out : PopsNet) :
    vcdParseSmbConfig (vcdBuildSmbConfig cfg) out =
      { out with
        smbIp := cfg.smbIp
        smbPort := writtenPort cfg
        smbShare := .snprintf (keptShare cfg)
        smbUser := .snprintf (cfg.smbUser.text.rdropWhile isLineEnd)
        smbPass := .snprintf (cfg.smbPass.text.rdropWhile isLineEnd) } := by
  have hhost : (smbHost cfg).rdropWhile isLineEnd = smbHost cfg :=
    List.rdropWhile_eq_self_iff.mpr fun hne => by
      obtain ⟨hblank, -, hcr, -⟩ := isBlank_of_mem_smbHost h (List.getLast_mem hne)
      rw [isLineEnd, hblank, decide_eq_false hcr]
      exact Bool.false_ne_true
  rw [vcdParseSmbConfig, lines_build h hone, List.map_cons, List.map_cons, List.map_cons,
    List.map_nil, rdropWhile_append_cons rfl hhost]
  dsimp only
  rw [parseHostLine_smbHost h]
  · congr 2
    rw [keptShare]
    split_ifs with hnil
    · rw [hnil]
    · rfl
  · intro c hc
    split_ifs at hc
    · cases hc
    · rw [← Option.some.inj hc]
      rfl

/-- What is read of the files that are written for a configuration. -/
structure ReadBack (cfg cur : PopsNet) : Prop where
  smbIp : cur.smbIp = cfg.smbIp
  smbPort : cur.smbPort = writtenPort cfg
  smbShare : cur.smbShare = .snprintf (keptShare cfg)
  smbUser : cur.smbUser = .snprintf (cfg.smbUser.text.rdropWhile isLineEnd)
  smbPass : cur.smbPass = .snprintf (cfg.smbPass.text.rdropWhile isLineEnd)
  ipDhcp : cur.ipDhcp = cfg.ipDhcp
  ps2 : cfg.ipDhcp = false →
    cur.ps2Ip = cfg.ps2Ip ∧ cur.ps2Mask = cfg.ps2Mask ∧ cur.ps2Gw = cfg.ps2Gw

/-- The addresses of the console. -/
theorem inspectIp_build (hip : cfg.ipDhcp = false → vcdStaticIpUsable cfg = true) (out : PopsNet)
    (hout : out.ipDhcp = true) :
    (inspectIp (vcdBuildIpConfig cfg) out).ipDhcp = cfg.ipDhcp ∧
      (cfg.ipDhcp = false → (inspectIp (vcdBuildIpConfig cfg) out).ps2Ip = cfg.ps2Ip ∧
        (inspectIp (vcdBuildIpConfig cfg) out).ps2Mask = cfg.ps2Mask ∧
        (inspectIp (vcdBuildIpConfig cfg) out).ps2Gw = cfg.ps2Gw) := by
  cases hd : cfg.ipDhcp with
  | true =>
    have hblank : vcdNetTextBlank (vcdBuildIpConfig cfg) = true := by
      rw [vcdBuildIpConfig, if_pos hd]
      rfl
    rw [inspectIp, if_pos hblank]
    exact ⟨hout, fun hfalse => absurd hfalse (by decide)⟩
  | false =>
    have hok := hip hd
    have hquads := hok
    simp only [vcdStaticIpUsable, Bool.and_eq_true] at hquads
    obtain ⟨⟨⟨⟨⟨hps2, -⟩, -⟩, -⟩, -⟩, -⟩ := hquads
    rw [inspectIp, if_neg (by rw [not_vcdNetTextBlank_build hd hps2]; exact Bool.false_ne_true),
      vcdParseIpConfig_build _ hd hok]
    exact ⟨rfl, fun _ => ⟨rfl, rfl, rfl⟩⟩

/-- **The files are read**, whatever is lost in them. -/
theorem inspectNetFiles_build (h : vcdSmbConfigUsable cfg = true) (hone : OneLine cfg)
    (hip : cfg.ipDhcp = false → vcdStaticIpUsable cfg = true) :
    ReadBack cfg (inspectNetFiles (vcdBuildIpConfig cfg) (vcdBuildSmbConfig cfg)) := by
  obtain ⟨hdhcp, hps2⟩ := inspectIp_build hip { blankNet with homeAvailable := true } rfl
  rw [inspectNetFiles, inspectSmb, vcdParseSmbConfig_build h hone]
  dsimp only
  split_ifs
  · exact ⟨rfl, rfl, rfl, rfl, rfl, hdhcp, hps2⟩
  · exact ⟨rfl, rfl, rfl, rfl, rfl, hdhcp, hps2⟩

end Smb

/-! ### What is kept -/

/-- A part of a value is the value when it is all of it. -/
theorem eq_snprintf_iff {f : Field} {t : List UInt8} (ht : t.Sublist f.text) :
    f = .snprintf t ↔ t = f.text := by
  have hnul : 0 ∉ t := fun h => f.nul_not_mem (ht.subset h)
  have hlen : t.length ≤ 31 := Nat.le_of_lt_succ (Nat.lt_of_le_of_lt ht.length_le f.length_lt)
  have htext : (Field.snprintf t).text = t := by
    change (Bytes.cstr t).take 31 = t
    rw [Bytes.cstr_of_not_mem hnul, List.take_of_length_le hlen]
  constructor
  · intro h
    rw [h, htext]
  · intro h
    cases f
    cases h
    rw [Field.mk.injEq, htext]

/-- A value that ends with no blank keeps its end. -/
theorem rdropWhile_isLineEnd_iff {t : List UInt8} (ht : ∀ c ∈ t, c ≠ 13) :
    t.rdropWhile isLineEnd = t ↔ ∀ c ∈ t.getLast?, isBlank c = false := by
  rw [List.rdropWhile_eq_self_iff]
  constructor
  · intro h c hc
    obtain ⟨hne, rfl⟩ := List.mem_getLast?_eq_getLast hc
    have := h hne
    rw [isLineEnd, Bool.or_eq_true, not_or] at this
    exact Bool.eq_false_iff.mpr this.2
  · intro h hne
    have hmem := List.getLast_mem hne
    rw [isLineEnd, decide_eq_false (ht _ hmem), h _ (List.getLast?_eq_getLast_of_ne_nil hne)]
    exact Bool.false_ne_true

theorem dropWhile_isBlank_iff (t : List UInt8) :
    t.dropWhile isBlank = t ↔ ∀ c ∈ t.head?, isBlank c = false := by
  cases t with
  | nil => exact ⟨fun _ c hc => (by cases hc), fun _ => rfl⟩
  | cons c t =>
    rw [List.dropWhile_eq_self_iff]
    constructor
    · intro h x hx
      rw [← Option.some.inj hx]
      exact Bool.eq_false_iff.mpr (h (Nat.succ_pos _))
    · intro h _
      rw [List.getElem_cons_zero, h c rfl]
      exact Bool.false_ne_true

theorem keptShare_sublist (cfg : PopsNet) : (keptShare cfg).Sublist cfg.smbShare.text :=
  (List.dropWhile_sublist _).trans (List.rdropWhile_prefix ..).sublist

/-- A share that has no blank around it is kept. -/
theorem keptShare_eq_iff {cfg : PopsNet} (hcr : ∀ c ∈ cfg.smbShare.text, c ≠ 13) :
    keptShare cfg = cfg.smbShare.text ↔
      (∀ c ∈ cfg.smbShare.text.head?, isBlank c = false) ∧
        ∀ c ∈ cfg.smbShare.text.getLast?, isBlank c = false := by
  rw [← rdropWhile_isLineEnd_iff hcr, ← dropWhile_isBlank_iff, keptShare]
  constructor
  · intro h
    have hprefix := List.rdropWhile_prefix isLineEnd cfg.smbShare.text
    have hsuffix := List.dropWhile_suffix isBlank (l := cfg.smbShare.text.rdropWhile isLineEnd)
    have hwhole := hprefix.eq_of_length_le (by
      have := hsuffix.length_le
      rwa [h] at this)
    rw [hwhole] at h
    exact ⟨h, hwhole⟩
  · rintro ⟨hhead, hlast⟩
    rw [hlast, hhead]

theorem vcdPopsNetChanged_eq_zero_iff {orig cur : PopsNet} : vcdPopsNetChanged orig cur = 0 ↔
    (orig.smbIp = cur.smbIp ∧ orig.smbPort = cur.smbPort ∧ orig.smbShare = cur.smbShare ∧
      orig.smbUser = cur.smbUser ∧ orig.smbPass = cur.smbPass) ∧
    orig.ipDhcp = cur.ipDhcp ∧ (cur.ipDhcp = false → orig.ps2Ip = cur.ps2Ip ∧
      orig.ps2Mask = cur.ps2Mask ∧ orig.ps2Gw = cur.ps2Gw) := by
  rw [vcdPopsNetChanged, Nat.add_eq_zero_iff]
  refine and_congr ?_ ?_
  · rw [ite_eq_right_iff]
    simp only [Nat.one_ne_zero, imp_false, not_or, not_not]
  · rw [ite_eq_right_iff]
    simp only [Nat.succ_ne_zero, imp_false, not_or, not_and, not_not]

/-- Nothing is reported as changed exactly when nothing gets lost. -/
theorem vcdPopsNetChanged_build_iff {cfg : PopsNet} (hsmb : vcdSmbConfigUsable cfg = true)
    (hip : cfg.ipDhcp = false → vcdStaticIpUsable cfg = true) (hone : OneLine cfg) :
    vcdPopsNetChanged cfg (inspectNetFiles (vcdBuildIpConfig cfg) (vcdBuildSmbConfig cfg)) = 0 ↔
      Kept cfg := by
  have hback := inspectNetFiles_build hsmb hone hip
  have hshare : ∀ c ∈ cfg.smbShare.text, c ≠ 13 := fun c hc => (hone c (by simp [hc])).2
  have huser : ∀ c ∈ cfg.smbUser.text, c ≠ 13 := fun c hc => (hone c (by simp [hc])).2
  have hpass : ∀ c ∈ cfg.smbPass.text, c ≠ 13 := fun c hc => (hone c (by simp [hc])).2
  rw [vcdPopsNetChanged_eq_zero_iff, hback.smbIp, hback.smbPort, hback.smbShare, hback.smbUser,
    hback.smbPass, hback.ipDhcp, eq_snprintf_iff (keptShare_sublist cfg),
    eq_snprintf_iff (List.rdropWhile_prefix ..).sublist,
    eq_snprintf_iff (List.rdropWhile_prefix ..).sublist, keptShare_eq_iff hshare,
    rdropWhile_isLineEnd_iff huser, rdropWhile_isLineEnd_iff hpass]
  constructor
  · rintro ⟨⟨-, hport, ⟨hhead, hlast⟩, huserLast, hpassLast⟩, -⟩
    refine ⟨fun h445 => ?_, hhead, hlast, huserLast, hpassLast⟩
    rw [writtenPort, if_pos h445, h445] at hport
    exact absurd hport (by decide)
  · rintro ⟨hport, hhead, hlast, huserLast, hpassLast⟩
    refine ⟨⟨rfl, ?_, ⟨hhead, hlast⟩, huserLast, hpassLast⟩, rfl, fun hd => ?_⟩
    · rw [writtenPort, if_neg hport]
    · obtain ⟨h1, h2, h3⟩ := hback.ps2 hd
      exact ⟨h1.symm, h2.symm, h3.symm⟩

/-- **The files round trip** exactly when the port is not 445, the share neither starts nor ends
with a blank, and neither the user nor the password ends with one. -/
theorem roundTrips_iff_kept (cfg : PopsNet) (hvalid : vcdPopsNetValuesValid cfg true true = true)
    (hone : OneLine cfg) : RoundTrips cfg ↔ Kept cfg := by
  obtain ⟨hsmb, hip⟩ := valuesValid_iff.mp hvalid
  have hsame := vcdPopsNetChanged_build_iff hsmb hip hone
  exact ⟨fun h => hsame.mp h.unchanged, fun h =>
    ⟨length_vcdBuildSmbConfig_lt hsmb, length_vcdBuildIpConfig_lt hip, hsame.mpr h⟩⟩

/-- What is read is what was written, but that the default port is read as 0 and that the share has
no blanks around it. -/
structure Recovered (cfg cur : PopsNet) : Prop where
  smbIp : cur.smbIp = cfg.smbIp
  smbPort : cur.smbPort = writtenPort cfg
  smbShare : cur.smbShare = .snprintf (keptShare cfg)
  smbUser : cur.smbUser = cfg.smbUser
  smbPass : cur.smbPass = cfg.smbPass
  ipDhcp : cur.ipDhcp = cfg.ipDhcp
  ps2 : cfg.ipDhcp = false →
    cur.ps2Ip = cfg.ps2Ip ∧ cur.ps2Mask = cfg.ps2Mask ∧ cur.ps2Gw = cfg.ps2Gw
  changed : vcdPopsNetChanged cfg cur = 0 ↔ cfg.smbPort ≠ 445 ∧
    (∀ c ∈ cfg.smbShare.text.head?, isBlank c = false) ∧
      ∀ c ∈ cfg.smbShare.text.getLast?, isBlank c = false

/-- **Both files fit and are recovered**, when neither the user nor the password ends with a
blank. -/
theorem recovered_build (cfg : PopsNet) (hvalid : vcdPopsNetValuesValid cfg true true = true)
    (hone : OneLine cfg) (huser : ∀ c ∈ cfg.smbUser.text.getLast?, isBlank c = false)
    (hpass : ∀ c ∈ cfg.smbPass.text.getLast?, isBlank c = false) :
    (vcdBuildSmbConfig cfg).length < 256 ∧ (vcdBuildIpConfig cfg).length < 256 ∧
      Recovered cfg (inspectNetFiles (vcdBuildIpConfig cfg) (vcdBuildSmbConfig cfg)) := by
  obtain ⟨hsmb, hip⟩ := valuesValid_iff.mp hvalid
  have hback := inspectNetFiles_build hsmb hone hip
  have hself {f : Field} (hcr : ∀ c ∈ f.text, c ≠ 13)
      (hlast : ∀ c ∈ f.text.getLast?, isBlank c = false) :
      Field.snprintf (f.text.rdropWhile isLineEnd) = f :=
    ((eq_snprintf_iff (List.rdropWhile_prefix ..).sublist).mpr
      ((rdropWhile_isLineEnd_iff hcr).mpr hlast)).symm
  refine ⟨length_vcdBuildSmbConfig_lt hsmb, length_vcdBuildIpConfig_lt hip, hback.smbIp,
    hback.smbPort, hback.smbShare, ?_, ?_, hback.ipDhcp, hback.ps2, ?_⟩
  · rw [hback.smbUser]
    exact hself (fun c hc => (hone c (by simp [hc])).2) huser
  · rw [hback.smbPass]
    exact hself (fun c hc => (hone c (by simp [hc])).2) hpass
  · rw [vcdPopsNetChanged_build_iff hsmb hip hone]
    exact ⟨fun h => ⟨h.port, h.share_head, h.share_last⟩,
      fun ⟨hport, hhead, hlast⟩ => ⟨hport, hhead, hlast, huser, hpass⟩⟩

/-- A static configuration: user "ps2", password "abc". -/
def staticNet (port : ℤ) (share : List UInt8) : PopsNet :=
  { blankNet with
    ipDhcp := false
    ps2Ip := ⟨192, 168, 1, 10⟩
    ps2Mask := ⟨255, 255, 255, 0⟩
    ps2Gw := ⟨192, 168, 1, 1⟩
    smbIp := ⟨192, 168, 1, 2⟩
    smbPort := port
    smbShare := .snprintf share
    smbUser := .snprintf [112, 115, 50]
    smbPass := .snprintf [97, 98, 99] }

theorem oneLine_staticNet (port : ℤ) {share : List UInt8}
    (h : ∀ c ∈ (Field.snprintf share).text, c ≠ 10 ∧ c ≠ 13) : OneLine (staticNet port share) := by
  have hrest : ∀ c ∈ (Field.snprintf [112, 115, 50]).text ++ (Field.snprintf [97, 98, 99]).text,
      c ≠ 10 ∧ c ≠ 13 := by decide +kernel
  intro c hc
  rw [List.append_assoc] at hc
  exact (List.mem_append.mp hc).elim (h c) (hrest c)

/-- The share "PS2 GAMES", with a blank in it. -/
theorem recovered_staticNet :
    Recovered (staticNet 1445 [80, 83, 50, 32, 71, 65, 77, 69, 83])
      (inspectNetFiles (vcdBuildIpConfig (staticNet 1445 [80, 83, 50, 32, 71, 65, 77, 69, 83]))
        (vcdBuildSmbConfig (staticNet 1445 [80, 83, 50, 32, 71, 65, 77, 69, 83]))) :=
  (recovered_build (staticNet 1445 [80, 83, 50, 32, 71, 65, 77, 69, 83]) (by decide +kernel)
    (oneLine_staticNet 1445 (by decide +kernel)) (by decide +kernel) (by decide +kernel)).2.2

/-- The port 445 is read as 0, and a blank at the start of a share is lost. -/
theorem not_roundTrips_defaultPort :
    ¬ (∀ cfg : PopsNet, vcdPopsNetValuesValid cfg true true = true → OneLine cfg →
      RoundTrips cfg) ∧
    ¬ RoundTrips (staticNet 445 [80, 83, 50]) ∧ ¬ RoundTrips (staticNet 1445 [32, 80, 83, 50]) := by
  have hport : ¬ RoundTrips (staticNet 445 [80, 83, 50]) := fun h =>
    ((roundTrips_iff_kept _ (by decide +kernel)
      (oneLine_staticNet 445 (by decide +kernel))).mp h).port rfl
  have hshare : ¬ RoundTrips (staticNet 1445 [32, 80, 83, 50]) := fun h =>
    absurd (((roundTrips_iff_kept _ (by decide +kernel)
      (oneLine_staticNet 1445 (by decide +kernel))).mp h).share_head 32 (by decide +kernel))
      (by decide)
  exact ⟨fun h => hport (h _ (by decide +kernel) (oneLine_staticNet 445 (by decide +kernel))),
    hport, hshare⟩

end Vcd

end OpenPS2Loader
