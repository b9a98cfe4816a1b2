import OpenPS2Loader.Vcd.EquipBdma
import OpenPS2Loader.Vcd.NetFiles

/-!
# Writing the network files of POPStarter

`vcdWritePopstarterNetFiles`, behind the network editor, and `vcdEnsurePopstarterSmbConfig`, before
a launch: they write one file after the other. A file is emptied when it is opened, and it is
removed when a `write` fails, so that no part of a file is left. A new `SMBCONFIG.DAT` is taken
back when `IPCONFIG.DAT` cannot be written; one that was there before is the user's, and is not.

What the calls of the file system return is an input, as it is for `vcdSafeWriteFile` in
`EquipBdma`. What `close` returns is not looked at; where it fails, a part of the text may be all
that is in the file.

## Main definitions

* `Vcd.vcdSafeWriteFile`, `Vcd.vcdWritePopstarterNetFiles`, `Vcd.vcdEnsurePopstarterSmbConfig`
* `Vcd.WriteFailure` — what a failed write may leave

## Main results

* `Vcd.netFiles_failure`
* `Vcd.not_unchanged_overwrite`
-/

namespace OpenPS2Loader

namespace Vcd

/-! ### The card -/

/-- `SMBCONFIG.DAT` and `IPCONFIG.DAT` in the home. -/
inductive NetFile
  | smb
  | ip
  deriving DecidableEq

/-- What the files hold, `none` where there is no file. -/
abbrev NetCard : Type := NetFile → Option (List UInt8)

/-- What the calls for one file return. -/
structure FileEnv extends Bdma.WriteEnv where
  /-- `close` fails, and so many bytes are in the file. -/
  closeFails : Option ℕ

/-- What is in a file with this text once it is closed. -/
def FileEnv.closed (e : FileEnv) (bytes : List UInt8) : List UInt8 :=
  match e.closeFails with
  | none => bytes
  | some n => bytes.take n

/-- `vcdSafeWriteFile`. -/
def vcdSafeWriteFile (e : FileEnv) (dst : NetFile) (bytes : List UInt8) (c : NetCard) :
    ℤ × NetCard :=
  if Bdma.mcHasSpace e.freeBytes bytes.length = 0 then (-2, c)
  else if e.openDst = false then (-3, c)
  else
    match Bdma.writeLoop e.writes 0 bytes [] with
    | (out, _, true) => (0, Function.update c dst (some (e.closed out)))
    | (_, _, false) => (-3, Function.update c dst none)

/-- A file that is written if it is to be. -/
def writeWanted (e : FileEnv) (wanted : Bool) (dst : NetFile) (bytes : List UInt8) (c : NetCard) :
    ℤ × NetCard :=
  if wanted then vcdSafeWriteFile e dst bytes c else (0, c)

/-- What the calls of a whole update return: of `vcdEnsurePopstarterNetDir`, and for both files. -/
structure NetEnv where
  dir : Bool
  file : NetFile → FileEnv

/-! ### The editor -/

/-- The folder that is written to. -/
def homeDir (cfg : PopsNet) : List UInt8 := if cfg.home ≠ [] then cfg.home else cfg.createDir

/-- `vcdWritePopstarterNetFiles`, of a configuration that is not `NULL`. -/
def vcdWritePopstarterNetFiles (e : NetEnv) (cfg : PopsNet) (writeSmb writeIp : Bool)
    (c : NetCard) : ℤ × NetCard :=
  if writeSmb = false ∧ writeIp = false then (0, c)
  else if vcdPopsNetValuesValid cfg writeSmb writeIp = false then (-4, c)
  else if homeDir cfg = [] ∨ e.dir = false then (-3, c)
  else
    let (rc, c) := writeWanted (e.file .smb) writeSmb .smb (vcdBuildSmbConfig cfg) c
    if rc ≠ 0 then (rc, c)
    else
      let (rc, c) := writeWanted (e.file .ip) writeIp .ip (vcdBuildIpConfig cfg) c
      -- the pair is new, and so is what was just written
      if rc ≠ 0 ∧ writeSmb = true ∧ cfg.smbExists = false then
        (rc, Function.update c .smb none)
      else (rc, c)

/-! ### The launch -/

/-- The settings of the launcher that are used. -/
structure NetGlobals where
  ps2IpUseDhcp : Bool
  ps2Ip : Quad
  ps2Netmask : Quad
  ps2Gateway : Quad
  pcIp : Quad
  gPCPort : ℤ
  gPCShareName : List UInt8
  gPCUserName : List UInt8
  gPCPassword : List UInt8

/-- A configuration with the addresses of the launcher. -/
def PopsNet.withIp (cfg : PopsNet) (g : NetGlobals) : PopsNet :=
  { cfg with ps2Ip := g.ps2Ip, ps2Mask := g.ps2Netmask, ps2Gw := g.ps2Gateway, ipDhcp := false }

/-- A configuration with the server of the launcher. -/
def PopsNet.withSmb (cfg : PopsNet) (g : NetGlobals) : PopsNet :=
  { cfg with
    smbIp := g.pcIp
    smbPort := g.gPCPort
    smbShare := .snprintf g.gPCShareName
    smbUser := .snprintf g.gPCUserName
    smbPass := .snprintf g.gPCPassword }

/-- `vcdCanDeriveCurrentStatic`. -/
def vcdCanDeriveCurrentStatic (g : NetGlobals) : Bool :=
  !g.ps2IpUseDhcp && vcdStaticIpUsable (blankNet.withIp g)

/-- `vcdCanDeriveCurrentSmb`. -/
def vcdCanDeriveCurrentSmb (g : NetGlobals) : Bool :=
  g.gPCShareName.length < 32 && g.gPCUserName.length < 32 && g.gPCPassword.length < 32 &&
    vcdSmbConfigUsable (blankNet.withSmb g)

/-- `vcd_popsnet_ensure_t`, as far as it is returned. -/
inductive Ensure
  | ready
  | needStatic
  | ioError
  | invalid
  deriving DecidableEq

/-- The files that are missing, once they can be derived. -/
def ensureMissing (g : NetGlobals) (e : NetEnv) (cfg : PopsNet) (c : NetCard) : Ensure × NetCard :=
  let needIp := !cfg.ipExists
  let needSmb := !cfg.smbExists
  let cfg := if needIp then cfg.withIp g else cfg
  let (rc, c) := writeWanted (e.file .ip) needIp .ip (vcdBuildIpConfig cfg) c
  if rc ≠ 0 then (.ioError, c)
  else
    let (rc, c) := writeWanted (e.file .smb) needSmb .smb (vcdBuildSmbConfig (cfg.withSmb g)) c
    if rc ≠ 0 then (.ioError, if needIp then Function.update c .ip none else c) else (.ready, c)

/-- `vcdEnsurePopstarterSmbConfig`, of a configuration that is not `NULL`. -/
def vcdEnsurePopstarterSmbConfig (g : NetGlobals) (e : NetEnv) (cfg : PopsNet) (c : NetCard) :
    Ensure × NetCard :=
  if cfg.homeAvailable = false ∨ cfg.home = [] then (.ioError, c)
  else if cfg.ipInvalid ∨ cfg.smbInvalid then (.invalid, c)
  else if cfg.ipExists ∧ (cfg.ipDhcp ∨ vcdStaticIpUsable cfg = false) then (.needStatic, c)
  else if cfg.ipExists = false ∧ vcdCanDeriveCurrentStatic g = false then (.needStatic, c)
  else if cfg.smbExists = false ∧ vcdCanDeriveCurrentSmb g = false then
    if g.gPCShareName ≠ [] ∧ g.pcIp = .zero then (.needStatic, c) else (.invalid, c)
  else if cfg.ipExists ∧ cfg.smbExists then (.ready, c)
  else if e.dir = false then (.ioError, c)
  else ensureMissing g e cfg c

/-- What the configuration says about the files is so, as `vcdReadPopstarterNet` has it. -/
structure Matches (cfg : PopsNet) (c : NetCard) : Prop where
  smb : cfg.smbExists = (c .smb).isSome
  ip : cfg.ipExists = (c .ip).isSome

/-! ### Failures -/

/-- What a failed `vcdWritePopstarterNetFiles` leaves. A file is as it was before, or it is removed
because a `write` failed. `SMBCONFIG.DAT` is removed too when it is new and `IPCONFIG.DAT` cannot be
written, and it has the new text when it is not new. -/
structure WriteFailure (e : NetEnv) (cfg : PopsNet) (writeSmb writeIp : Bool) (c c' : NetCard) :
    Prop where
  ip : c' .ip = c .ip ∨
    c' .ip = none ∧ writeIp = true ∧ ¬Bdma.Writes (e.file .ip).toWriteEnv (vcdBuildIpConfig cfg)
  smb : c' .smb = c .smb ∨
    c' .smb = none ∧ writeSmb = true ∧
      (¬Bdma.Writes (e.file .smb).toWriteEnv (vcdBuildSmbConfig cfg) ∨
        cfg.smbExists = false ∧ writeIp = true) ∨
    c' .smb = some ((e.file .smb).closed (vcdBuildSmbConfig cfg)) ∧ writeSmb = true ∧
      writeIp = true ∧ cfg.smbExists = true

variable {e : NetEnv} {cfg : PopsNet} {c : NetCard}

/-- **One file**: it is written, or it is as it was before, or it is removed. -/
theorem vcdSafeWriteFile_cases (e : FileEnv) (dst : NetFile) (bytes : List UInt8) (c : NetCard) :
    vcdSafeWriteFile e dst bytes c = (0, Function.update c dst (some (e.closed bytes))) ∨
      (vcdSafeWriteFile e dst bytes c).1 ≠ 0 ∧
        ((vcdSafeWriteFile e dst bytes c).2 = c ∨
          (vcdSafeWriteFile e dst bytes c).2 = Function.update c dst none ∧
            ¬Bdma.Writes e.toWriteEnv bytes) := by
  rw [vcdSafeWriteFile]
  split_ifs with hspace hopen
  · exact .inr ⟨by simp, .inl rfl⟩
  · exact .inr ⟨by simp, .inl rfl⟩
  · have hout := Bdma.writeLoop_eq e.writes 0 bytes []
    rcases hrun : Bdma.writeLoop e.writes 0 bytes [] with ⟨out, i, _ | _⟩
    · refine .inr ⟨by simp, .inr ⟨rfl, fun h => ?_⟩⟩
      have hloop := h.2
      rw [hrun] at hloop
      cases hloop
    · rw [hrun] at hout
      rw [← List.nil_append bytes, ← hout rfl]
      exact .inl rfl

/-- A file that is not to be written stays. -/
theorem writeWanted_zero {e : FileEnv} {wanted : Bool} {dst : NetFile} {bytes : List UInt8}
    {c c' : NetCard} (h : writeWanted e wanted dst bytes c = (0, c')) :
    wanted = false ∧ c' = c ∨
      wanted = true ∧ c' = Function.update c dst (some (e.closed bytes)) := by
  cases wanted with
  | false => exact .inl ⟨rfl, (congrArg Prod.snd h).symm⟩
  | true =>
    have hwrite : vcdSafeWriteFile e dst bytes c = (0, c') := h
    rcases vcdSafeWriteFile_cases e dst bytes c with hok | ⟨hrc, -⟩
    · exact .inr ⟨rfl, (congrArg Prod.snd (hok.symm.trans hwrite)).symm⟩
    · rw [hwrite] at hrc
      exact absurd rfl hrc

/-- A file that cannot be written is one that was to be, and it stays or is removed. -/
theorem writeWanted_ne_zero {e : FileEnv} {wanted : Bool} {dst : NetFile} {bytes : List UInt8}
    {c c' : NetCard} {rc : ℤ} (h : writeWanted e wanted dst bytes c = (rc, c')) (hrc : rc ≠ 0) :
    wanted = true ∧
      (c' = c ∨ c' = Function.update c dst none ∧ ¬Bdma.Writes e.toWriteEnv bytes) := by
  cases wanted with
  | false => exact absurd (congrArg Prod.fst h).symm hrc
  | true =>
    have hwrite : vcdSafeWriteFile e dst bytes c = (rc, c') := h
    rcases vcdSafeWriteFile_cases e dst bytes c with hok | ⟨-, hleft⟩
    · exact absurd (congrArg Prod.fst (hwrite.symm.trans hok)) hrc
    · rw [hwrite] at hleft
      exact ⟨rfl, hleft⟩

theorem update_smb_ip (c : NetCard) (v : Option (List UInt8)) :
    Function.update c .smb v .ip = c .ip := Function.update_of_ne (by decide) _ _

theorem update_ip_smb (c : NetCard) (v : Option (List UInt8)) :
    Function.update c .ip v .smb = c .smb := Function.update_of_ne (by decide) _ _

/-- What `SMBCONFIG.DAT` is before `IPCONFIG.DAT` is written. -/
def SmbWritten (e : NetEnv) (cfg : PopsNet) (writeSmb : Bool) (c c₁ : NetCard) : Prop :=
  c₁ .ip = c .ip ∧ (writeSmb = false ∧ c₁ .smb = c .smb ∨
    writeSmb = true ∧ c₁ .smb = some ((e.file .smb).closed (vcdBuildSmbConfig cfg)))

/-- `IPCONFIG.DAT` cannot be written: what is left of it, and of `SMBCONFIG.DAT`. -/
theorem SmbWritten.failure {writeSmb writeIp : Bool} {c₁ c₂ : NetCard}
    (h : SmbWritten e cfg writeSmb c c₁) (hwrite : writeIp = true)
    (hc₂ : c₂ = c₁ ∨ c₂ = Function.update c₁ .ip none ∧
      ¬Bdma.Writes (e.file .ip).toWriteEnv (vcdBuildIpConfig cfg)) :
    WriteFailure e cfg writeSmb writeIp c
      (if writeSmb = true ∧ cfg.smbExists = false then Function.update c₂ .smb none else c₂) := by
  obtain ⟨hip, hsmb⟩ := h
  have hcsmb : c₂ .smb = c₁ .smb := by
    rcases hc₂ with rfl | ⟨rfl, -⟩
    · rfl
    · exact update_ip_smb c₁ none
  have hcip : c₂ .ip = c .ip ∨ c₂ .ip = none ∧ writeIp = true ∧
      ¬Bdma.Writes (e.file .ip).toWriteEnv (vcdBuildIpConfig cfg) := by
    rcases hc₂ with rfl | ⟨rfl, hnot⟩
    · exact .inl hip
    · exact .inr ⟨Function.update_self .., hwrite, hnot⟩
  split_ifs with hnew
  · refine ⟨?_, .inr (.inl ⟨Function.update_self .., hnew.1, .inr ⟨hnew.2, hwrite⟩⟩)⟩
    rwa [update_smb_ip]
  · refine ⟨hcip, ?_⟩
    rw [hcsmb]
    rcases hsmb with ⟨-, hsame⟩ | ⟨hwritten, htext⟩
    · exact .inl hsame
    · refine .inr (.inr ⟨htext, hwritten, hwrite, ?_⟩)
      cases hold : cfg.smbExists with
      | true => rfl
      | false => exact absurd ⟨hwritten, hold⟩ hnew

/-- **The editor**: what a failure leaves. -/
theorem vcdWritePopstarterNetFiles_failure {writeSmb writeIp : Bool}
    (h : (vcdWritePopstarterNetFiles e cfg writeSmb writeIp c).1 ≠ 0) :
    WriteFailure e cfg writeSmb writeIp c
      (vcdWritePopstarterNetFiles e cfg writeSmb writeIp c).2 := by
  have hsame : WriteFailure e cfg writeSmb writeIp c c := ⟨.inl rfl, .inl rfl⟩
  rw [vcdWritePopstarterNetFiles] at h ⊢
  by_cases hnone : writeSmb = false ∧ writeIp = false
  · rw [if_pos hnone] at h
    exact absurd rfl h
  rw [if_neg hnone] at h ⊢
  by_cases hvalid : vcdPopsNetValuesValid cfg writeSmb writeIp = false
  · rw [if_pos hvalid]
    exact hsame
  rw [if_neg hvalid] at h ⊢
  by_cases hdir : homeDir cfg = [] ∨ e.dir = false
  · rw [if_pos hdir]
    exact hsame
  rw [if_neg hdir] at h ⊢
  -- what becomes of `SMBCONFIG.DAT`
  rcases hsmb : writeWanted (e.file .smb) writeSmb .smb (vcdBuildSmbConfig cfg) c with ⟨rc, c₁⟩
  rw [hsmb] at h
  dsimp only at h ⊢
  by_cases hrc : rc ≠ 0
  · rw [if_pos hrc]
    obtain ⟨hwrite, rfl | ⟨rfl, hnot⟩⟩ := writeWanted_ne_zero hsmb hrc
    · exact hsame
    · have hgone : Function.update c .smb none .smb = none := Function.update_self ..
      exact ⟨.inl (update_smb_ip c none), .inr (.inl ⟨hgone, hwrite, .inl hnot⟩)⟩
  rw [if_neg hrc] at h ⊢
  obtain rfl := not_not.mp hrc
  have hwritten : SmbWritten e cfg writeSmb c c₁ := by
    rcases writeWanted_zero hsmb with ⟨hno, rfl⟩ | ⟨hwrite, rfl⟩
    · exact ⟨rfl, .inl ⟨hno, rfl⟩⟩
    · exact ⟨update_smb_ip .., .inr ⟨hwrite, Function.update_self ..⟩⟩
  -- and of `IPCONFIG.DAT`
  rcases hip : writeWanted (e.file .ip) writeIp .ip (vcdBuildIpConfig cfg) c₁ with ⟨rc', c₂⟩
  rw [hip] at h
  dsimp only at h ⊢
  have hfail : rc' ≠ 0 := by
    split_ifs at h <;> exact h
  obtain ⟨hwrite, hc₂⟩ := writeWanted_ne_zero hip hfail
  have hall := hwritten.failure hwrite hc₂
  split_ifs with hnew
  · rwa [if_pos hnew.2] at hall
  · rwa [if_neg fun h => hnew ⟨hfail, h⟩] at hall

theorem Matches.smb_eq_none (h : Matches cfg c) (hno : cfg.smbExists = false) : c .smb = none := by
  rw [h.smb, Option.isSome_eq_false_iff, Option.isNone_iff_eq_none] at hno
  exact hno

theorem Matches.ip_eq_none (h : Matches cfg c) (hno : cfg.ipExists = false) : c .ip = none := by
  rw [h.ip, Option.isSome_eq_false_iff, Option.isNone_iff_eq_none] at hno
  exact hno

/-- A file that was not there, and is removed. -/
theorem update_none_of_eq_none {f : NetFile} (h : c f = none) : Function.update c f none = c := by
  rw [← h, Function.update_eq_self]

/-- The files that were missing are missing. -/
theorem ensureMissing_failure {g : NetGlobals} (hmatch : Matches cfg c)
    (h : (ensureMissing g e cfg c).1 ≠ .ready) : (ensureMissing g e cfg c).2 = c := by
  have hip : (!cfg.ipExists) = true → c .ip = none := fun hneed =>
    hmatch.ip_eq_none ((Bool.not_eq_true' _).mp hneed)
  have hsmb : (!cfg.smbExists) = true → c .smb = none := fun hneed =>
    hmatch.smb_eq_none ((Bool.not_eq_true' _).mp hneed)
  rw [ensureMissing] at h ⊢
  dsimp only at h ⊢
  generalize (!cfg.ipExists) = needIp at hip h ⊢
  generalize (!cfg.smbExists) = needSmb at hsmb h ⊢
  generalize (if needIp = true then cfg.withIp g else cfg) = cfg' at h ⊢
  -- what becomes of `IPCONFIG.DAT`
  rcases hfirst : writeWanted (e.file .ip) needIp .ip (vcdBuildIpConfig cfg') c with ⟨rc, c₁⟩
  rw [hfirst] at h
  dsimp only at h ⊢
  by_cases hrc : rc ≠ 0
  · rw [if_pos hrc]
    obtain ⟨hneed, rfl | ⟨rfl, -⟩⟩ := writeWanted_ne_zero hfirst hrc
    · rfl
    · exact update_none_of_eq_none (hip hneed)
  rw [if_neg hrc] at h ⊢
  obtain rfl := not_not.mp hrc
  have hback : (if needIp = true then Function.update c₁ .ip none else c₁) = c ∧
      c₁ .smb = c .smb := by
    rcases writeWanted_zero hfirst with ⟨hno, rfl⟩ | ⟨hneed, rfl⟩
    · rw [hno]
      exact ⟨rfl, rfl⟩
    · rw [if_pos hneed, Function.update_idem]
      exact ⟨update_none_of_eq_none (hip hneed), update_ip_smb ..⟩
  -- and of `SMBCONFIG.DAT`
  rcases hsecond : writeWanted (e.file .smb) needSmb .smb (vcdBuildSmbConfig (cfg'.withSmb g)) c₁
    with ⟨rc', c₂⟩
  rw [hsecond] at h
  dsimp only at h ⊢
  have hfail : rc' ≠ 0 := fun hzero => h (by rw [if_neg (not_not.mpr hzero)])
  rw [if_pos hfail]
  have hsame : c₂ = c₁ := by
    obtain ⟨hneed, rfl | ⟨rfl, -⟩⟩ := writeWanted_ne_zero hsecond hfail
    · rfl
    · exact update_none_of_eq_none (hback.2.trans (hsmb hneed))
  rw [hsame]
  exact hback.1

/-- **The launch**: a failure leaves both files as they were. -/
theorem vcdEnsurePopstarterSmbConfig_failure {g : NetGlobals} (hmatch : Matches cfg c)
    (h : (vcdEnsurePopstarterSmbConfig g e cfg c).1 ≠ .ready) :
    (vcdEnsurePopstarterSmbConfig g e cfg c).2 = c := by
  rw [vcdEnsurePopstarterSmbConfig] at h ⊢
  split_ifs at h ⊢
  all_goals first | rfl | exact ensureMissing_failure hmatch h

/-- **A new pair** is created as a whole, or not at all. -/
theorem WriteFailure.unchanged_of_new {writeSmb writeIp : Bool} {c' : NetCard}
    (h : WriteFailure e cfg writeSmb writeIp c c') (hmatch : Matches cfg c)
    (hsmb : cfg.smbExists = false) (hip : cfg.ipExists = false) : c' = c := by
  funext f
  cases f with
  | smb =>
    rcases h.smb with hsame | ⟨hnone, -⟩ | ⟨-, -, -, hold⟩
    · exact hsame
    · exact hnone.trans (hmatch.smb_eq_none hsmb).symm
    · exact absurd (hsmb.symm.trans hold) (by decide)
  | ip =>
    rcases h.ip with hsame | ⟨hnone, -⟩
    · exact hsame
    · exact hnone.trans (hmatch.ip_eq_none hip).symm

/-! ### Both functions -/

/-- **A failure is reported**: the editor leaves each file as it was, or removed, or `SMBCONFIG.DAT`
with its new text, and the launch leaves both as they were. -/
theorem netFiles_failure (g : NetGlobals) (e : NetEnv) (cfg : PopsNet) (c : NetCard) :
    (∀ writeSmb writeIp, (vcdWritePopstarterNetFiles e cfg writeSmb writeIp c).1 ≠ 0 →
      WriteFailure e cfg writeSmb writeIp c
        (vcdWritePopstarterNetFiles e cfg writeSmb writeIp c).2) ∧
    (Matches cfg c → (vcdEnsurePopstarterSmbConfig g e cfg c).1 ≠ .ready →
      (vcdEnsurePopstarterSmbConfig g e cfg c).2 = c) :=
  ⟨fun _ _ h => vcdWritePopstarterNetFiles_failure h, fun hmatch h =>
    vcdEnsurePopstarterSmbConfig_failure hmatch h⟩

/-- A card on which no `write` succeeds. -/
def fullCard : NetEnv := ⟨true, fun _ => ⟨⟨-1, true, fun _ => none⟩, none⟩⟩

/-- A configuration of which both files are there. -/
def existingNet : PopsNet :=
  { staticNet 0 [80, 83, 50] with smbExists := true, ipExists := true, home := [109, 99, 48] }

/-- Both files, with a byte each. -/
def bothFiles : NetCard := fun f => if f = .smb then some [1] else some [2]

/-- `IPCONFIG.DAT` is gone. -/
theorem vcdWritePopstarterNetFiles_fullCard :
    vcdWritePopstarterNetFiles fullCard existingNet false true bothFiles =
      (-3, Function.update bothFiles .ip none) := by
  have hip : vcdSafeWriteFile (fullCard.file .ip) .ip (vcdBuildIpConfig existingNet) bothFiles =
      (-3, Function.update bothFiles .ip none) := by
    have hspace : ∀ n : ℤ, ¬Bdma.mcHasSpace (fullCard.file .ip).freeBytes n = 0 := fun n => by
      rw [Bdma.mcHasSpace, if_pos (by decide)]
      decide
    have htext : vcdBuildIpConfig existingNet ≠ [] := by decide
    rw [vcdSafeWriteFile, if_neg (hspace _), if_neg (by decide), Bdma.writeLoop, if_neg htext]
    rfl
  rw [vcdWritePopstarterNetFiles, if_neg (by decide), if_neg (by decide), if_neg (by decide),
    writeWanted, if_neg (by decide)]
  dsimp only
  rw [if_neg (by decide), writeWanted, if_pos rfl, hip]
  rfl

/-- `IPCONFIG.DAT` cannot be written: what is left is what may be left. -/
theorem writeFailure_existingNet : WriteFailure fullCard existingNet false true bothFiles
    (vcdWritePopstarterNetFiles fullCard existingNet false true bothFiles).2 :=
  (netFiles_failure ⟨false, .zero, .zero, .zero, .zero, 0, [], [], []⟩ fullCard existingNet
    bothFiles).1 false true (by rw [vcdWritePopstarterNetFiles_fullCard]; decide)

/-- And it is not what was there. -/
theorem not_unchanged_overwrite :
    ¬ ∀ (e : NetEnv) (cfg : PopsNet) (writeSmb writeIp : Bool) (c : NetCard), Matches cfg c →
      (vcdWritePopstarterNetFiles e cfg writeSmb writeIp c).1 ≠ 0 →
      (vcdWritePopstarterNetFiles e cfg writeSmb writeIp c).2 = c := by
  intro h
  have hsame := h fullCard existingNet false true bothFiles ⟨rfl, rfl⟩
    (by rw [vcdWritePopstarterNetFiles_fullCard]; decide)
  rw [vcdWritePopstarterNetFiles_fullCard] at hsame
  exact absurd (congrFun hsame .ip) (by decide)

end Vcd

end OpenPS2Loader
