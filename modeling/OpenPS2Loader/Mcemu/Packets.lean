import Mathlib.Data.List.Basic
import OpenPS2Loader.Lib.Transition
import OpenPS2Loader.Mcemu.Reports

/-!
# Packets to a card whose accesses fail

`Sio2McEmu` in `mcemu.c` goes through the commands of a packet, up to 16 of them, with one flag for
the result. A write and a read are left out behind an error; every other command for a card sets the
flag anew, so that an error in a packet is lost when a command like a start of a read is behind it.

A run has packets to the two cards. A packet is truthful when it ends with the status of an error
where an access in it has failed, and when what it reads comes from the device or is 0xFF. This is
so when the back end reports the failures, when no command of a packet is behind an access that
failed and sets the flag, and when the page in `mcdatabuf` is left alone while a game reads it.

## Main definitions

* `Mce.request`, `Mce.Sio2Packet.requests` — the commands of a packet
* `Mce.serve` — a command to a card
* `Mce.sio2McEmu` — a packet
* `Mce.PacketResult.Truthful`
* `Mce.CommandOk`, `Mce.PacketOk`

## Main results

* `Mce.commandStep_spec` — a command
* `Mce.sio2McEmu_spec` — a packet
* `Mce.run_truthful` — a run of packets
-/

namespace OpenPS2Loader

namespace Mce

/-! ### Packets -/

/-- What `mc_configure` sets up, with the device behind the cards. -/
structure Setup where
  backend : Backend
  accesses : Accesses
  active : Fin 2 → Bool
  spec : Fin 2 → CardSpec

structure Emu where
  port : Fin 2 → Slot
  dev : Device

/-- The state behind `mc_configure`; the buffers and the files are as they are. -/
def mcConfigure (buf : List UInt8) (ecc : Fin 2 → List UInt8) (fid : Fin 2 → UInt16) : Emu where
  port c := ⟨⟨0, 0, 0, ecc c, 0, 0, 0, 0x5A⟩, false⟩
  dev := ⟨buf, fid, true, 0, false, false⟩

/-- The commands of `Sio2McEmu`. Those of `status` (0x12, 0x11, 0x81, 0x82, 0xBF and 0xF3) have
only an answer, and so does 0x28; Magic Gate and unknown commands are an error. -/
inductive CardCommand
  | command (cmd : Command)
  | status (length : ℕ)
  | probe
  | unknown (length : ℕ)

/-- A command to a card, or one that is not for a card. -/
inductive Request
  | card (c : Fin 2) (cmd : CardCommand)
  | unsupported

/-- `Sio2Packet`, without its results; `wrmaddr` is addressed by the distance from the start. -/
structure Sio2Packet where
  ctrl : Fin 16 → UInt32
  wrmaddr : UInt32 → UInt8
  wrwords : UInt32
  wrcount : UInt32
  rdwords : UInt32

/-- `GetInt` -/
def getInt (wdma : UInt32 → UInt8) (at_ : UInt32) : UInt32 :=
  (wdma at_).toUInt32 ||| (wdma (at_ + 1)).toUInt32 <<< 8 ||| (wdma (at_ + 2)).toUInt32 <<< 16 |||
    (wdma (at_ + 3)).toUInt32 <<< 24

/-- The command at `wdma` with the control word `ctl`. -/
def request (wdma : UInt32 → UInt8) (ctl : UInt32) : Request :=
  let length := ((ctl >>> 18) &&& 0x1FF).toNat
  if wdma 0 = 0x81 then
    .card ⟨(ctl &&& 1).toNat % 2, Nat.mod_lt _ Nat.two_pos⟩ <|
      match (wdma 1).toNat with
      | 0x12 => .status length
      | 0x21 => .command (.erase length (getInt wdma 2))
      | 0x22 => .command (.startWrite length (getInt wdma 2))
      | 0x23 => .command (.startRead length (getInt wdma 2))
      | 0x26 => .command .spec
      | 0x27 => .command (.termCode length (wdma 2))
      | 0x28 => .probe
      | 0x42 => .command (.write length (wdma 2) fun k => wdma (3 + UInt32.ofNat k))
      | 0x43 => .command (.read (wdma 2))
      | 0x11 | 0x81 | 0x82 | 0xBF | 0xF3 => .status length
      | _ => .unknown length
  else .unsupported

/-- The commands of a packet: up to `wrcount` and 16, and up to a control word that is 0. -/
def Sio2Packet.requests (pkt : Sio2Packet) : List Request :=
  (((List.ofFn pkt.ctrl).take pkt.wrcount.toNat).takeWhile (· ≠ 0)).mapIdx fun i ctl =>
    request (fun k => pkt.wrmaddr (UInt32.ofNat i * (pkt.wrwords * 4) + k)) ctl

/-- What a command leaves in its part of the read buffer. For a read, `data` is the data in it and
`obtained` says whether all of it comes from pages that were transferred. -/
structure Answer where
  bytes : List UInt8
  data : List UInt8
  obtained : Bool

def Answer.plain (bytes : List UInt8) : Answer := ⟨bytes, [], true⟩

/-- A command to an active card; `result` is what the command before it left. -/
def serve (x : Setup) (c : Fin 2) (p : Slot) (d : Device) (result : Bool) :
    CardCommand → Option (Slot × Device × Bool × Answer)
  | .command (.erase length page) =>
    (eraseBlock x.backend x.accesses (x.spec c) d page).map fun (d, ok) =>
      (p, d, ok, .plain (sioResponse p.tcode length))
  | .command (.startWrite length page) =>
    some ({ p with wpage := page, wroff := 0, wcoff := 0 }, d, true,
      .plain (sioResponse p.tcode length))
  | .command (.startRead length page) =>
    some ({ p with rpage := page, rdoff := 0, rcoff := 0 }, d, true,
      .plain (sioResponse p.tcode length))
  | .command .spec =>
    some (p, d, true, .plain ([0xFF, 0xFF, (x.spec c).flags.toUInt8] ++ (x.spec c).bytes ++
      [calculateEDC (x.spec c).bytes, p.tcode]))
  | .command (.termCode length code) =>
    some ({ p with tcode := code }, d, true, .plain (sioResponse code length))
  | .command (.write length size data) =>
    if result then
      (writeChunk x.backend x.accesses p d (Bytes.slice data 0 size.toNat)).map fun r =>
        (r.port, r.dev, r.ok, .plain (sioResponse p.tcode length))
    else some (p, d, false, .plain (sioResponse p.tcode length))
  | .command (.read size) =>
    (if result then
      (readChunk x.backend x.accesses c (x.spec c) p d size.toNat).map fun r =>
        (r.port, r.dev, r.ok, if r.ok then r.out else List.replicate size.toNat 0xFF, r.obtained)
    else some (p, d, false, List.replicate size.toNat 0xFF, false)).map
      fun (p, d, ok, data, obtained) =>
        (p, d, ok, ⟨[0xFF, 0xFF, 0xFF, 0x2B] ++ data ++ [calculateEDC data, p.tcode], data,
          obtained⟩)
  | .status length => some (p, d, true, .plain (sioResponse p.tcode length))
  | .probe => some (p, d, true, .plain (sioResponse p.tcode 4 ++ [p.tcode]))
  | .unknown length => some (p, d, false, .plain (sioResponse p.tcode length))

/-- The variables of the loop over the commands. -/
structure LoopState where
  emu : Emu
  result : Bool
  answers : List Answer

/-- A pass of the loop. -/
def commandStep (x : Setup) (pkt : Sio2Packet) (s : LoopState) : Request → Option LoopState
  | .unsupported => some { s with result := false }
  | .card c cmd =>
    if x.active c then
      (serve x c (s.emu.port c) s.emu.dev s.result cmd).map fun (p, d, ok, answer) =>
        ⟨⟨Function.update s.emu.port c p, d⟩, ok, s.answers ++ [answer]⟩
    else
      some { s with
        result := false
        answers := s.answers ++ [.plain (List.replicate (pkt.rdwords * 4).toNat 0xFF)] }

/-- What a packet ends with, and whether an access to the device failed in it. -/
structure PacketResult where
  iostatus : UInt32
  answers : List Answer
  failed : Bool

/-- The start of the loop. -/
def LoopState.start (s : Emu) : LoopState := ⟨⟨s.port, { s.dev with failed := false }⟩, true, []⟩

/-- `Sio2McEmu`. There is no result when an access waits for ever. -/
def sio2McEmu (x : Setup) (s : Emu) (pkt : Sio2Packet) : Option (Emu × PacketResult) :=
  if pkt.ctrl 0 &&& 0xF0 = 0x70 then
    (Transition.run (commandStep x pkt) (.start s) pkt.requests).map fun t =>
      (t.emu, ⟨(if t.result then 0x1000 else 0x1D000) |||
        ((UInt32.ofNat pkt.requests.length &&& 0xF) <<< 8), t.answers, t.emu.dev.failed⟩)
  else some (s, ⟨0x1D100, [], false⟩)

/-! ### What a game is told -/

/-- The status without the number of the commands. -/
def PacketResult.status (r : PacketResult) : UInt32 := r.iostatus &&& 0xFFFFF0FF

/-- A packet reports what happened to the accesses in it. -/
structure PacketResult.Truthful (r : PacketResult) : Prop where
  error : r.failed = true → r.status = 0x1D000
  data : ∀ a ∈ r.answers, a.obtained = true ∨ ∀ y ∈ a.data, y = 0xFF
  done : r.status = 0x1000 → r.failed = false

/-! ### When a packet is truthful -/

/-- The command sets the result anew, whatever it was. -/
def CardCommand.setsResult : CardCommand → Bool
  | .command (.write ..) => false
  | .command (.read _) => false
  | .unknown _ => false
  | _ => true

/-- The command can access the device. -/
def CardCommand.accesses (result : Bool) : CardCommand → Bool
  | .command (.erase ..) => true
  | .command (.write ..) => result
  | .command (.read _) => result
  | _ => false

/-- The driver transfers the page, when it is read next. -/
def Device.reads (d : Device) (x : Setup) (page : UInt32) : Bool :=
  ((x.accesses d.accesses .read page).outcome x.backend .read).transferred

/-- A command puts something into the buffer of which the card `c'` may have more to read: bytes
that are not from the device, or what a failed read leaves there. -/
def LoopState.spoils (s : LoopState) (x : Setup) (c c' : Fin 2) : CardCommand → Bool
  | .command (.erase ..) => true
  | .command (.write length size data) =>
    s.result && (s.emu.port c).overwrites (.write length size data)
  | .command (.read size) =>
    s.result && c' != c && ((s.emu.port c).loadsPage size.toNat).any fun page =>
      !s.emu.dev.reads x page
  | _ => false

/-- Behind a failed access no command sets the result, none waits for a semaphore that is not given
back, and none spoils the buffer while a card is in the middle of a page that it reads. -/
def CommandOk (x : Setup) (s : LoopState) : Request → Prop
  | .unsupported => True
  | .card c cmd => x.active c = true →
    (s.emu.dev.failed = true → cmd.setsResult = false) ∧
      (s.emu.dev.Blocked x.backend → cmd.accesses s.result = false) ∧
        ∀ c', (s.emu.port c').rdoff ≠ 0 → s.spoils x c c' cmd = false

instance (x : Setup) (s : LoopState) : (r : Request) → Decidable (CommandOk x s r)
  | .unsupported => inferInstanceAs (Decidable True)
  | .card _ _ => inferInstanceAs (Decidable (_ → _ ∧ _ ∧ _))

/-- The commands of the packet are in order. -/
def PacketOk (x : Setup) (s : Emu) (pkt : Sio2Packet) : Prop :=
  Transition.RunOk (commandStep x pkt) (CommandOk x) (.start s) pkt.requests

instance (x : Setup) (s : Emu) (pkt : Sio2Packet) : Decidable (PacketOk x s pkt) :=
  Transition.decidableRunOk _ _ _ _

/-! ### Commands -/

section Command

variable {x : Setup} {pkt : Sio2Packet} {s : LoopState} {c : Fin 2}

/-- Every card is in order, the result says whether an access has failed, and what was read comes
from the device or is 0xFF. -/
structure LoopState.Inv (s : LoopState) : Prop where
  sound : ∀ c, (s.emu.port c).Sound s.emu.dev
  good : s.result = true → s.emu.dev.failed = false
  data : ∀ a ∈ s.answers, a.obtained = true ∨ ∀ y ∈ a.data, y = 0xFF

/-- What a command leaves: `Inv` for its card and its answer, and the page that the other card
reads. -/
structure LoopState.Serves (s : LoopState) (c : Fin 2) (r : Slot × Device × Bool × Answer) :
    Prop where
  sound : r.1.Sound r.2.1
  others : ∀ c', c' ≠ c → (s.emu.port c').rdoff ≠ 0 → r.2.1.obtained = true
  good : r.2.2.1 = true → r.2.1.failed = false
  data : r.2.2.2.obtained = true ∨ ∀ y ∈ r.2.2.2.data, y = 0xFF

/-- A command that only answers, and sets fields of the card that a read does not use, or starts a
read. -/
theorem LoopState.Inv.serves_plain (h : s.Inv) {p : Slot} {ok : Bool} (bytes : List UInt8)
    (hp : p.Sound s.emu.dev) (hok : ok = true → s.emu.dev.failed = false) :
    s.Serves c (p, s.emu.dev, ok, .plain bytes) where
  sound := hp
  others c' _ hoff := (h.sound c').obtained hoff
  good := hok
  data := .inl rfl

/-- A command that accesses the device finds it in order. -/
theorem LoopState.Inv.good_of_accesses (h : s.Inv) {cmd : CardCommand}
    (hfailed : s.emu.dev.failed = true → cmd.setsResult = false)
    (hblocked : s.emu.dev.Blocked x.backend → cmd.accesses s.result = false)
    (hacc : cmd.accesses s.result = true) : s.emu.dev.Good x.backend where
  failed := by
    cases cmd with
    | command cmd =>
      cases cmd with
      | erase length page =>
        rw [← Bool.not_eq_true]
        intro hfail
        exact Bool.noConfusion (hfailed hfail)
      | write length size data => exact h.good hacc
      | read size => exact h.good hacc
      | startWrite length page => cases hacc
      | startRead length page => cases hacc
      | spec => cases hacc
      | termCode length code => cases hacc
    | status length => cases hacc
    | probe => cases hacc
    | unknown length => cases hacc
  sema := by
    intro hsmb
    rw [← Bool.not_eq_false]
    intro hsema
    have hnot := hblocked ⟨hsmb, hsema⟩
    rw [hacc] at hnot
    cases hnot

/-- An erase: no card reads a page. -/
theorem LoopState.Inv.serves_erase (h : s.Inv) (hrep : Reporting x.backend x.accesses)
    (hd : s.emu.dev.Good x.backend) (length : ℕ) (page : UInt32)
    (hspoils : ∀ c', (s.emu.port c').rdoff ≠ 0 →
      s.spoils x c c' (.command (.erase length page)) = false) :
    ∃ r, serve x c (s.emu.port c) s.emu.dev s.result (.command (.erase length page)) = some r ∧
      s.Serves c r := by
  have hstart : ∀ c', (s.emu.port c').rdoff = 0 := by
    intro c'
    by_contra hoff
    exact Bool.noConfusion (hspoils c' hoff)
  obtain ⟨d', ok, hcall, htold⟩ := eraseBlock_spec (x.spec c) hd hrep page
  rw [serve, hcall, Option.map_some]
  refine ⟨_, rfl, ⟨?_, ?_, ?_, .inl rfl⟩⟩
  · exact ⟨(h.sound c).rdoff_lt, (h.sound c).wroff_lt, fun hoff => absurd (hstart c) hoff,
      (h.sound c).ecc⟩
  · exact fun c' _ hoff => absurd (hstart c') hoff
  · exact fun hok => (htold.good hok).failed

/-- A write: it keeps the page that a card reads. -/
theorem LoopState.Inv.serves_write (h : s.Inv) (hrep : Reporting x.backend x.accesses)
    (length : ℕ) (size : UInt8) (data : ℕ → UInt8)
    (hgood : s.result = true → s.emu.dev.Good x.backend)
    (hspoils : ∀ c', (s.emu.port c').rdoff ≠ 0 →
      s.spoils x c c' (.command (.write length size data)) = false) :
    ∃ r, serve x c (s.emu.port c) s.emu.dev s.result (.command (.write length size data)) =
      some r ∧ s.Serves c r := by
  rw [serve]
  split_ifs with hresult
  · have hlen : (Bytes.slice data 0 size.toNat).length = size.toNat := Bytes.length_slice _ _ _
    have hsmall : (Bytes.slice data 0 size.toNat).length < 256 := by
      rw [hlen]
      exact size.toNat_lt
    obtain ⟨r, hcall, hends⟩ :=
      writeChunk_spec (h.sound c).wroff_lt (hgood hresult) hrep hsmall
    rw [hlen] at hends
    have hobtained : ∀ c', (s.emu.port c').rdoff ≠ 0 → r.dev.obtained = true := by
      intro c' hoff
      have hkept := hspoils c' hoff
      rw [LoopState.spoils, hresult, Bool.true_and, Port.overwrites, Bool.and_eq_false_iff] at hkept
      rw [hends.obtained ?_]
      · exact (h.sound c').obtained hoff
      · obtain hzero | hecc := hkept
        · refine .inl ?_
          have hzero := not_not.mp (of_decide_eq_false hzero)
          rw [hzero]
          rfl
        · exact .inr (by simpa using hecc)
    rw [hcall, Option.map_some]
    refine ⟨_, rfl, ⟨?_, ?_, ?_, .inl rfl⟩⟩
    · refine ⟨?_, hends.wroff_lt, ?_, ?_⟩
      · rw [hends.same.rdoff]
        exact (h.sound c).rdoff_lt
      · rw [hends.same.rdoff]
        exact hobtained c
      · rw [hends.same.rdoff, hends.same.rcoff, hends.same.eccObtained]
        exact (h.sound c).ecc
    · exact fun c' _ hoff => hobtained c' hoff
    · exact fun hok => (hends.told.good hok).failed
  · exact ⟨_, rfl, h.serves_plain _ (h.sound c) nofun⟩

/-- A read: its data is from the device, or 0xFF. -/
theorem LoopState.Inv.serves_read (h : s.Inv) (hrep : Reporting x.backend x.accesses) (size : UInt8)
    (hgood : s.result = true → s.emu.dev.Good x.backend)
    (hspoils : ∀ c', (s.emu.port c').rdoff ≠ 0 →
      s.spoils x c c' (.command (.read size)) = false) :
    ∃ r, serve x c (s.emu.port c) s.emu.dev s.result (.command (.read size)) = some r ∧
      s.Serves c r := by
  rw [serve]
  split_ifs with hresult
  · have hsmall : size.toNat < 256 := size.toNat_lt
    obtain ⟨r, hcall, hends⟩ :=
      readChunk_spec c (x.spec c) (h.sound c) (hgood hresult) hrep hsmall
    rw [hcall, Option.map_some, Option.map_some]
    refine ⟨_, rfl, ⟨hends.sound, ?_, ?_, ?_⟩⟩
    · intro c' hne hoff
      have hkept := hspoils c' hoff
      rw [LoopState.spoils, hresult, Bool.true_and, bne_iff_ne.mpr hne, Bool.true_and] at hkept
      have haccess := hends.access
      cases hpage : (s.emu.port c).loadsPage size.toNat with
      | none =>
        rw [hpage] at haccess
        have hdev : r.dev = s.emu.dev := haccess.1
        show r.dev.obtained = true
        rw [hdev]
        exact (h.sound c').obtained hoff
      | some page =>
        rw [hpage] at haccess hkept
        have hread : deviceReadPage x.backend x.accesses c s.emu.dev page = some (r.dev, r.ok) :=
          haccess
        obtain ⟨d', ok, hread', -, hobtained, htransferred⟩ :=
          deviceReadPage_spec (hgood hresult) hrep c page
        cases hread.symm.trans hread'
        rw [Option.any_some, Device.reads, ← htransferred, ← hobtained] at hkept
        simpa using hkept
    · exact fun hok => (hends.told (hgood hresult) hrep).good hok |>.failed
    · cases hok : r.ok with
      | true => exact .inl (hends.obtained hok)
      | false => exact .inr fun y hy => List.eq_of_mem_replicate hy
  · refine ⟨_, rfl, ⟨h.sound c, fun c' _ hoff => (h.sound c').obtained hoff, nofun, .inr ?_⟩⟩
    exact fun y hy => List.eq_of_mem_replicate hy

/-- A command to an active card. -/
theorem LoopState.Inv.serves (h : s.Inv) (hrep : Reporting x.backend x.accesses)
    {cmd : CardCommand} (hfailed : s.emu.dev.failed = true → cmd.setsResult = false)
    (hblocked : s.emu.dev.Blocked x.backend → cmd.accesses s.result = false)
    (hspoils : ∀ c', (s.emu.port c').rdoff ≠ 0 → s.spoils x c c' cmd = false) :
    ∃ r, serve x c (s.emu.port c) s.emu.dev s.result cmd = some r ∧ s.Serves c r := by
  have hgood := h.good_of_accesses hfailed hblocked
  have hsets : cmd.setsResult = true → s.emu.dev.failed = false := by
    intro hset
    rw [← Bool.not_eq_true]
    intro hfail
    rw [hset] at hfailed
    exact absurd (hfailed hfail) (by decide)
  have hp := h.sound c
  cases cmd with
  | command cmd =>
    cases cmd with
    | erase length page => exact h.serves_erase hrep (hgood rfl) length page hspoils
    | write length size data => exact h.serves_write hrep length size data hgood hspoils
    | read size => exact h.serves_read hrep size hgood hspoils
    | startWrite length page =>
      exact ⟨_, rfl, h.serves_plain _ ⟨hp.rdoff_lt, show 0 < pageSize by decide, hp.obtained,
        hp.ecc⟩ fun _ => hsets rfl⟩
    | startRead length page =>
      refine ⟨_, rfl, h.serves_plain _ ⟨show 0 < pageSize by decide, hp.wroff_lt,
        fun hoff => absurd rfl hoff, ?_⟩
        fun _ => hsets rfl⟩
      rintro (hoff | hoff)
      · exact absurd rfl hoff
      · exact absurd rfl hoff
    | spec => exact ⟨_, rfl, h.serves_plain _ hp fun _ => hsets rfl⟩
    | termCode length code =>
      exact ⟨_, rfl, h.serves_plain _ ⟨hp.rdoff_lt, hp.wroff_lt, hp.obtained, hp.ecc⟩
        fun _ => hsets rfl⟩
  | status length => exact ⟨_, rfl, h.serves_plain _ hp fun _ => hsets rfl⟩
  | probe => exact ⟨_, rfl, h.serves_plain _ hp fun _ => hsets rfl⟩
  | unknown length => exact ⟨_, rfl, h.serves_plain _ hp nofun⟩

/-- **A command** of a packet. -/
theorem commandStep_spec (h : s.Inv) (hrep : Reporting x.backend x.accesses) {r : Request}
    (hok : CommandOk x s r) : ∃ s', commandStep x pkt s r = some s' ∧ s'.Inv := by
  cases r with
  | unsupported => exact ⟨_, rfl, h.sound, nofun, h.data⟩
  | card c cmd =>
    rw [commandStep]
    split_ifs with hactive
    · obtain ⟨hfailed, hblocked, hspoils⟩ := hok hactive
      obtain ⟨⟨p, d, ok, answer⟩, hserve, hserves⟩ := h.serves hrep hfailed hblocked hspoils
      rw [hserve, Option.map_some]
      refine ⟨_, rfl, ⟨fun c' => ?_, hserves.good, fun a ha => ?_⟩⟩
      · by_cases hc : c' = c
        · subst hc
          show (Function.update s.emu.port c' p c').Sound d
          rw [Function.update_self]
          exact hserves.sound
        · show (Function.update s.emu.port c p c').Sound d
          rw [Function.update_of_ne hc]
          have hp := h.sound c'
          exact ⟨hp.rdoff_lt, hp.wroff_lt, hserves.others c' hc, hp.ecc⟩
      · obtain ha | ha := List.mem_append.mp ha
        · exact h.data a ha
        · rw [List.mem_singleton.mp ha]
          exact hserves.data
    · refine ⟨_, rfl, ⟨h.sound, nofun, fun a ha => ?_⟩⟩
      obtain ha | ha := List.mem_append.mp ha
      · exact h.data a ha
      · rw [List.mem_singleton.mp ha]
        exact .inl rfl

end Command

/-! ### Runs -/

theorem Sio2Packet.length_requests_le (pkt : Sio2Packet) : pkt.requests.length ≤ 16 := by
  rw [Sio2Packet.requests, List.length_mapIdx]
  refine le_trans (List.takeWhile_sublist _).length_le ?_
  rw [List.length_take, List.length_ofFn]
  exact Nat.min_le_right _ _

/-- The number of the commands is apart from the other bits of a status. -/
theorem status_eq : ∀ (result : Bool) (n : Fin 17),
    ((if result then 0x1000 else 0x1D000 : UInt32) ||| ((UInt32.ofNat n &&& 0xF) <<< 8)) &&&
      0xFFFFF0FF = if result then 0x1000 else 0x1D000 := by
  decide

/-- **A packet** ends, and it is truthful. -/
theorem sio2McEmu_spec {x : Setup} {s : Emu} {pkt : Sio2Packet}
    (hs : ∀ c, (s.port c).Sound s.dev) (hrep : Reporting x.backend x.accesses)
    (hok : PacketOk x s pkt) :
    ∃ t r, sio2McEmu x s pkt = some (t, r) ∧ (∀ c, (t.port c).Sound t.dev) ∧ r.Truthful := by
  rw [sio2McEmu]
  split_ifs with hctrl
  · have hstart : (LoopState.start s).Inv := by
      refine ⟨fun c => ?_, fun _ => rfl, fun a ha => absurd ha List.not_mem_nil⟩
      exact ⟨(hs c).rdoff_lt, (hs c).wroff_lt, (hs c).obtained, (hs c).ecc⟩
    obtain ⟨t, hrun, ht⟩ := Transition.run_total_of_runOk
      (fun _ _ h hcmd => commandStep_spec h hrep hcmd) hstart hok
    rw [hrun, Option.map_some]
    have hstatus := status_eq t.result
      ⟨pkt.requests.length, Nat.lt_succ_of_le pkt.length_requests_le⟩
    refine ⟨_, _, rfl, ht.sound, fun hfailed => ?_, ht.data, fun hdone => ?_⟩
    · refine hstatus.trans (if_neg fun hresult => ?_)
      exact Bool.noConfusion (hfailed.symm.trans (ht.good hresult))
    · refine ht.good ?_
      by_contra hresult
      have herror : (0x1D000 : UInt32) = 0x1000 :=
        (if_neg hresult).symm.trans (hstatus.symm.trans hdone)
      exact absurd herror (by decide)
  · exact ⟨_, _, rfl, hs, nofun, fun a ha => absurd ha List.not_mem_nil, fun _ => rfl⟩

/-- The cards, and what the packets so far ended with. -/
structure Play where
  emu : Emu
  results : List PacketResult

def Play.start (buf : List UInt8) (ecc : Fin 2 → List UInt8) (fid : Fin 2 → UInt16) : Play :=
  ⟨mcConfigure buf ecc fid, []⟩

def packetStep (x : Setup) (s : Play) (pkt : Sio2Packet) : Option Play :=
  (sio2McEmu x s.emu pkt).map fun r => ⟨r.1, s.results ++ [r.2]⟩

theorem sound_mcConfigure (buf : List UInt8) (ecc : Fin 2 → List UInt8) (fid : Fin 2 → UInt16)
    (c : Fin 2) : ((mcConfigure buf ecc fid).port c).Sound (mcConfigure buf ecc fid).dev := by
  refine ⟨show 0 < pageSize by decide, show 0 < pageSize by decide, fun hoff => absurd rfl hoff, ?_⟩
  rintro (hoff | hoff)
  · exact absurd rfl hoff
  · exact absurd rfl hoff

/-- **A failed access is reported.** When the back end reports the failures of the driver and the
commands of every packet are in order, every packet ends, and all of them are truthful. -/
theorem run_truthful (x : Setup) (hrep : Reporting x.backend x.accesses) (buf : List UInt8)
    (ecc : Fin 2 → List UInt8) (fid : Fin 2 → UInt16) (pkts : List Sio2Packet)
    (hok : Transition.RunOk (packetStep x) (fun s pkt => PacketOk x s.emu pkt)
      (.start buf ecc fid) pkts) :
    ∃ s, Transition.run (packetStep x) (.start buf ecc fid) pkts = some s ∧
      ∀ r ∈ s.results, r.Truthful := by
  have hstep : ∀ (s : Play) (pkt : Sio2Packet),
      ((∀ c, (s.emu.port c).Sound s.emu.dev) ∧ ∀ r ∈ s.results, r.Truthful) → PacketOk x s.emu pkt →
        ∃ s', packetStep x s pkt = some s' ∧
          (∀ c, (s'.emu.port c).Sound s'.emu.dev) ∧ ∀ r ∈ s'.results, r.Truthful := by
    rintro s pkt ⟨hs, hresults⟩ hpkt
    obtain ⟨t, r, hcall, ht, hr⟩ := sio2McEmu_spec hs hrep hpkt
    rw [packetStep, hcall, Option.map_some]
    refine ⟨_, rfl, ht, fun r' hr' => ?_⟩
    obtain hr' | hr' := List.mem_append.mp hr'
    · exact hresults r' hr'
    · rw [List.mem_singleton.mp hr']
      exact hr
  obtain ⟨s, hrun, -, hresults⟩ := Transition.run_total_of_runOk hstep
    ⟨sound_mcConfigure buf ecc fid, fun r hr => absurd hr List.not_mem_nil⟩ hok
  exact ⟨s, hrun, hresults⟩

/-- A packet with these commands, of up to 16 bytes each. -/
def packetOf (cmds : List (List UInt8)) : Sio2Packet where
  ctrl i := if i < cmds.length then 0x240070 else 0
  wrmaddr k := (cmds.getD (k.toNat / 16) []).getD (k.toNat % 16) 0
  wrwords := 4
  wrcount := UInt32.ofNat cmds.length
  rdwords := 40

/-- The access `n` fails. -/
def failsAt (n : ℕ) (done : ℤ) : Accesses := fun k _ _ =>
  ⟨.opened 0, true, fun _ => if k = n then -1 else done,
    fun _ => .counted (if k = n then -1 else pageSize), List.replicate pageSize 0,
    List.length_replicate⟩

/-- The start of a read of the page 3, and the first 128 bytes of it. -/
def readPacket : Sio2Packet := packetOf [[0x81, 0x23, 3, 0, 0, 0], [0x81, 0x43, 128]]

/-- A read from the hard disk that fails, and the next one. -/
theorem run_truthful_readPacket : ∃ s : Play,
    Transition.run (packetStep ⟨.hdd, failsAt 0 0, fun _ => true, fun _ => ⟨0, 16, 16384⟩⟩)
      (.start [] (fun _ => []) fun _ => 0) [readPacket, readPacket] = some s ∧
    (∀ r ∈ s.results, r.Truthful) ∧ s.results.map (·.iostatus) = [0x1D200, 0x1200] := by
  obtain ⟨s, hrun, htruthful⟩ := run_truthful
    ⟨.hdd, failsAt 0 0, fun _ => true, fun _ => ⟨0, 16, 16384⟩⟩ (reporting_hdd _) [] (fun _ => [])
    (fun _ => 0) [readPacket, readPacket] (by decide +kernel)
  have hstatus : (Transition.run
      (packetStep ⟨.hdd, failsAt 0 0, fun _ => true, fun _ => ⟨0, 16, 16384⟩⟩)
      (.start [] (fun _ => []) fun _ => 0) [readPacket, readPacket]).map
        (fun s => s.results.map (·.iostatus)) = some [0x1D200, 0x1200] := by
    decide +kernel
  rw [hrun] at hstatus
  exact ⟨s, hrun, htruthful, Option.some.inj hstatus⟩

/-- An erase on a block device whose write fails. -/
theorem not_run_truthful :
    ¬∀ x buf ecc fid pkts s,
      Transition.run (packetStep x) (.start buf ecc fid) pkts = some s →
        ∀ r ∈ s.results, r.Truthful := by
  intro h
  have hrun : (Transition.run
      (packetStep ⟨.bdm, failsAt 0 1, fun _ => true, fun _ => ⟨0, 16, 16384⟩⟩)
      (.start [] (fun _ => []) fun _ => 0) [packetOf [[0x81, 0x21, 16, 0, 0, 0]]]).any
        (fun s => s.results.any fun r => r.failed && r.status == 0x1000) = true := by
    decide +kernel
  obtain ⟨s, hs, hany⟩ := Option.any_eq_true _ _ |>.mp hrun
  obtain ⟨r, hr, hbad⟩ := List.any_eq_true.mp hany
  obtain ⟨hfailed, hstatus⟩ := Bool.and_eq_true_iff.mp hbad
  have herror := (h _ _ _ _ _ s hs r hr).error hfailed
  exact absurd ((beq_iff_eq.mp hstatus).symm.trans herror) (by decide)

end Mce

end OpenPS2Loader
