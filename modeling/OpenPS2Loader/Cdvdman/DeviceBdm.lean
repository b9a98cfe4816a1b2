import Mathlib.Data.Nat.Notation
import Mathlib.Logic.Function.Basic
import Mathlib.Tactic.SplitIfs
import OpenPS2Loader.Lib.Transition

/-!
# The block device behind the disc

`cdvdman/device-bdm.c`: drivers announce block devices that come and go, and the one the game was
launched from is attached as `g_bd`. One semaphore stands for two things: that a device is
attached, and that nobody uses it. `bdm_connect_bd` signals it when it attaches a device, a
transfer takes it and signals it again, and `bdm_disconnect_bd` takes it for good.

`bdm_disconnect_bd` decides by the number and the driver of a device whether it takes the
semaphore, and by the pointer whether it detaches. Two block devices of one drive have the same
number, and a drive may be announced as gone twice: then the semaphore is taken and `g_bd` stays,
or the call waits for a device that is not there.

A step is a call up to its `WaitSema`, the moment a waiting thread gets the semaphore, or the rest
of a call behind it. A driver may find out inside of a transfer that its device is gone, and then
calls `bdm_disconnect_bd` in the thread that transfers.

## Main definitions

* `DeviceBdm.bdmMatchesLaunchDevice` — the device the game was launched from
* `DeviceBdm.step` — the threads, interleaved
* `DeviceBdm.Guarded` — the semaphore says what it stands for
* `DeviceBdm.Attached` — a step does not disconnect a device that matches and is not attached

## Main results

* `DeviceBdm.guarded_of_runOk` — in every run of `Attached` steps
* `DeviceBdm.not_guarded_partition` — a second partition of the attached drive goes away
-/

namespace OpenPS2Loader

namespace DeviceBdm

/-! ### The devices -/

/-- A `block_device`, with the address of the structure. A name is the bytes before its
terminator; without one it is a null pointer. -/
structure BlockDevice where
  addr : ℕ
  name : Option (List UInt8)
  devNr : UInt32
  parNr : UInt32
  deriving DecidableEq

/-- The launch device of `cdvdman_settings`, and whether the module was built with
`USE_BDM_ATA`. -/
structure Settings where
  bdDeviceId : UInt32
  bdDeviceDriver : List UInt8
  useBdmAta : Bool
  deriving DecidableEq

/-- `sizeof(cdvdman_settings.bdDeviceDriver)`. -/
def driverSize : ℕ := 16

/-- `bdm_is_ata_driver_name`. -/
def bdmIsAtaDriverName (name : Option (List UInt8)) : Bool := name == some [97, 116, 97]

/-- `bdm_is_ilink_driver_name`: `sd` or `ilink`. -/
def bdmIsIlinkDriverName (name : Option (List UInt8)) : Bool :=
  name == some [115, 100] || name == some [105, 108, 105, 110, 107]

/-- The last comparison, which is by the first bytes of both names. -/
def sameDriver (name driver : List UInt8) : Bool := name.take driverSize == driver.take driverSize

/-- `bdm_matches_launch_device` behind the tests for the ATA driver. -/
def bdmMatchesByNumber (cfg : Settings) (bd : BlockDevice) : Bool :=
  match bd.name with
  | none => false
  | some name =>
    if bd.devNr ≠ cfg.bdDeviceId then false
    else if bdmIsIlinkDriverName bd.name && bdmIsIlinkDriverName (some cfg.bdDeviceDriver) then true
    else sameDriver name cfg.bdDeviceDriver

/-- `bdm_matches_launch_device`. -/
def bdmMatchesLaunchDevice (cfg : Settings) (bd : BlockDevice) : Bool :=
  if cfg.bdDeviceDriver = [] then bd.devNr == cfg.bdDeviceId
  else if cfg.useBdmAta && bdmIsAtaDriverName bd.name then
    bdmIsAtaDriverName (some cfg.bdDeviceDriver)
  else bdmMatchesByNumber cfg bd

/-! ### The threads -/

/-- The calls that use the device while they hold the semaphore. -/
inductive Transfer
  /-- `DeviceReadSectors` -/
  | readSectors
  /-- `bdm_readSector` -/
  | readSector
  /-- `bdm_writeSector` -/
  | writeSector
  deriving DecidableEq

/-- Where a thread is. -/
inductive Place
  | idle
  /-- at the `WaitSema` of a transfer -/
  | transferWait (op : Transfer)
  /-- in the transfer, with what was in `g_bd` -/
  | transfer (op : Transfer) (bd : Option BlockDevice)
  /-- at the `WaitSema` of `DeviceFSInit` -/
  | fsWait
  /-- behind it -/
  | fsHeld
  /-- at the `WaitSema` of `bdm_disconnect_bd` -/
  | disconnectWait (bd : BlockDevice)
  /-- behind it -/
  | disconnectHeld (bd : BlockDevice)
  /-- at the `WaitSema` of a `bdm_disconnect_bd` that the driver calls inside of a transfer -/
  | nestedWait (op : Transfer) (bd : BlockDevice)
  deriving DecidableEq

/-- The thread is between its `WaitSema` and the end of its call. -/
def Place.inFlight : Place → Bool
  | .transfer .. => true
  | .fsHeld => true
  | .disconnectHeld _ => true
  | .nestedWait .. => true
  | _ => false

/-- The device the thread disconnects. -/
def Place.disconnects : Place → Option BlockDevice
  | .disconnectWait bd => some bd
  | .disconnectHeld bd => some bd
  | .nestedWait _ bd => some bd
  | _ => none

end DeviceBdm

open DeviceBdm in
/-- The variables of `device-bdm.c`, and where the threads are. -/
structure DeviceBdm where
  /-- the count of `bdm_io_sema`, which is at most 1 -/
  sema : Bool
  /-- `g_bd` -/
  attached : Option BlockDevice
  place : ℕ → Place

namespace DeviceBdm

/-- After `DeviceInit`. -/
def deviceInit : DeviceBdm := ⟨false, none, fun _ => .idle⟩

/-- A thread goes on elsewhere. -/
def setPlace (s : DeviceBdm) (t : ℕ) (p : Place) : DeviceBdm :=
  { s with place := Function.update s.place t p }

/-- `SignalSema`. -/
def signalSema (s : DeviceBdm) : DeviceBdm := { s with sema := true }

/-- `bdm_connect_bd`. -/
def bdmConnectBd (cfg : Settings) (s : DeviceBdm) (bd : BlockDevice) : DeviceBdm :=
  if s.attached = none ∧ bdmMatchesLaunchDevice cfg bd then
    { s with attached := some bd }.signalSema
  else s

/-- `bdm_disconnect_bd` up to its `WaitSema`. -/
def bdmDisconnectBd (cfg : Settings) (s : DeviceBdm) (t : ℕ) (bd : BlockDevice) : DeviceBdm :=
  if bdmMatchesLaunchDevice cfg bd then s.setPlace t (.disconnectWait bd) else s

/-- `if (g_bd == bd) g_bd = NULL`. -/
def detach (s : DeviceBdm) (bd : BlockDevice) : DeviceBdm :=
  if s.attached.map BlockDevice.addr = some bd.addr then { s with attached := none } else s

/-- `DeviceReadSectors` up to its `WaitSema`, or its return. -/
def deviceReadSectors (s : DeviceBdm) (t : ℕ) : DeviceBdm :=
  if s.attached = none then s else s.setPlace t (.transferWait .readSectors)

/-- A waiting thread gets the semaphore. Behind the one of a nested call, the device is detached
and the transfer goes on. -/
def acquired (s : DeviceBdm) (t : ℕ) : Place → Option DeviceBdm
  | .transferWait op => some (s.setPlace t (.transfer op s.attached))
  | .fsWait => some (s.setPlace t .fsHeld)
  | .disconnectWait bd => some (s.setPlace t (.disconnectHeld bd))
  | .nestedWait op bd => some ((s.detach bd).setPlace t (.transfer op (some bd)))
  | _ => none

/-- `WaitSema` returns. -/
def acquire (s : DeviceBdm) (t : ℕ) : Option DeviceBdm :=
  if s.sema then acquired { s with sema := false } t (s.place t) else none

/-- The rest of a call. -/
def finish (s : DeviceBdm) (t : ℕ) : Place → Option DeviceBdm
  | .transfer .. => some (s.signalSema.setPlace t .idle)
  | .fsHeld => some (s.signalSema.setPlace t .idle)
  | .disconnectHeld bd => some ((s.detach bd).setPlace t .idle)
  | _ => none

/-- Inside of a transfer, the driver gives its device up. -/
def giveUp (cfg : Settings) (s : DeviceBdm) (t : ℕ) : Place → Option DeviceBdm
  | .transfer op (some bd) =>
    if bdmMatchesLaunchDevice cfg bd then some (s.setPlace t (.nestedWait op bd)) else some s
  | _ => none

/-- What the threads do. -/
inductive Event
  | connect (bd : BlockDevice)
  | disconnect (t : ℕ) (bd : BlockDevice)
  | readSectors (t : ℕ)
  | readSector (t : ℕ)
  | writeSector (t : ℕ)
  | fsInit (t : ℕ)
  | acquire (t : ℕ)
  | finish (t : ℕ)
  | giveUp (t : ℕ)
  deriving DecidableEq

/-- A thread makes one call at a time. -/
def whenIdle (s : DeviceBdm) (t : ℕ) (call : DeviceBdm) : Option DeviceBdm :=
  if s.place t = .idle then some call else none

/-- A step of one thread. -/
def step (cfg : Settings) (s : DeviceBdm) : Event → Option DeviceBdm
  | .connect bd => some (s.bdmConnectBd cfg bd)
  | .disconnect t bd => s.whenIdle t (s.bdmDisconnectBd cfg t bd)
  | .readSectors t => s.whenIdle t (s.deviceReadSectors t)
  | .readSector t => s.whenIdle t (s.setPlace t (.transferWait .readSector))
  | .writeSector t => s.whenIdle t (s.setPlace t (.transferWait .writeSector))
  | .fsInit t => s.whenIdle t (s.setPlace t .fsWait)
  | .acquire t => s.acquire t
  | .finish t => s.finish t (s.place t)
  | .giveUp t => s.giveUp cfg t (s.place t)

/-! ### The semaphore and the device -/

/-- The semaphore says that a device is attached and nobody uses it; who uses it uses the attached
one, alone; and who disconnects waits for nothing else. -/
structure Guarded (s : DeviceBdm) : Prop where
  available : s.sema = true ↔ s.attached ≠ none ∧ ∀ t, (s.place t).inFlight = false
  alone : ∀ t u, (s.place t).inFlight = true → (s.place u).inFlight = true → t = u
  uses : ∀ t op bd, s.place t = .transfer op bd → bd = s.attached ∧ s.attached ≠ none
  disconnects : ∀ t bd, (s.place t).disconnects = some bd → s.attached = some bd

/-- A step does not disconnect a device that matches and is not attached, and no two calls
disconnect at a time. -/
def Attached (cfg : Settings) (s : DeviceBdm) : Event → Prop
  | .disconnect _ bd => bdmMatchesLaunchDevice cfg bd = true →
      s.attached = some bd ∧ ∀ u, (s.place u).disconnects = none
  | .giveUp _ => ∀ u, (s.place u).disconnects = none
  | _ => True

/-- What holds in a run of such steps. -/
structure Owned (s : DeviceBdm) : Prop extends Guarded s where
  held : ∀ t, (s.place t).inFlight = true → s.attached ≠ none
  one : ∀ t u, (s.place t).disconnects ≠ none → (s.place u).disconnects ≠ none → t = u

variable {cfg : Settings} {s s' : DeviceBdm} {t : ℕ}

theorem owned_deviceInit : Owned deviceInit where
  available := by simp [deviceInit]
  alone _ _ h _ := by simp [deviceInit, Place.inFlight] at h
  uses _ _ _ h := by simp [deviceInit] at h
  disconnects _ _ h := by simp [deviceInit, Place.disconnects] at h
  held _ h := by simp [deviceInit, Place.inFlight] at h
  one _ _ h _ := by simp [deviceInit, Place.disconnects] at h

@[simp] theorem setPlace_sema (s : DeviceBdm) (t : ℕ) (p : Place) :
    (s.setPlace t p).sema = s.sema := rfl

@[simp] theorem setPlace_attached (s : DeviceBdm) (t : ℕ) (p : Place) :
    (s.setPlace t p).attached = s.attached := rfl

@[simp] theorem place_setPlace_self (s : DeviceBdm) (t : ℕ) (p : Place) :
    (s.setPlace t p).place t = p := Function.update_self _ _ _

theorem place_setPlace_of_ne {u : ℕ} (hu : u ≠ t) (p : Place) :
    (s.setPlace t p).place u = s.place u := Function.update_of_ne hu _ _

/-- Each place has a property when the new one has it and the others had it. -/
theorem forall_setPlace_iff {P : ℕ → Place → Prop} {p : Place} :
    (∀ u, P u ((s.setPlace t p).place u)) ↔ P t p ∧ ∀ u, u ≠ t → P u (s.place u) := by
  constructor
  · intro h
    refine ⟨?_, fun u hu => ?_⟩
    · have ht := h t
      rwa [place_setPlace_self] at ht
    · have hother := h u
      rwa [place_setPlace_of_ne hu] at hother
  · rintro ⟨hself, hothers⟩ u
    rcases eq_or_ne u t with rfl | hu
    · rwa [place_setPlace_self]
    · rw [place_setPlace_of_ne hu]
      exact hothers u hu

/-- At most one place has a property that no other had when the new one has it. -/
theorem unique_setPlace {P : Place → Prop} {p : Place}
    (h : ∀ u v, P (s.place u) → P (s.place v) → u = v)
    (hp : P p → ∀ u, u ≠ t → ¬P (s.place u)) {u v : ℕ} (hu : P ((s.setPlace t p).place u))
    (hv : P ((s.setPlace t p).place v)) : u = v := by
  rcases eq_or_ne u t with rfl | hut
  · by_contra hne
    rw [place_setPlace_self] at hu
    rw [place_setPlace_of_ne (Ne.symm hne)] at hv
    exact hp hu v (Ne.symm hne) hv
  rw [place_setPlace_of_ne hut] at hu
  rcases eq_or_ne v t with rfl | hvt
  · rw [place_setPlace_self] at hv
    exact absurd hu (hp hv u hut)
  · rw [place_setPlace_of_ne hvt] at hv
    exact h u v hu hv

/-- A place suits a thread: it uses or disconnects the attached device only, and nobody else
disconnects when it does. -/
structure Suits (s : DeviceBdm) (t : ℕ) (p : Place) : Prop where
  uses : ∀ op bd, p = .transfer op bd → bd = s.attached
  disconnects : ∀ bd, p.disconnects = some bd → s.attached = some bd
  one : p.disconnects ≠ none → ∀ u, u ≠ t → (s.place u).disconnects = none

/-- A thread goes on to a place that suits it, and the semaphore is right afterwards. -/
theorem Owned.setPlace {p : Place} {sema : Bool} (h : Owned s) (hp : Suits s t p)
    (halone : p.inFlight = true → ∀ u, u ≠ t → (s.place u).inFlight = false)
    (hheld : p.inFlight = true → s.attached ≠ none)
    (hsema : sema = true ↔ s.attached ≠ none ∧ p.inFlight = false ∧
      ∀ u, u ≠ t → (s.place u).inFlight = false) :
    Owned ({ s with sema := sema }.setPlace t p) where
  available := hsema.trans
    (and_congr_right fun _ => (forall_setPlace_iff (P := fun _ p => p.inFlight = false)).symm)
  alone _ _ hu hv := unique_setPlace (P := fun p => p.inFlight = true) h.alone
    (fun hin u hu => by rw [halone hin u hu]; exact Bool.false_ne_true) hu hv
  uses := (forall_setPlace_iff (P := fun _ p => ∀ op bd, p = .transfer op bd →
      bd = s.attached ∧ s.attached ≠ none)).mpr
    ⟨fun op bd hu => ⟨hp.uses op bd hu, hheld (by rw [hu]; rfl)⟩, fun u _ => h.uses u⟩
  disconnects := (forall_setPlace_iff (P := fun _ p => ∀ bd, p.disconnects = some bd →
      s.attached = some bd)).mpr ⟨hp.disconnects, fun u _ => h.disconnects u⟩
  held := (forall_setPlace_iff (P := fun _ p => p.inFlight = true → s.attached ≠ none)).mpr
    ⟨hheld, fun u _ => h.held u⟩
  one _ _ hu hv := unique_setPlace (P := fun p => p.disconnects ≠ none) h.one
    (fun hdis u hu => not_not.mpr (hp.one hdis u hu)) hu hv

/-- A place without a device suits everybody. -/
theorem suits_of_none {p : Place} (huses : ∀ op bd, p ≠ .transfer op bd)
    (hdis : p.disconnects = none) : Suits s t p where
  uses op bd hp := absurd hp (huses op bd)
  disconnects bd hp := by
    rw [hdis] at hp
    cases hp
  one hp := absurd hdis hp

/-- The semaphore is not touched: the thread is in flight afterwards if it was before. -/
theorem Owned.move {p : Place} (h : Owned s) (hp : Suits s t p)
    (hflight : p.inFlight = (s.place t).inFlight) : Owned (s.setPlace t p) := by
  refine @Owned.setPlace s t p s.sema h hp (fun hin u hu => ?_) (fun hin => ?_) ?_
  · rw [hflight] at hin
    by_contra hother
    exact hu (h.alone u t (by simpa using hother) hin)
  · exact h.held t (hflight ▸ hin)
  · rw [h.available, hflight]
    exact and_congr_right fun _ => ⟨fun hall => ⟨hall t, fun u _ => hall u⟩,
      fun ⟨hself, hothers⟩ u => (eq_or_ne u t).elim (fun hu => hu ▸ hself) (hothers u)⟩

/-- The thread gets the semaphore. -/
theorem Owned.take {p : Place} (h : Owned s) (hsema : s.sema = true) (hp : Suits s t p)
    (hin : p.inFlight = true) : Owned ({ s with sema := false }.setPlace t p) := by
  obtain ⟨hattached, hfree⟩ := h.available.mp hsema
  refine h.setPlace hp (fun _ u _ => hfree u) (fun _ => hattached) ?_
  simp [hin]

/-- The thread gives the semaphore back. -/
theorem Owned.give (h : Owned s) (hin : (s.place t).inFlight = true) :
    Owned (s.signalSema.setPlace t .idle) := by
  refine h.setPlace (suits_of_none nofun rfl) nofun nofun ?_
  refine iff_of_true rfl ⟨h.held t hin, rfl, fun u hu => ?_⟩
  by_contra hother
  exact hu (h.alone u t (by simpa using hother) hin)

/-- The attached device is detached by the thread that holds the semaphore. -/
theorem Owned.detached {bd : BlockDevice} (h : Owned s) (ht : s.place t = .disconnectHeld bd) :
    Owned ((s.detach bd).setPlace t .idle) := by
  have hattached : s.attached = some bd := h.disconnects t bd (by rw [ht]; rfl)
  have hsema : s.sema = false := by
    by_contra hsema
    have hfree := (h.available.mp (by simpa using hsema)).2 t
    rw [ht] at hfree
    cases hfree
  have hflight : ∀ u, u ≠ t → (s.place u).inFlight = false := fun u hu => by
    by_contra hother
    exact hu (h.alone u t (by simpa using hother) (by rw [ht]; rfl))
  have hdis : ∀ u, u ≠ t → (s.place u).disconnects = none := fun u hu => by
    by_contra hother
    exact hu (h.one u t hother (by rw [ht]; nofun))
  have hplace : ∀ u, (((s.detach bd).setPlace t .idle).place u).inFlight = false ∧
      (((s.detach bd).setPlace t .idle).place u).disconnects = none := fun u => by
    rw [detach, if_pos (by rw [hattached]; rfl)]
    rcases eq_or_ne u t with rfl | hu
    · rw [place_setPlace_self]
      exact ⟨rfl, rfl⟩
    · rw [place_setPlace_of_ne hu]
      exact ⟨hflight u hu, hdis u hu⟩
  refine ⟨⟨?_, fun u v hu => ?_, fun u op x hu => ?_, fun u x hu => ?_⟩, fun u hu => ?_,
    fun u v hu => ?_⟩
  · rw [detach, if_pos (by rw [hattached]; rfl)]
    simp [hsema]
  · rw [(hplace u).1] at hu
    cases hu
  · have hin := (hplace u).1
    rw [hu] at hin
    cases hin
  · rw [(hplace u).2] at hu
    cases hu
  · rw [(hplace u).1] at hu
    cases hu
  · exact absurd (hplace u).2 hu

/-- A device is attached where there was none. -/
theorem Owned.connected {bd : BlockDevice} (h : Owned s) (hnone : s.attached = none) :
    Owned { s with attached := some bd }.signalSema := by
  have hflight : ∀ u, (s.place u).inFlight = false := fun u => by
    by_contra hother
    exact h.held u (by simpa using hother) hnone
  have hdis : ∀ u, (s.place u).disconnects = none := fun u => by
    by_contra hother
    obtain ⟨x, hx⟩ := Option.ne_none_iff_exists'.mp hother
    rw [h.disconnects u x hx] at hnone
    cases hnone
  exact
    { available := iff_of_true rfl ⟨nofun, hflight⟩
      alone := h.alone
      uses := fun u op x hu => absurd hnone (h.uses u op x hu).2
      disconnects := fun u x hu => absurd ((hdis u).symm.trans hu) nofun
      held := fun _ _ => nofun
      one := h.one }

theorem whenIdle_eq_some {call : DeviceBdm} (h : s.whenIdle t call = some s') :
    s.place t = .idle ∧ s' = call := by
  rw [whenIdle] at h
  split_ifs at h with hidle
  exact ⟨hidle, (Option.some.inj h).symm⟩

theorem owned_acquire (h : Owned s) (hs : s.acquire t = some s') : Owned s' := by
  rw [acquire] at hs
  split_ifs at hs with hsema
  obtain ⟨hattached, hfree⟩ := h.available.mp hsema
  cases hplace : s.place t with
  | idle =>
    rw [hplace] at hs
    cases hs
  | transferWait op =>
    rw [hplace] at hs
    cases hs
    refine h.take hsema ⟨fun op' bd hp => ?_, nofun, fun hp => absurd rfl hp⟩ rfl
    cases hp
    rfl
  | transfer op bd =>
    rw [hplace] at hs
    cases hs
  | fsWait =>
    rw [hplace] at hs
    cases hs
    exact h.take hsema (suits_of_none nofun rfl) rfl
  | fsHeld =>
    rw [hplace] at hs
    cases hs
  | disconnectWait bd =>
    rw [hplace] at hs
    cases hs
    have hdis : (s.place t).disconnects = some bd := by rw [hplace]; rfl
    refine h.take hsema ⟨nofun, fun bd' hp => ?_, fun _ u hu => ?_⟩ rfl
    · cases hp
      exact h.disconnects t bd hdis
    · by_contra hother
      exact hu (h.one u t hother (by rw [hdis]; nofun))
  | disconnectHeld bd =>
    rw [hplace] at hs
    cases hs
  | nestedWait op bd =>
    -- the thread holds the semaphore it waits for
    have hin := hfree t
    rw [hplace] at hin
    cases hin

theorem owned_finish (h : Owned s) (hs : s.finish t (s.place t) = some s') : Owned s' := by
  cases hplace : s.place t with
  | transfer op bd =>
    rw [hplace] at hs
    cases hs
    exact h.give (by rw [hplace]; rfl)
  | fsHeld =>
    rw [hplace] at hs
    cases hs
    exact h.give (by rw [hplace]; rfl)
  | disconnectHeld bd =>
    rw [hplace] at hs
    cases hs
    exact h.detached hplace
  | idle | transferWait _ | fsWait | disconnectWait _ | nestedWait _ _ =>
    rw [hplace] at hs
    cases hs

theorem owned_giveUp (h : Owned s) (hok : ∀ u, (s.place u).disconnects = none)
    (hs : s.giveUp cfg t (s.place t) = some s') : Owned s' := by
  cases hplace : s.place t with
  | transfer op x =>
    rw [hplace] at hs
    cases x with
    | none => cases hs
    | some bd =>
      rw [giveUp] at hs
      split_ifs at hs
      · cases hs
        obtain ⟨hattached, -⟩ := h.uses t op (some bd) hplace
        refine h.move ⟨nofun, fun bd' hp => ?_, fun _ u _ => hok u⟩ (by rw [hplace]; rfl)
        cases hp
        exact hattached.symm
      · cases hs
        exact h
  | idle | transferWait _ | fsWait | fsHeld | disconnectWait _ | disconnectHeld _
  | nestedWait _ _ =>
    rw [hplace] at hs
    cases hs

theorem owned_step {e : Event} (h : Owned s) (hok : Attached cfg s e)
    (hs : step cfg s e = some s') : Owned s' := by
  cases e with
  | connect bd =>
    cases hs
    rw [bdmConnectBd]
    split_ifs with hnone
    · exact h.connected hnone.1
    · exact h
  | disconnect t bd =>
    obtain ⟨hidle, rfl⟩ := whenIdle_eq_some hs
    rw [bdmDisconnectBd]
    split_ifs with hmatch
    · obtain ⟨hattached, hnobody⟩ := hok hmatch
      refine h.move ⟨nofun, fun bd' hp => ?_, fun _ u _ => hnobody u⟩ (by rw [hidle]; rfl)
      cases hp
      exact hattached
    · exact h
  | readSectors t =>
    obtain ⟨hidle, rfl⟩ := whenIdle_eq_some hs
    rw [deviceReadSectors]
    split_ifs
    · exact h
    · exact h.move (suits_of_none nofun rfl) (by rw [hidle]; rfl)
  | readSector t =>
    obtain ⟨hidle, rfl⟩ := whenIdle_eq_some hs
    exact h.move (suits_of_none nofun rfl) (by rw [hidle]; rfl)
  | writeSector t =>
    obtain ⟨hidle, rfl⟩ := whenIdle_eq_some hs
    exact h.move (suits_of_none nofun rfl) (by rw [hidle]; rfl)
  | fsInit t =>
    obtain ⟨hidle, rfl⟩ := whenIdle_eq_some hs
    exact h.move (suits_of_none nofun rfl) (by rw [hidle]; rfl)
  | acquire t => exact owned_acquire h hs
  | finish t => exact owned_finish h hs
  | giveUp t => exact owned_giveUp h hok hs

/-! ### The runs -/

/-- **The semaphore is available exactly when a device is attached and nobody uses it**, and
nobody uses another device, in every state of a run in which nobody disconnects a device that
matches without being attached. -/
theorem guarded_of_runOk {es : List Event} (hrun : Transition.run (step cfg) deviceInit es = some s)
    (hok : Transition.RunOk (step cfg) (Attached cfg) deviceInit es) : Guarded s :=
  (Transition.run_invariant_of_runOk (fun _ _ _ h hok hs => owned_step h hok hs) owned_deviceInit
    hok hrun).toGuarded

/-- The game was launched from the USB drive 0. -/
def usbLaunch : Settings := ⟨0, [117, 115, 98], false⟩

/-- A partition of that drive. -/
def usbPartition (addr : ℕ) (parNr : UInt32) : BlockDevice :=
  ⟨addr, some [117, 115, 98], 0, parNr⟩

/-- The drive is pulled out and comes back, and a thread waits for it meanwhile. -/
def pulledOutRun : List Event :=
  [.connect (usbPartition 1 1), .disconnect 0 (usbPartition 1 1), .readSector 1, .acquire 0,
    .finish 0, .connect (usbPartition 1 1), .acquire 1]

theorem guarded_pulledOut :
    ∃ s, Transition.run (step usbLaunch) deviceInit pulledOutRun = some s ∧
      Transition.RunOk (step usbLaunch) (Attached usbLaunch) deviceInit pulledOutRun ∧
      Guarded s := by
  have hsome : (Transition.run (step usbLaunch) deviceInit pulledOutRun).isSome = true := by decide
  obtain ⟨s, hs⟩ := Option.isSome_iff_exists.mp hsome
  have hok : Transition.RunOk (step usbLaunch) (Attached usbLaunch) deviceInit pulledOutRun :=
    ⟨trivial, fun _ => ⟨rfl, fun _ => rfl⟩, trivial, trivial, trivial, trivial, trivial, trivial⟩
  exact ⟨s, hs, hok, guarded_of_runOk hs hok⟩

/-- The second partition of the attached drive goes away: the call takes the semaphore, the device
stays attached, and every later transfer waits. -/
theorem not_guarded_partition :
    ¬ ∀ (cfg : Settings) (es : List Event) (s : DeviceBdm),
      Transition.run (step cfg) deviceInit es = some s → Guarded s := by
  intro hall
  have hguarded := hall usbLaunch [.connect (usbPartition 1 1), .connect (usbPartition 2 2),
    .disconnect 0 (usbPartition 2 2), .acquire 0, .finish 0] _ rfl
  have hsema := hguarded.available.mpr ⟨nofun, fun t => ?_⟩
  · cases hsema
  · rcases eq_or_ne t 0 with rfl | ht
    · rfl
    · rw [place_setPlace_of_ne ht, detach, if_neg (by decide), place_setPlace_of_ne ht]
      change ((setPlace _ 0 _).place t).inFlight = false
      rw [place_setPlace_of_ne ht]
      rfl

end DeviceBdm

end OpenPS2Loader
