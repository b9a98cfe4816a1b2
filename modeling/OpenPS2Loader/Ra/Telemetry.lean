import OpenPS2Loader.Lib.Transition
import OpenPS2Loader.Ra.Packets

/-!
# Telemetry from end to end

The two sides together: `RA_OnVblank` takes a snapshot each frame and the DMA puts it into the
buffer of the IOP, and the thread of `raudp.c` sends what is there. Transfers are whole here;
`OpenPS2Loader.Ra.Tear` is about those that are not.

## Main definitions

* `Telemetry.System`, `Telemetry.step` — both sides, frame by frame and poll by poll

## Main results

* `Telemetry.run_encodes` — nothing is written outside a buffer, and the packets of each snapshot
  carry the values of the watched addresses
-/

namespace OpenPS2Loader

namespace Telemetry

open Bytes

/-- `RA_START_DELAY` -/
def startDelay : ℕ := 600

/-- `RA_OnVblank`, without the overlay. -/
def Ee.onVblank (ee : Ee) (f : Frame) : Option (Ee × Option (List UInt8)) :=
  if (ee.frames + 1) % 2 ^ 32 ≤ startDelay then
    some ({ ee with frames := (ee.frames + 1) % 2 ^ 32 }, none)
  else Ee.snapSend { ee with frames := (ee.frames + 1) % 2 ^ 32 } f

structure System where
  ee : Ee
  /-- the snapshot buffer, `RA_SNAP_TOTAL` bytes of the IOP heap -/
  iop : List UInt8
  raudp : Raudp
  /-- the memory of the game when the snapshot in the buffer was taken -/
  mem : Option (ℕ → UInt8)
  /-- the packets of each call that sent a snapshot, with the memory it was taken from -/
  sent : List ((ℕ → UInt8) × List (List UInt8))

inductive Event
  | vblank (f : Frame)
  | poll (p : Poll)

/-- The snapshot that was sent lands in the buffer. -/
def System.land (s : System) (ee : Ee) (mem : ℕ → UInt8) : Option (List UInt8) → Option System
  | none => some { s with ee }
  | some b => (store s.iop 0 b).map fun iop => { s with ee, iop, mem := some mem }

/-- The packets are recorded with the memory of their snapshot. -/
def System.record (s : System) (r : Raudp) (busy : Bool) (ps : List (List UInt8)) : System :=
  match s.mem with
  | none => { s with raudp := r }
  | some mem => { s with raudp := r, sent := if busy then s.sent else s.sent ++ [(mem, ps)] }

def step (a : Addrs) (s : System) : Event → Option System
  | .vblank f => (s.ee.onVblank f).bind fun t => s.land t.1 f.mem t.2
  | .poll p => (s.raudp.sendOne a (some s.iop) p).map fun t => s.record t.1 p.busy t.2

/-- What is there when the game starts: the serial of the game on both sides, the link, and the
bytes the IOP heap gives. -/
structure Platform where
  addrs : Addrs
  gameId : ℕ → UInt8
  serial : ℕ → UInt8
  media : Media
  fdx : Bool
  garbage : List UInt8
  garbage_length : garbage.length = snapTotal

/-- Both sides when the game starts, with the watch list of the loader. -/
def start (c : Platform) (w : WatchList) : Option System :=
  (raudpStart.frameInit c.serial c.media c.fdx).map fun r =>
    { ee := ⟨(setupWatchList w).1, (setupWatchList w).2, c.gameId, true,
        List.replicate snapTotal 0, 0, 0, 0, 0, 0⟩
      iop := c.garbage, raudp := r, mem := none, sent := [] }

/-- What holds between two events, for the entries `es`. -/
structure System.Inv (es : List ℕ) (s : System) : Prop where
  ee : s.ee.Ready
  watch : s.ee.watch = es
  iop : s.iop.length = snapTotal
  raudp : s.raudp.Ready
  mem : ∀ mem ∈ s.mem, Carries (values mem es) s.iop
  sent : ∀ q ∈ s.sent, Encodes (values q.1 es) q.2

theorem Ee.exists_onVblank {ee : Ee} (h : ee.Ready) (f : Frame) :
    ∃ ee' t, ee.onVblank f = some (ee', t) ∧ ee'.Ready ∧ ee'.watch = ee.watch ∧
      ∀ b ∈ t, b.length ≤ snapTotal ∧
        ∀ iop : List UInt8, Carries (values f.mem ee.watch) (overwrite iop 0 b) := by
  have hready : Ee.Ready { ee with frames := (ee.frames + 1) % 2 ^ 32 } :=
    ⟨h.buf, h.bytes_pos, h.bytes_le, h.consistent⟩
  rw [onVblank]
  split_ifs
  · exact ⟨_, none, rfl, hready, rfl, fun b hb => by cases hb⟩
  · exact Ee.exists_snapSend hready f

theorem System.Inv.record {es : List ℕ} {s : System} (h : s.Inv es) {r : Raudp} (hr : r.Ready)
    {busy : Bool} {ps : List (List UInt8)}
    (hps : ∀ mem ∈ s.mem, busy = false → Encodes (values mem es) ps) :
    (s.record r busy ps).Inv es := by
  rw [System.record]
  split
  next => exact ⟨h.ee, h.watch, h.iop, hr, h.mem, h.sent⟩
  next mem hmem =>
    refine ⟨h.ee, h.watch, h.iop, hr, h.mem, fun q hq => ?_⟩
    dsimp only at hq
    split_ifs at hq with hbusy
    · exact h.sent q hq
    · obtain hq | hq := List.mem_append.mp hq
      · exact h.sent q hq
      · obtain rfl := List.mem_singleton.mp hq
        exact hps mem hmem (Bool.eq_false_iff.mpr hbusy)

/-- An event keeps the invariant, and stays in its buffers. -/
theorem System.Inv.exists_step {es : List ℕ} {s : System} (h : s.Inv es) (a : Addrs) (e : Event) :
    ∃ s', step a s e = some s' ∧ s'.Inv es := by
  cases e with
  | vblank f =>
    obtain ⟨ee, t, ht, hready, hwatch, hcarries⟩ := s.ee.exists_onVblank h.ee f
    rw [step, ht, Option.bind_some]
    cases t with
    | none => exact ⟨_, rfl, hready, hwatch.trans h.watch, h.iop, h.raudp, h.mem, h.sent⟩
    | some b =>
      obtain ⟨hlen, hb⟩ := hcarries b rfl
      have hfit : 0 + b.length ≤ s.iop.length := by
        rw [h.iop, Nat.zero_add]
        exact hlen
      refine ⟨{ s with ee, iop := overwrite s.iop 0 b, mem := some f.mem }, ?_, hready,
        hwatch.trans h.watch, (length_overwrite hfit).trans h.iop, h.raudp, ?_, h.sent⟩
      · dsimp only
        rw [land, store_of_le hfit, Option.map_some]
      · intro mem hmem
        obtain rfl := Option.mem_some.mp hmem
        rw [← h.watch]
        exact hb s.iop
  | poll p =>
    have hsnap : ∀ b ∈ some s.iop, b.length = snapTotal := by
      intro b hb
      obtain rfl := Option.mem_some.mp hb
      exact h.iop
    obtain ⟨r, ps, hr, hready, hencodes⟩ := s.raudp.exists_sendOne h.raudp a hsnap p
    refine ⟨s.record r p.busy ps, by rw [step, hr, Option.map_some], h.record hready ?_⟩
    intro mem hmem hfree
    have hlen : (values mem es).length = s.ee.bytes := by
      rw [length_values, ← h.watch, h.ee.consistent.sum]
    exact hencodes s.iop rfl _ (hlen ▸ h.ee.bytes_pos) (hlen ▸ h.ee.bytes_le) (h.mem mem hmem) hfree

/-- **Telemetry from end to end.** The loader accepts a watch list whose entries have one, two or
four bytes and whose header says how many they are together. Then no frame and no poll writes
outside a buffer, and the packets of every snapshot carry the values of the watched addresses, in
the order of the list. -/
theorem run_encodes (c : Platform) (w : WatchList) (d : List UInt8) (startup : Option (List UInt8))
    (haccepted : 0 ≤ (setWatchList w (some d) startup).2)
    (hsize : ∀ e ∈ entriesOf d (wordAt d 8), watchSize e = 1 ∨ watchSize e = 2 ∨ watchSize e = 4)
    (hsum : ((entriesOf d (wordAt d 8)).map watchSize).sum = wordAt d 12) (es : List Event) :
    ∃ s t, start c (setWatchList w (some d) startup).1 = some s ∧
      Transition.run (step c.addrs) s es = some t ∧
      ∀ q ∈ t.sent, Encodes (values q.1 (entriesOf d (wordAt d 8))) q.2 := by
  obtain ⟨d', hd', -, hpos, hle, hsetup⟩ := setupWatchList_eq haccepted
  obtain rfl := Option.some.inj hd'
  obtain ⟨r, hr, hready⟩ := raudpStart.exists_frameInit (List.length_replicate ..)
    (List.length_replicate ..) c.serial c.media c.fdx
  have hstart : start c (setWatchList w (some d) startup).1 = some
      { ee := ⟨entriesOf d (wordAt d 8), wordAt d 12, c.gameId, true, List.replicate snapTotal 0,
          0, 0, 0, 0, 0⟩
        iop := c.garbage, raudp := r, mem := none, sent := [] } := by
    rw [start, hr, hsetup, Option.map_some]
  have hinv : System.Inv (entriesOf d (wordAt d 8))
      { ee := ⟨entriesOf d (wordAt d 8), wordAt d 12, c.gameId, true, List.replicate snapTotal 0,
          0, 0, 0, 0, 0⟩
        iop := c.garbage, raudp := r, mem := none, sent := [] } :=
    ⟨⟨List.length_replicate .., hpos, hle, ⟨hsize, hsum⟩⟩, rfl, c.garbage_length, hready,
      (fun mem hmem => by cases hmem), (fun q hq => by cases hq)⟩
  have hstep : ∀ s e, System.Inv (entriesOf d (wordAt d 8)) s → True →
      ∃ s', step c.addrs s e = some s' ∧ s'.Inv (entriesOf d (wordAt d 8)) :=
    fun s e h _ => h.exists_step c.addrs e
  have hok : ∀ e ∈ es, True := fun _ _ => trivial
  obtain ⟨t, ht, hinv'⟩ := Transition.run_total hstep hinv hok
  exact ⟨_, t, hstart, ht, hinv'.sent⟩

/-- A word at `0x100` and a byte at `0x200`. -/
def twoEntries : List UInt8 :=
  toLe 4 watchMagic ++ toLe 4 watchVersion ++ toLe 4 2 ++ toLe 4 5 ++ toLe 4 0x40000100 ++
    toLe 4 0x10000200

def quietPlatform : Platform :=
  ⟨⟨16, 0, 0⟩, fun _ => 0, fun _ => 0, .m100, true, List.replicate snapTotal 0,
    List.length_replicate⟩

/-- Until the start delay is over, a frame is only counted. -/
theorem run_delay (a : Addrs) (f : Frame) {n : ℕ} {s : System} (hn : s.ee.frames + n ≤ startDelay) :
    Transition.run (step a) s (List.replicate n (.vblank f)) =
      some { s with ee := { s.ee with frames := s.ee.frames + n } } := by
  induction n generalizing s with
  | zero => rfl
  | succ n ih =>
    rw [startDelay] at hn
    have hmod : (s.ee.frames + 1) % 2 ^ 32 = s.ee.frames + 1 := by omega
    have hstep : step a s (.vblank f) =
        some { s with ee := { s.ee with frames := s.ee.frames + 1 } } := by
      rw [step, Ee.onVblank, hmod, if_pos (by rw [startDelay]; omega)]
      rfl
    rw [List.replicate_succ, Transition.run_cons, hstep, Option.bind_some,
      ih (by rw [startDelay]; change s.ee.frames + 1 + n ≤ 600; omega)]
    rw [Nat.add_assoc, Nat.add_comm 1 n]

/-- A frame after the delay and a poll send one snapshot. -/
theorem exists_sent {s t : System} (a : Addrs) {f : Frame} {p : Poll}
    (hframes : s.ee.frames = startDelay) (hiop : s.ee.iop = true) (hwatch : s.ee.watch ≠ [])
    (hfree : f.inFlight = false) (hid : f.dmaId ≠ 0) (hbusy : p.busy = false)
    (hrun : Transition.run (step a) s [.vblank f, .poll p] = some t) :
    ∃ ps, t.sent = s.sent ++ [(f.mem, ps)] := by
  obtain ⟨s₁, hs₁, hrest⟩ := Transition.run_cons_eq_some.mp hrun
  obtain ⟨s₂, hs₂, hnil⟩ := Transition.run_cons_eq_some.mp hrest
  obtain rfl : s₂ = t := Option.some.inj hnil
  have hmem : s₁.mem = some f.mem ∧ s₁.sent = s.sent := by
    rw [step] at hs₁
    obtain ⟨⟨ee, sent⟩, hee, hland⟩ := Option.bind_eq_some_iff.mp hs₁
    rw [Ee.onVblank, hframes, if_neg (by decide), Ee.snapSend, if_neg (by simp [hiop, hwatch]),
      if_neg (by simp [hfree])] at hee
    obtain ⟨b, -, hb⟩ := Option.map_eq_some_iff.mp hee
    rw [if_neg hid] at hb
    obtain ⟨-, rfl⟩ := Prod.mk.inj hb
    obtain ⟨iop, -, rfl⟩ := Option.map_eq_some_iff.mp hland
    exact ⟨rfl, rfl⟩
  obtain ⟨⟨r, ps⟩, -, rfl⟩ := Option.map_eq_some_iff.mp hs₂
  refine ⟨ps, ?_⟩
  rw [System.record, hmem.1, ← hmem.2, hbusy]
  rfl

/-- A list of two entries, frames until the delay is over and one more, and a poll: one snapshot is
sent. -/
theorem run_encodes_twoEntries :
    0 ≤ (setWatchList ⟨[], 0, 0, []⟩ (some twoEntries) (some [])).2 ∧
      ∃ s t, start quietPlatform
          (setWatchList ⟨[], 0, 0, []⟩ (some twoEntries) (some [])).1 = some s ∧
        Transition.run (step quietPlatform.addrs) s
          (List.replicate 600 (.vblank ⟨fun _ => 0, false, 1⟩) ++
            [.vblank ⟨fun i => UInt8.ofNat i, false, 1⟩, .poll ⟨false, 0, 100, fun _ => 0⟩]) =
              some t ∧
        (t.sent.map fun q => values q.1 (entriesOf twoEntries (wordAt twoEntries 8))) =
          [[0, 1, 2, 3, 0]] ∧
        ∀ q ∈ t.sent, Encodes (values q.1 (entriesOf twoEntries (wordAt twoEntries 8))) q.2 := by
  obtain ⟨s, t, hs, hrun, hsent⟩ := run_encodes quietPlatform ⟨[], 0, 0, []⟩ twoEntries (some [])
    (by decide) (by decide) (by decide)
    (List.replicate 600 (.vblank ⟨fun _ => 0, false, 1⟩) ++
      [.vblank ⟨fun i => UInt8.ofNat i, false, 1⟩, .poll ⟨false, 0, 100, fun _ => 0⟩])
  refine ⟨by decide, s, t, hs, hrun, ?_, hsent⟩
  have hwatch :
      (setupWatchList (setWatchList ⟨[], 0, 0, []⟩ (some twoEntries) (some [])).1).1 ≠ [] := by
    decide
  obtain ⟨r, -, rfl⟩ := Option.map_eq_some_iff.mp hs
  rw [Transition.run_append, run_delay _ _ (by exact Nat.le_refl 600), Option.bind_some] at hrun
  obtain ⟨ps, hps⟩ := exists_sent _ rfl rfl hwatch rfl Nat.one_ne_zero rfl hrun
  have hvals : values (fun i => UInt8.ofNat i) (entriesOf twoEntries (wordAt twoEntries 8)) =
    [0, 1, 2, 3, 0] := by decide
  rw [hps, List.nil_append, List.map_cons, hvals]
  rfl

end Telemetry

end OpenPS2Loader
