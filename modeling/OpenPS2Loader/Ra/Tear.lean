import Mathlib.Algebra.Group.Nat.Defs
import Mathlib.Data.List.Basic
import Mathlib.Logic.Function.Basic
import OpenPS2Loader.Lib.Transition

/-!
# Torn snapshots

`ee_core` sends a snapshot of the watched memory into a buffer of the IOP with one DMA per frame
(`ra_snap_send`), and `ra_send_one` of `raudp.c` copies it out. The DMA delivers the words of the
buffer one by one from the front; the reader takes the sequence number from the header, copies the
values, and accepts the copy when the trailer behind the values and the header still have the same
number.

The check catches a DMA that overtakes the copy. It does not catch a copy that overtakes the DMA:
the header of the new snapshot is there, the values of the old one are copied, and the rest of the
new snapshot arrives before the trailer is read.

## Main definitions

* `Tear.word` — the words of a snapshot
* `Tear.State`, `Tear.step` — the DMA and the reader, one word at a time
* `Tear.InOrder` — the reader stays behind the DMA

## Main results

* `Tear.accepted_whole` — what is accepted is one snapshot, when the reader stays behind the DMA
* `Tear.run_torn` — a torn copy that is accepted
-/

namespace OpenPS2Loader

namespace Tear

/-! ### The buffer -/

/-- `RA_SNAP_MAGIC`. -/
def snapMagic : ℕ := 0x52415331

/-- `RA_SNAP_MAX_BYTES`. -/
def snapMaxBytes : ℕ := 3915

/-- The word at `RA_SNAP_TRAILER_OFF`. -/
def trailerWord (bytes : ℕ) : ℕ := 12 + (bytes + 3) / 4

/-- The words of a transfer: `RA_SNAP_DMA_SIZE`. -/
def dmaWords (bytes : ℕ) : ℕ := (4 * trailerWord bytes + 4 + 15) / 16 * 4

/-- What the game has in the watched memory, and what the buffer holds before the first
transfer. -/
structure Setup where
  /-- `ra_watch_bytes` -/
  bytes : ℕ
  /-- the other words of a snapshot, by its number -/
  vals : ℕ → ℕ → ℕ
  /-- the words of the buffer before the first transfer -/
  garbage : ℕ → ℕ

/-- Word `w` of snapshot `k`. There is no snapshot `0`. -/
def word (c : Setup) (k w : ℕ) : ℕ :=
  if k = 0 then c.garbage w
  else if w = 0 then snapMagic
  else if w = 1 then k % 2 ^ 32
  else if w = 6 then c.bytes
  else if w = trailerWord c.bytes then k % 2 ^ 32
  else c.vals k w

/-! ### The machine -/

/-- A word that was copied: where from, and of which snapshot it was. -/
structure Copied where
  word : ℕ
  src : ℕ
  value : ℕ
  deriving DecidableEq, Repr

/-- Where the reader is. The arguments are `sq`, the snapshot `sq` was taken from, `nb`, the words
copied so far, and `tail`. -/
inductive Reader
  | idle
  | gotSeq (sq origin : ℕ)
  | gotMagic (sq origin : ℕ)
  | copying (sq origin nb : ℕ) (staged : List Copied)
  | gotTail (sq origin : ℕ) (staged : List Copied) (tail : ℕ)
  deriving DecidableEq, Repr

/-- A copy that was accepted. -/
structure Accepted where
  sq : ℕ
  staged : List Copied
  deriving DecidableEq, Repr

structure State where
  /-- `ra_snap_seq`, as a number that does not wrap -/
  seq : ℕ
  /-- the snapshot of the last transfer -/
  current : ℕ
  /-- the words the last transfer has still to deliver, from `next` on -/
  next : ℕ
  /-- of which snapshot each word of the IOP buffer is -/
  src : ℕ → ℕ
  reader : Reader
  accepted : List Accepted
  bad : ℕ

/-- Nothing was sent yet. -/
def init (c : Setup) : State := ⟨0, 0, dmaWords c.bytes, fun _ => 0, .idle, [], 0⟩

/-- The value of a word of the IOP buffer. -/
def State.value (c : Setup) (s : State) (w : ℕ) : ℕ := word c (s.src w) w

/-- The number of reads `ra_copy` makes for `nb` bytes: words, and the bytes that are left. -/
def reads (nb : ℕ) : ℕ := nb / 4 + nb % 4

/-- The word of a read. -/
def readWord (nb i : ℕ) : ℕ := 12 + min i (nb / 4)

inductive Event
  /-- `ra_snap_send`; `ok` says whether `isceSifSetDma` succeeds -/
  | send (ok : Bool)
  /-- the DMA delivers a word -/
  | deliver
  | readSeq
  | readMagic
  | readBytes
  | copy
  | readTail
  | recheck
  deriving DecidableEq, Repr

/-- `ra_snap_send`: a frame is skipped while the last transfer is in flight. -/
def State.send (c : Setup) (s : State) (ok : Bool) : State :=
  if s.next < dmaWords c.bytes then s
  else if ok then { s with seq := s.seq + 1, current := s.seq + 1, next := 0 }
  else { s with seq := s.seq + 1 }

/-- The copy is checked, and accepted or dropped. -/
def State.recheck (c : Setup) (s : State) (sq : ℕ) (staged : List Copied) (tail : ℕ) : State :=
  if tail ≠ sq ∨ s.value c 1 ≠ sq then { s with reader := .idle, bad := s.bad + 1 }
  else { s with reader := .idle, accepted := s.accepted ++ [⟨sq, staged⟩] }

/-- One word of the DMA, one read of the reader, or a frame of the EE. -/
def step (c : Setup) (s : State) : Event → Option State
  | .send ok => some (s.send c ok)
  | .deliver =>
    if s.next < dmaWords c.bytes then
      some { s with src := Function.update s.src s.next s.current, next := s.next + 1 }
    else none
  | .readSeq =>
    match s.reader with
    | .idle => some { s with reader := .gotSeq (s.value c 1) (s.src 1) }
    | _ => none
  | .readMagic =>
    match s.reader with
    | .gotSeq sq origin =>
      if s.value c 0 = snapMagic then some { s with reader := .gotMagic sq origin }
      else some { s with reader := .idle, bad := s.bad + 1 }
    | _ => none
  | .readBytes =>
    match s.reader with
    | .gotMagic sq origin =>
      some { s with reader := .copying sq origin (min (s.value c 6) snapMaxBytes) [] }
    | _ => none
  | .copy =>
    match s.reader with
    | .copying sq origin nb staged =>
      if staged.length < reads nb then
        let w := readWord nb staged.length
        some { s with reader := .copying sq origin nb (staged ++ [⟨w, s.src w, s.value c w⟩]) }
      else none
    | _ => none
  | .readTail =>
    match s.reader with
    | .copying sq origin nb staged =>
      if staged.length < reads nb then none
      else some { s with reader := .gotTail sq origin staged (s.value c (trailerWord nb)) }
    | _ => none
  | .recheck =>
    match s.reader with
    | .gotTail sq _ staged tail => some (s.recheck c sq staged tail)
    | _ => none

/-! ### The reader behind the DMA -/

/-- The sequence number that goes with the magic was delivered. -/
def Reader.MagicInOrder (magic : ℕ) : Reader → Prop
  | .gotSeq _ origin => magic = snapMagic → 0 < origin
  | _ => True

/-- The next value to copy was delivered by the transfer the sequence number is of. -/
def Reader.CopyInOrder (src : ℕ → ℕ) : Reader → Prop
  | .copying _ origin nb staged => origin ≤ src (readWord nb staged.length)
  | _ => True

/-- The sequence numbers have not come round since the copy began. -/
def Reader.CheckInOrder (seq : ℕ) : Reader → Prop
  | .gotTail _ origin _ _ => seq < origin + 2 ^ 32
  | _ => True

/-- The event keeps the reader behind the DMA: where it finds the magic, the sequence number it has
was delivered, a value is copied only after the transfer of this number has delivered it, and there
are fewer than `2 ^ 32` snapshots during one copy. -/
def InOrder (c : Setup) (s : State) : Event → Prop
  | .readMagic => s.reader.MagicInOrder (s.value c 0)
  | .copy => s.reader.CopyInOrder s.src
  | .recheck => s.reader.CheckInOrder s.seq
  | _ => True

instance (magic : ℕ) : ∀ r : Reader, Decidable (r.MagicInOrder magic)
  | .gotSeq _ origin => inferInstanceAs (Decidable (magic = snapMagic → 0 < origin))
  | .idle | .gotMagic _ _ | .copying _ _ _ _ | .gotTail _ _ _ _ => inferInstanceAs (Decidable True)

instance (src : ℕ → ℕ) : ∀ r : Reader, Decidable (r.CopyInOrder src)
  | .copying _ origin nb staged =>
    inferInstanceAs (Decidable (origin ≤ src (readWord nb staged.length)))
  | .idle | .gotSeq _ _ | .gotMagic _ _ | .gotTail _ _ _ _ => inferInstanceAs (Decidable True)

instance (seq : ℕ) : ∀ r : Reader, Decidable (r.CheckInOrder seq)
  | .gotTail _ origin _ _ => inferInstanceAs (Decidable (seq < origin + 2 ^ 32))
  | .idle | .gotSeq _ _ | .gotMagic _ _ | .copying _ _ _ _ => inferInstanceAs (Decidable True)

instance (c : Setup) (s : State) : ∀ e : Event, Decidable (InOrder c s e)
  | .readMagic => inferInstanceAs (Decidable (s.reader.MagicInOrder (s.value c 0)))
  | .copy => inferInstanceAs (Decidable (s.reader.CopyInOrder s.src))
  | .recheck => inferInstanceAs (Decidable (s.reader.CheckInOrder s.seq))
  | .send _ | .deliver | .readSeq | .readBytes | .readTail => inferInstanceAs (Decidable True)

/-- The accepted copy is one snapshot, the one with its sequence number. -/
def Whole (c : Setup) (a : Accepted) : Prop :=
  ∃ k, 0 < k ∧ a.sq = k % 2 ^ 32 ∧ ∀ x ∈ a.staged, x.src = k ∧ x.value = word c k x.word

/-- The sequence number was taken from snapshot `origin`, and `head` is the one the header is of
now. -/
def Taken (head sq origin : ℕ) : Prop := 0 < origin ∧ sq = origin % 2 ^ 32 ∧ origin ≤ head

/-- What was copied is not older than the sequence number, and not newer than the header. -/
def Between (c : Setup) (head origin : ℕ) (staged : List Copied) : Prop :=
  ∀ x ∈ staged, origin ≤ x.src ∧ x.src ≤ head ∧ x.value = word c x.src x.word

def Reader.Ok (c : Setup) (head : ℕ) : Reader → Prop
  | .idle => True
  | .gotSeq sq origin => 0 < origin → Taken head sq origin
  | .gotMagic sq origin => Taken head sq origin
  | .copying sq origin _ staged => Taken head sq origin ∧ Between c head origin staged
  | .gotTail sq origin staged _ => Taken head sq origin ∧ Between c head origin staged

/-- What every step in order keeps: the header is of the newest snapshot there is a word of. -/
structure Inv (c : Setup) (s : State) : Prop where
  src_le : ∀ w, s.src w ≤ s.current
  current_le : s.current ≤ s.seq
  delivered : 1 < s.next → s.src 1 = s.current
  le_head : ∀ w, 1 ≤ w → s.src w ≤ s.src 1
  reader : s.reader.Ok c (s.src 1)
  accepted : ∀ a ∈ s.accepted, Whole c a

variable {c : Setup} {s s' : State} {e : Event}

theorem inv_init (c : Setup) : Inv c (init c) where
  src_le _ := Nat.le_refl 0
  current_le := Nat.le_refl 0
  delivered _ := rfl
  le_head _ _ := Nat.le_refl 0
  reader := trivial
  accepted _ h := nomatch h

theorem word_one {k : ℕ} (hk : 0 < k) : word c k 1 = k % 2 ^ 32 := by
  rw [word, if_neg (Nat.ne_of_gt hk), if_neg Nat.one_ne_zero, if_pos rfl]

theorem Reader.Ok.mono {r : Reader} {head head' : ℕ} (h : r.Ok c head) (hle : head ≤ head') :
    r.Ok c head' := by
  have htaken : ∀ {sq origin}, Taken head sq origin → Taken head' sq origin :=
    fun ht => ⟨ht.1, ht.2.1, Nat.le_trans ht.2.2 hle⟩
  have hbetween : ∀ {origin staged}, Between c head origin staged →
      Between c head' origin staged :=
    fun hb x hx => ⟨(hb x hx).1, Nat.le_trans (hb x hx).2.1 hle, (hb x hx).2.2⟩
  cases r with
  | idle => trivial
  | gotSeq sq origin => exact fun hpos => htaken (h hpos)
  | gotMagic sq origin => exact htaken h
  | copying sq origin nb staged => exact ⟨htaken h.1, hbetween h.2⟩
  | gotTail sq origin staged tail => exact ⟨htaken h.1, hbetween h.2⟩

/-- A step of the reader that accepts nothing. -/
theorem Inv.setReader (h : Inv c s) {r : Reader} {bad : ℕ} (hr : r.Ok c (s.src 1)) :
    Inv c { s with reader := r, bad := bad } :=
  ⟨h.src_le, h.current_le, h.delivered, h.le_head, hr, h.accepted⟩

theorem Inv.send (h : Inv c s) (ok : Bool) : Inv c (s.send c ok) := by
  rw [State.send]
  split_ifs with hbusy hok
  · exact h
  · refine ⟨fun w => ?_, Nat.le_refl _, fun hlt => absurd hlt (Nat.not_lt_zero 1), h.le_head,
      h.reader, h.accepted⟩
    exact Nat.le_succ_of_le (Nat.le_trans (h.src_le w) h.current_le)
  · exact ⟨h.src_le, Nat.le_succ_of_le h.current_le, h.delivered, h.le_head, h.reader, h.accepted⟩

/-- A word of the newest snapshot arrives, behind its header. -/
theorem Inv.deliver (h : Inv c s) :
    Inv c { s with src := Function.update s.src s.next s.current, next := s.next + 1 } := by
  have hhead : s.src 1 ≤ Function.update s.src s.next s.current 1 := by
    rw [Function.update_apply]
    split_ifs
    · exact h.src_le 1
    · exact Nat.le_refl _
  have hsrc : ∀ w, Function.update s.src s.next s.current w ≤ s.current := by
    intro w
    rw [Function.update_apply]
    split_ifs
    · exact Nat.le_refl _
    · exact h.src_le w
  have hdelivered : 1 < s.next + 1 → Function.update s.src s.next s.current 1 = s.current := by
    intro hlt
    rw [Function.update_apply]
    split_ifs with heq
    · rfl
    · exact h.delivered (by omega)
  refine ⟨hsrc, h.current_le, hdelivered, fun w hw => ?_, h.reader.mono hhead, h.accepted⟩
  by_cases heq : w = s.next
  · have hone := hdelivered (by omega)
    dsimp only
    rw [hone]
    exact hsrc w
  · dsimp only
    rw [Function.update_of_ne heq]
    exact Nat.le_trans (h.le_head w hw) hhead

/-- A copy that stayed behind the DMA and passes the check is whole. -/
theorem Inv.recheck (h : Inv c s) {sq origin tail : ℕ} {staged : List Copied}
    (hr : s.reader = .gotTail sq origin staged tail) (hseq : s.seq < origin + 2 ^ 32) :
    Inv c (s.recheck c sq staged tail) := by
  have hok := h.reader
  rw [hr] at hok
  obtain ⟨⟨hpos, hsq, hle⟩, hbetween⟩ := hok
  rw [State.recheck]
  split_ifs with hbad
  · exact h.setReader trivial
  · refine ⟨h.src_le, h.current_le, h.delivered, h.le_head, trivial, fun a ha => ?_⟩
    obtain ha | ha := List.mem_append.mp ha
    · exact h.accepted a ha
    · obtain rfl := List.mem_singleton.mp ha
      -- the header is still that of `origin`
      have hvalue : s.value c 1 = sq := by
        by_contra hne
        exact hbad (Or.inr hne)
      rw [State.value, word_one (by omega), hsq] at hvalue
      have hhead : s.src 1 = origin := by
        have hcur := h.src_le 1
        have hcur' := h.current_le
        omega
      refine ⟨origin, hpos, hsq, fun x hx => ?_⟩
      obtain ⟨hlow, hhigh, hval⟩ := hbetween x hx
      have hx : x.src = origin := by omega
      exact ⟨hx, by rw [← hx]; exact hval⟩

/-- **One step** in order keeps the invariant. -/
theorem step_inv (h : Inv c s) (hok : InOrder c s e) (hstep : step c s e = some s') : Inv c s' := by
  have hreader := h.reader
  cases e with
  | send ok =>
    cases hstep
    exact h.send ok
  | deliver =>
    rw [step] at hstep
    split_ifs at hstep
    cases hstep
    exact h.deliver
  | readSeq =>
    rw [step] at hstep
    split at hstep
    · cases hstep
      exact h.setReader fun hpos => ⟨hpos, word_one hpos, Nat.le_refl _⟩
    · cases hstep
  | readMagic =>
    rw [step] at hstep
    split at hstep
    · rename_i sq origin hr
      rw [hr] at hreader
      rw [InOrder, hr] at hok
      split_ifs at hstep with hmagic <;> cases hstep
      · exact h.setReader (hreader (hok hmagic))
      · exact h.setReader trivial
    · cases hstep
  | readBytes =>
    rw [step] at hstep
    split at hstep
    · rename_i sq origin hr
      rw [hr] at hreader
      cases hstep
      exact h.setReader ⟨hreader, fun x hx => (nomatch hx)⟩
    · cases hstep
  | copy =>
    rw [step] at hstep
    split at hstep
    · rename_i sq origin nb staged hr
      rw [hr] at hreader
      rw [InOrder, hr] at hok
      split_ifs at hstep
      cases hstep
      refine h.setReader ⟨hreader.1, fun x hx => ?_⟩
      obtain hx | hx := List.mem_append.mp hx
      · exact hreader.2 x hx
      · obtain rfl := List.mem_singleton.mp hx
        refine ⟨hok, h.le_head _ ?_, rfl⟩
        rw [readWord]
        omega
    · cases hstep
  | readTail =>
    rw [step] at hstep
    split at hstep
    · rename_i sq origin nb staged hr
      rw [hr] at hreader
      split_ifs at hstep
      cases hstep
      exact h.setReader hreader
    · cases hstep
  | recheck =>
    rw [step] at hstep
    split at hstep
    · rename_i sq origin staged tail hr
      rw [InOrder, hr] at hok
      cases hstep
      exact h.recheck hr hok
    · cases hstep

/-- **Accepted copies are whole.** For every length of the list, every game and every interleaving
of the DMA with the reader in which the reader stays behind the DMA, all the words of an accepted
copy are those of the snapshot with its sequence number. -/
theorem accepted_whole (c : Setup) (es : List Event) (s : State)
    (hrun : Transition.run (step c) (init c) es = some s)
    (hok : Transition.RunOk (step c) (InOrder c) (init c) es) : ∀ a ∈ s.accepted, Whole c a :=
  (Transition.run_invariant_of_runOk (fun _ _ _ h hok hstep => step_inv h hok hstep) (inv_init c)
    hok hrun).accepted

/-- A list of four bytes; the value in a snapshot is the number of the snapshot. -/
def oneValue : Setup := ⟨4, fun k _ => k, fun _ => 0⟩

/-- The reader, with the events before it copies the value and before it reads the trailer. -/
def readRun (before after : List Event) : List Event :=
  [.readSeq, .readMagic, .readBytes] ++ before ++ [.copy] ++ after ++ [.readTail, .recheck]

/-- A poll before the first snapshot. The second one begins to arrive while the first one is copied,
and this copy is dropped. The next copy takes the value of the second one when it is there, and the
end arrives before the trailer is read. -/
def twoSnapshots : List Event :=
  [.readSeq, .readMagic, .send true] ++ List.replicate 16 .deliver ++
    readRun [.send true] [.deliver, .deliver] ++
    readRun (List.replicate 11 .deliver) (List.replicate 3 .deliver)

theorem accepted_whole_twoSnapshots : ∃ s,
    Transition.run (step oneValue) (init oneValue) twoSnapshots = some s ∧ s.bad = 2 ∧
      s.accepted = [⟨2, [⟨12, 2, 2⟩]⟩] ∧ ∀ a ∈ s.accepted, Whole oneValue a :=
  ⟨_, rfl, rfl, rfl, accepted_whole oneValue twoSnapshots _ rfl (by decide)⟩

/-- The second snapshot has arrived up to its header when the reader starts. The reader copies the
value of the first one, the rest of the second one arrives, and the copy is accepted as the
second. -/
theorem run_torn : ∃ s, Transition.run (step oneValue) (init oneValue)
    ([.send true] ++ List.replicate 16 .deliver ++ [.send true, .deliver, .deliver] ++
      readRun [] (List.replicate 14 .deliver)) = some s ∧
      s.accepted = [⟨2, [⟨12, 1, 1⟩]⟩] ∧ ¬ ∀ a ∈ s.accepted, Whole oneValue a := by
  refine ⟨_, rfl, rfl, fun h => ?_⟩
  obtain ⟨k, -, hsq, hk⟩ := h _ (List.mem_singleton.mpr rfl)
  have hsrc : 1 = k := (hk _ (List.mem_singleton.mpr rfl)).1
  subst hsrc
  exact absurd hsq (by decide)

end Tear

end OpenPS2Loader
