import Mathlib.Data.List.Nodup
import Mathlib.Data.Nat.Notation
import Mathlib.Tactic.SplitIfs

/-!
# Unlock notices

`ra_handle_pc` of `raudp.c`: the PC announces an unlocked achievement by a datagram `RAU1 <id>`,
twice, and the console raises one event for it. What the console remembers is the last id it raised
an event for, and the second at which it did: a notice with that id within three seconds is a copy.

Two achievements that are unlocked at the same moment are announced by four datagrams, which may
arrive as A, B, A, B. Then the last id is always another one, and four events are raised.

The event is sent to the game by a transfer to the buffer `ra_ee_event`. There is none while the
buffer is not known, and `sceSifSetDma` may refuse one; the id counts as raised then as well.

Time is counted in microseconds since the clock was started; `ra_handle_pc` sees whole seconds, of
32 bits. The state the module starts in is that of an event for the id `0xFFFFFFFF` at second 0.
The counters of the heartbeat, the badge and the acknowledgement are left out.

## Main definitions

* `Notices.raHandlePc`, `Notices.events` — a datagram, and a sequence of them
* `Notices.Delivered` — the copies of a notice arrive within three seconds
* `Notices.ExactlyOnce` — one event for each achievement
* `Notices.pulses` — the notices that are no copies of the one in front
* `Notices.Settled` — between two copies there are copies only, and not too many seconds

## Main results

* `Notices.exactlyOnce_iff`
* `Notices.not_exactlyOnce_interleaved` — two achievements whose notices interleave
-/

namespace OpenPS2Loader

namespace Notices

/-! ### The datagrams -/

/-- What arrives, and when. -/
structure Datagram where
  rx : List UInt8
  time : ℕ
  /-- `sceSifSetDma` takes a transfer at that time -/
  dma : Bool
  deriving DecidableEq

/-- `GetSystemTime` and the seconds of `SysClock2USec`. -/
def clockSec (time : ℕ) : UInt32 := UInt32.ofNat (time / 1000000)

/-- The loop of `ra_dec_at`. -/
def raDecAtFrom (v : UInt32) : ℕ → List UInt8 → UInt32
  | 0, _ => v
  | _ + 1, [] => v
  | max + 1, c :: s =>
    if 48 ≤ c ∧ c ≤ 57 then raDecAtFrom (v * 10 + (c - 48).toUInt32) max s else v

/-- `ra_dec_at`. -/
def raDecAt (s : List UInt8) (max : ℕ) : UInt32 := raDecAtFrom 0 max s

/-- `RAU1 `: how a notice starts. -/
def rau1 : List UInt8 := [82, 65, 85, 49, 32]

/-- The `ra_event` that is written into the game. -/
structure RaEvent where
  magic : UInt32
  seq : UInt32
  kind : UInt32
  arg : UInt32
  deriving DecidableEq

/-- `RA_EVENT_MAGIC`. -/
def raEventMagic : UInt32 := 0x52414531

/-- `RA_EVENT_UNLOCK`. -/
def raEventUnlock : UInt32 := 1

/-- What `ra_handle_pc` remembers. -/
structure Listener where
  lastId : UInt32
  lastSec : UInt32
  seq : UInt32
  deriving DecidableEq

/-- The state the module starts in. -/
def listenerInit : Listener := ⟨0xFFFFFFFF, 0, 0⟩

/-- `ra_handle_pc`, and the event that it sends to the game. A message of another kind sends
none. -/
def raHandlePc (raEeEvent : UInt32) (s : Listener) (d : Datagram) : Listener × Option RaEvent :=
  if d.rx.take 5 ≠ rau1 then (s, none)
  else
    let id := raDecAt (d.rx.drop 5) 10
    let sec := clockSec d.time
    if id = s.lastId ∧ sec - s.lastSec < 3 then (s, none)
    else
      (⟨id, sec, s.seq + 1⟩,
        if raEeEvent ≠ 0 ∧ d.dma = true then
          some ⟨raEventMagic, s.seq + 1, raEventUnlock, id⟩
        else none)

/-- The events of a sequence of datagrams. -/
def events (raEeEvent : UInt32) (s : Listener) : List Datagram → List RaEvent
  | [] => []
  | d :: ds =>
    (raHandlePc raEeEvent s d).2.toList ++ events raEeEvent (raHandlePc raEeEvent s d).1 ds

/-! ### The notices -/

/-- A notice: the achievement, and when it arrived. -/
structure Notice where
  id : UInt32
  time : ℕ
  /-- the transfer of an event for it is taken -/
  dma : Bool
  deriving DecidableEq

/-- The second at which a notice arrived. -/
def Notice.sec (n : Notice) : UInt32 := clockSec n.time

/-- A datagram as a notice. -/
def noticeOf (d : Datagram) : Option Notice :=
  if d.rx.take 5 = rau1 then some ⟨raDecAt (d.rx.drop 5) 10, d.time, d.dma⟩ else none

/-- The notices among the datagrams. -/
def notices (ds : List Datagram) : List Notice := ds.filterMap noticeOf

/-- The notices that are no copies, when the last one of these was for `last`, at `sec`. -/
def raised (last sec : UInt32) : List Notice → List Notice
  | [] => []
  | n :: ns =>
    if n.id = last ∧ n.sec - sec < 3 then raised last sec ns else n :: raised n.id n.sec ns

/-- The achievements whose event is sent for these notices. -/
def sent (raEeEvent : UInt32) (ns : List Notice) : List UInt32 :=
  (ns.filter fun n => decide (raEeEvent ≠ 0 ∧ n.dma = true)).map Notice.id

theorem sent_cons (raEeEvent : UInt32) (n : Notice) (ns : List Notice) :
    sent raEeEvent (n :: ns) =
      (if raEeEvent ≠ 0 ∧ n.dma = true then [n.id] else []) ++ sent raEeEvent ns := by
  rw [sent, List.filter_cons]
  by_cases h : raEeEvent ≠ 0 ∧ n.dma = true
  · rw [if_pos h, if_pos (decide_eq_true h)]
    rfl
  · rw [if_neg h, if_neg (by simpa using h)]
    rfl

theorem events_arg (raEeEvent : UInt32) (s : Listener) (ds : List Datagram) :
    (events raEeEvent s ds).map RaEvent.arg =
      sent raEeEvent (raised s.lastId s.lastSec (notices ds)) := by
  induction ds generalizing s with
  | nil => rfl
  | cons d ds ih =>
    rw [events, List.map_append, ih, notices, notices]
    by_cases hd : d.rx.take 5 = rau1
    · rw [List.filterMap_cons_some (show noticeOf d = _ from if_pos hd), raised, raHandlePc,
        if_neg (not_not.mpr hd), Notice.sec]
      dsimp only
      by_cases hcopy : raDecAt (d.rx.drop 5) 10 = s.lastId ∧ clockSec d.time - s.lastSec < 3
      · rw [if_pos hcopy, if_pos hcopy]
        rfl
      · rw [if_neg hcopy, if_neg hcopy, sent_cons]
        dsimp only
        split_ifs <;> rfl
    · rw [List.filterMap_cons_none (show noticeOf d = _ from if_neg hd), raHandlePc, if_pos hd]
      rfl

theorem events_listenerInit (raEeEvent : UInt32) (ds : List Datagram) :
    (events raEeEvent listenerInit ds).map RaEvent.arg =
      sent raEeEvent (raised 0xFFFFFFFF 0 (notices ds)) :=
  events_arg raEeEvent listenerInit ds

/-! ### Copies -/

/-- The notices arrive in order, and the copies of one within three seconds. -/
structure Delivered (ns : List Notice) : Prop where
  ordered : ns.Pairwise fun n m => n.time ≤ m.time
  window : ∀ n ∈ ns, ∀ m ∈ ns, n.id = m.id → m.time < n.time + 3000000

/-- One event for each achievement. -/
def ExactlyOnce (ns : List Notice) (ids : List UInt32) : Prop :=
  ids.Nodup ∧ ∀ id, id ∈ ids ↔ ∃ n ∈ ns, n.id = id

/-- A notice that counts as a copy of `n` directly behind it. -/
def copyOf (n m : Notice) : Bool := decide (m.id = n.id ∧ m.sec - n.sec < 3)

/-- The notices without the copies directly behind them. -/
def pulses : List Notice → List Notice
  | [] => []
  | n :: ns => n :: pulses (ns.dropWhile (copyOf n))
termination_by ns => ns.length
decreasing_by exact Nat.lt_succ_of_le (List.dropWhile_sublist _).length_le

/-- Between a notice and a later copy of it there are copies only, and the clock shows less than
three seconds more. -/
def Leads (n : Notice) (ns : List Notice) : Prop :=
  ∀ q m r, ns = q ++ m :: r → n.id = m.id → (∀ x ∈ q, x.id = n.id) ∧ m.sec - n.sec < 3

/-- So it is for each notice. -/
def Settled (ns : List Notice) : Prop := ∀ p n r, ns = p ++ n :: r → Leads n r

/-- A notice that the state at the start takes for a copy. -/
def early (n : Notice) : Bool := decide (n.id = 0xFFFFFFFF ∧ n.sec < 3)

/-- The notices without those at the start that are lost. -/
def heard (ns : List Notice) : List Notice := ns.dropWhile early

section

variable {n m : Notice} {ns : List Notice} {last sec id : UInt32}

theorem settled_nil : Settled [] := fun p n r h => by simp at h

theorem settled_cons : Settled (n :: ns) ↔ Leads n ns ∧ Settled ns := by
  refine ⟨fun h => ⟨h [] n ns rfl, fun p m r hr => h (n :: p) m r (by rw [hr]; rfl)⟩, ?_⟩
  rintro ⟨hlead, hset⟩ p m r hr
  cases p with
  | nil =>
    cases hr
    exact hlead
  | cons a p =>
    cases hr
    exact hset p m r rfl

theorem leads_cons_of_eq (h : n.id = m.id) :
    Leads n (m :: ns) ↔ m.sec - n.sec < 3 ∧ Leads n ns := by
  refine ⟨fun hlead => ⟨(hlead [] m ns rfl h).2, fun q x r hr hx => ?_⟩, ?_⟩
  · obtain ⟨hall, hsec⟩ := hlead (m :: q) x r (by rw [hr]; rfl) hx
    exact ⟨fun y hy => hall y (List.mem_cons_of_mem m hy), hsec⟩
  · rintro ⟨hsec, hlead⟩ q x r hr hx
    cases q with
    | nil =>
      cases hr
      exact ⟨nofun, hsec⟩
    | cons a q =>
      cases hr
      obtain ⟨hall, hsec⟩ := hlead q x r rfl hx
      exact ⟨List.forall_mem_cons.mpr ⟨h.symm, hall⟩, hsec⟩

/-- A notice with another id behind it leads when it does not come back. -/
theorem leads_cons_of_ne (h : n.id ≠ m.id) :
    Leads n (m :: ns) ↔ ∀ x ∈ ns, x.id ≠ n.id := by
  constructor
  · intro hlead x hx hid
    obtain ⟨q, r, rfl⟩ := List.append_of_mem hx
    exact h ((hlead (m :: q) x r rfl hid.symm).1 m List.mem_cons_self).symm
  · intro hall q x r hr hx
    cases q with
    | nil =>
      cases hr
      exact absurd hx h
    | cons a q =>
      cases hr
      exact absurd hx.symm (hall x (List.mem_append_right q List.mem_cons_self))

theorem clockSec_sub_lt {a b : ℕ} (hab : a ≤ b) (hb : b < a + 3000000) :
    clockSec b - clockSec a < 3 ↔ b / 1000000 < a / 1000000 + 3 := by
  have hle : a / 1000000 ≤ b / 1000000 := Nat.div_le_div_right hab
  rw [UInt32.lt_iff_toNat_lt, UInt32.toNat_sub, clockSec, clockSec, UInt32.toNat_ofNat',
    UInt32.toNat_ofNat', show (3 : UInt32).toNat = 3 from rfl]
  omega

/-- A copy of a copy. -/
theorem sec_sub_lt {x : Notice} (hnm : n.time ≤ m.time) (hmx : m.time ≤ x.time)
    (hx : x.time < n.time + 3000000) (h : x.sec - n.sec < 3) : x.sec - m.sec < 3 := by
  rw [Notice.sec, Notice.sec, clockSec_sub_lt (Nat.le_trans hnm hmx) hx] at h
  rw [Notice.sec, Notice.sec, clockSec_sub_lt hmx (by omega)]
  have hle : n.time / 1000000 ≤ m.time / 1000000 := Nat.div_le_div_right hnm
  omega

theorem Delivered.tail (h : Delivered (n :: ns)) : Delivered ns :=
  ⟨(List.pairwise_cons.mp h.ordered).2,
    fun x hx y hy => h.window x (List.mem_cons_of_mem n hx) y (List.mem_cons_of_mem n hy)⟩

theorem Delivered.skip (h : Delivered (n :: m :: ns)) : Delivered (n :: ns) := by
  refine ⟨h.ordered.sublist (by simp), fun x hx y hy => h.window x ?_ y ?_⟩
  · exact (List.mem_cons.mp hx).elim (fun hx => hx ▸ List.mem_cons_self) fun hx => by simp [hx]
  · exact (List.mem_cons.mp hy).elim (fun hy => hy ▸ List.mem_cons_self) fun hy => by simp [hy]

/-- What the first copy leads to, the second one leads to. -/
theorem Leads.copy (h : Leads n ns) (hd : Delivered (n :: m :: ns)) (hid : n.id = m.id) :
    Leads m ns := by
  intro q x r hr hx
  obtain ⟨hall, hsec⟩ := h q x r hr (hid.trans hx)
  have hxmem : x ∈ ns := by simp [hr]
  have hord := List.pairwise_cons.mp hd.ordered
  refine ⟨fun y hy => (hall y hy).trans hid, sec_sub_lt (hord.1 m List.mem_cons_self)
    ((List.pairwise_cons.mp hord.2).1 x hxmem) ?_ hsec⟩
  exact hd.window n List.mem_cons_self x (by simp [hxmem]) (hid.trans hx)

/-! ### The events -/

theorem exists_of_mem_raised (h : id ∈ (raised last sec ns).map Notice.id) :
    ∃ n ∈ ns, n.id = id := by
  induction ns generalizing last sec with
  | nil => cases h
  | cons m ns ih =>
    rw [raised] at h
    split_ifs at h
    · obtain ⟨x, hx, hid⟩ := ih h
      exact ⟨x, List.mem_cons_of_mem m hx, hid⟩
    · rcases List.mem_cons.mp h with rfl | h
      · exact ⟨m, List.mem_cons_self, rfl⟩
      · obtain ⟨x, hx, hid⟩ := ih h
        exact ⟨x, List.mem_cons_of_mem m hx, hid⟩

/-- An event is raised for every achievement but the last one. -/
theorem mem_raised_iff (hid : id ≠ last) :
    id ∈ (raised last sec ns).map Notice.id ↔ ∃ n ∈ ns, n.id = id := by
  refine ⟨exists_of_mem_raised, fun h => ?_⟩
  induction ns generalizing last sec with
  | nil =>
    obtain ⟨n, hn, -⟩ := h
    cases hn
  | cons m ns ih =>
    obtain ⟨x, hx, hxid⟩ := h
    rw [raised]
    split_ifs with hcopy
    · rcases List.mem_cons.mp hx with rfl | hx
      · exact absurd (hxid.symm.trans hcopy.1) hid
      · exact ih hid ⟨x, hx, hxid⟩
    · rw [List.map_cons]
      by_cases hm : id = m.id
      · rw [hm]
        exact List.mem_cons_self
      · rcases List.mem_cons.mp hx with rfl | hx
        · exact absurd hxid.symm hm
        · exact List.mem_cons_of_mem m.id (ih hm ⟨x, hx, hxid⟩)

/-- After an event for `n`: no other one is raised for it, and none twice, exactly when the notices
are settled. -/
theorem nodup_raised_iff (hd : Delivered (n :: ns)) :
    ((n :: raised n.id n.sec ns).map Notice.id).Nodup ↔ Settled (n :: ns) := by
  induction ns generalizing n with
  | nil => simp [raised, settled_cons, settled_nil, Leads]
  | cons m ns ih =>
    rw [raised, settled_cons, settled_cons]
    by_cases hid : n.id = m.id
    · rw [leads_cons_of_eq hid]
      by_cases hsec : m.sec - n.sec < 3
      · -- a copy changes nothing
        rw [if_pos ⟨hid.symm, hsec⟩, ih hd.skip, settled_cons]
        exact ⟨fun ⟨hlead, hset⟩ => ⟨⟨hsec, hlead⟩, hlead.copy hd hid, hset⟩,
          fun ⟨⟨_, hlead⟩, _, hset⟩ => ⟨hlead, hset⟩⟩
      · rw [if_neg fun h => hsec h.2, List.map_cons, List.map_cons, hid]
        exact iff_of_false (fun h => (List.nodup_cons.mp h).1 List.mem_cons_self)
          fun h => hsec h.1.1
    · rw [if_neg fun h => hid h.1.symm, leads_cons_of_ne hid, List.map_cons, List.nodup_cons,
        ih hd.tail, settled_cons]
      refine and_congr_left fun _ => ?_
      rw [List.map_cons, List.mem_cons, not_or, mem_raised_iff hid]
      simp [hid]

theorem raised_eq_pulses (last sec : UInt32) (ns : List Notice) :
    raised last sec ns =
      pulses (ns.dropWhile fun n => decide (n.id = last ∧ n.sec - sec < 3)) := by
  induction ns generalizing last sec with
  | nil => simp [raised, pulses]
  | cons n ns ih =>
    rw [raised, List.dropWhile_cons]
    by_cases hcopy : n.id = last ∧ n.sec - sec < 3
    · rw [if_pos hcopy, if_pos (decide_eq_true hcopy), ih]
    · rw [if_neg hcopy, if_neg (by simpa using hcopy), pulses, ih]
      rfl

/-- The notices that are lost at the start leave the state as it was. -/
theorem raised_heard (ns : List Notice) : raised 0xFFFFFFFF 0 ns = pulses (heard ns) := by
  have hearly : early = fun n => decide (n.id = 0xFFFFFFFF ∧ n.sec - 0 < 3) := by
    funext n
    rw [early, UInt32.sub_zero]
  rw [heard, hearly, raised_eq_pulses]

theorem Delivered.heard (h : Delivered ns) : Delivered (heard ns) :=
  have hsub : (Notices.heard ns).Sublist ns := List.dropWhile_sublist early
  ⟨h.ordered.sublist hsub, fun x hx y hy => h.window x (hsub.subset hx) y (hsub.subset hy)⟩

/-- The first notice that is heard raises an event, and then it is as in `nodup_raised_iff`. -/
theorem pulses_spec (hd : Delivered ns) :
    (((pulses (heard ns)).map Notice.id).Nodup ↔ Settled (heard ns)) ∧
      ∀ id, id ∈ (pulses (heard ns)).map Notice.id ↔ ∃ n ∈ heard ns, n.id = id := by
  cases hns : heard ns with
  | nil => simp [pulses, settled_nil]
  | cons n r =>
    have hraised : pulses (n :: r) = n :: raised n.id n.sec r := by
      rw [pulses, raised_eq_pulses]
      rfl
    rw [hraised]
    refine ⟨nodup_raised_iff (hns ▸ hd.heard), fun id => ?_⟩
    by_cases hid : id = n.id
    · simp [hid]
    · rw [List.map_cons, List.mem_cons, mem_raised_iff hid]
      simp [hid, Ne.symm hid]

theorem mem_of_mem_pulses (h : n ∈ pulses ns) : n ∈ ns := by
  fun_induction pulses ns with
  | case1 => cases h
  | case2 m ns ih =>
    rcases List.mem_cons.mp h with rfl | h
    · exact List.mem_cons_self
    · exact List.mem_cons_of_mem m ((List.dropWhile_sublist _).subset (ih h))

/-- Where every transfer is taken, every pulse sends its event. -/
theorem sent_pulses {raEeEvent : UInt32} (hee : raEeEvent ≠ 0)
    (hdma : ∀ n ∈ ns, n.dma = true) :
    sent raEeEvent (pulses (heard ns)) = (pulses (heard ns)).map Notice.id := by
  rw [sent, List.filter_eq_self.mpr]
  intro n hn
  have hmem : n ∈ ns := (List.dropWhile_sublist early).subset (mem_of_mem_pulses hn)
  exact decide_eq_true ⟨hee, hdma n hmem⟩

end

/-! ### One event for each achievement -/

/-- **What is sent to the game** are the pulses whose transfer is taken. Where all are taken, every
achievement raises exactly one event when the copies of no notice interleave with others and the
clock shows less than three seconds between them, and only then. A notice for `0xFFFFFFFF` at the
very start is lost, and it needs a copy that is not. -/
theorem exactlyOnce_iff (raEeEvent : UInt32) (ds : List Datagram) (h : Delivered (notices ds)) :
    (events raEeEvent listenerInit ds).map RaEvent.arg =
        sent raEeEvent (pulses (heard (notices ds))) ∧
      (raEeEvent ≠ 0 → (∀ n ∈ notices ds, n.dma = true) →
        (ExactlyOnce (notices ds) ((events raEeEvent listenerInit ds).map RaEvent.arg) ↔
          Settled (heard (notices ds)) ∧
            ∀ n ∈ notices ds, ∃ m ∈ heard (notices ds), m.id = n.id)) := by
  have hevents : (events raEeEvent listenerInit ds).map RaEvent.arg =
      sent raEeEvent (pulses (heard (notices ds))) := by
    rw [events_listenerInit, raised_heard]
  refine ⟨hevents, fun hee hdma => ?_⟩
  obtain ⟨hnodup, hmem⟩ := pulses_spec h
  rw [hevents, sent_pulses hee hdma, ExactlyOnce]
  refine and_congr hnodup ⟨fun hall n hn => (hmem n.id).mp ((hall n.id).mpr ⟨n, hn, rfl⟩), ?_⟩
  intro hall id
  rw [hmem]
  constructor
  · rintro ⟨n, hn, hid⟩
    exact ⟨n, (List.dropWhile_sublist early).subset hn, hid⟩
  · rintro ⟨n, hn, hid⟩
    obtain ⟨m, hm, hmid⟩ := hall n hn
    exact ⟨m, hm, hmid.trans hid⟩

/-- `RAU1 7` or the like. -/
def unlock (digit : UInt8) (time : ℕ) : Datagram := ⟨rau1 ++ [digit], time, true⟩

/-- Two achievements, one after the other. -/
def oneByOne : List Datagram :=
  [unlock 55 20000000, unlock 55 20000100, unlock 56 20000200, unlock 56 20000300]

/-- Two achievements at the same moment. -/
def interleaved : List Datagram :=
  [unlock 55 20000000, unlock 56 20000100, unlock 55 20000200, unlock 56 20000300]

theorem exactlyOnce_oneByOne :
    Delivered (notices oneByOne) ∧
      ExactlyOnce (notices oneByOne) ((events 0x100000 listenerInit oneByOne).map RaEvent.arg) ∧
      (events 0x100000 listenerInit oneByOne).map RaEvent.arg = [7, 8] := by
  have h : Delivered (notices oneByOne) := ⟨by decide, by decide⟩
  have hpulses : (pulses (heard (notices oneByOne))).map Notice.id = [7, 8] := by
    rw [← raised_heard]
    decide
  obtain ⟨-, hiff⟩ := exactlyOnce_iff 0x100000 oneByOne h
  refine ⟨h, (hiff (by decide) (by decide)).mpr ⟨(pulses_spec h).1.mp ?_, by decide⟩, by decide⟩
  rw [hpulses]
  decide

/-- Each of the two achievements raises two events. -/
theorem not_exactlyOnce_interleaved :
    ¬ ∀ ds : List Datagram, Delivered (notices ds) →
      ExactlyOnce (notices ds) ((events 0x100000 listenerInit ds).map RaEvent.arg) := by
  intro hall
  have hnodup := (hall interleaved ⟨by decide, by decide⟩).1
  revert hnodup
  decide

end Notices

end OpenPS2Loader
