import OpenPS2Loader.Mcemu.Accesses

/-!
# What a call of a card says about its accesses

The calls `MceRead`, `MceWrite` and `MceEraseBlock` return 0 when `DeviceReadPage` or
`DeviceWritePage` does. Where a back end reports every failure of its driver, a call says whether an
access failed in it, and what a read copies comes from pages that were transferred: the page in
`mcdatabuf` while the game is in the middle of it, and its codes until they are read.

## Main definitions

* `Mce.Device.Good`, `Mce.Device.Told` — no access has failed; a call says whether one has
* `Mce.Slot.Sound` — what a card keeps for the reads to come

## Main results

* `Mce.reporting_hdd` and `Mce.reported_bdm_iff`, `Mce.reported_mmce_iff`,
  `Mce.reported_smb_read_iff`, `Mce.reported_smb_write_iff` — what the back ends report
* `Mce.readChunk_spec`, `Mce.writeChunk_spec`, `Mce.eraseBlock_spec` — the calls
-/

namespace OpenPS2Loader

namespace Mce

/-! ### Reports -/

/-- No access has failed, and a share takes the next one. -/
structure Device.Good (b : Backend) (d : Device) : Prop where
  failed : d.failed = false
  sema : b = .smb → d.sema = true

/-- A call says whether an access failed. -/
structure Device.Told (b : Backend) (d : Device) (ok : Bool) : Prop where
  good : ok = true → d.Good b
  failed : ok = false → d.failed = true

/-- The loop ends with the number of bytes, or with an error. -/
theorem smbFile_cases {dir : Direction} {answers : ℕ → SmbAnswer} {k remaining : ℕ} {r : SmbResult}
    (h : smbFile dir answers k remaining = some r) :
    r.result = pageSize ∧ r.signalled = true ∨
      r.result ≤ 0 ∧ r.signalled = false ∧ r.transferred = false := by
  fun_induction smbFile dir answers k remaining generalizing r with
  | case1 =>
    cases h
    exact .inl ⟨rfl, rfl⟩
  | case2 => cases h
  | case3 k remaining hne result transferred hand hle =>
    cases h
    exact .inr ⟨hle, rfl, rfl⟩
  | case4 k remaining hne result transferred hand hle ih =>
    obtain ⟨r', hr', rfl⟩ := Option.map_eq_some_iff.mp h
    obtain hdone | ⟨hresult, hsignalled, htransferred⟩ := ih hr'
    · exact .inl hdone
    · refine .inr ⟨hresult, hsignalled, ?_⟩
      show (transferred && r'.transferred) = false
      rw [htransferred, Bool.and_false]

/-- What a share makes of an access. -/
theorem Access.outcome_smb (dir : Direction) (a : Access) :
    a.outcome .smb dir = match smbFile dir a.answers 0 pageSize with
      | none => ⟨false, false, false, false⟩
      | some r => ⟨true, r.result ≠ 0, r.transferred, r.signalled⟩ := rfl

section Access

variable {b : Backend} {acc : Accesses} {dir : Direction} {d : Device}

theorem Access.signalled_of_transferred {a : Access} (h : (a.outcome b dir).transferred = true) :
    (a.outcome b dir).signalled = true := by
  cases b with
  | bdm => rfl
  | hdd => rfl
  | smb =>
    rw [Access.outcome_smb] at h ⊢
    cases hr : smbFile dir a.answers 0 pageSize with
    | none =>
      rw [hr] at h
      exact absurd h (by decide)
    | some r =>
      rw [hr] at h
      obtain ⟨-, hsignalled⟩ | ⟨-, -, hnot⟩ := smbFile_cases hr
      · exact hsignalled
      · exact absurd (hnot.symm.trans h) (by decide)
  | mmce => rfl

theorem Access.Reported.returned_eq {a : Access} (h : a.Reported b dir) :
    (a.outcome b dir).returned = (a.outcome b dir).transferred := by
  cases htrans : (a.outcome b dir).transferred with
  | false => exact h.2.1 htrans
  | true =>
    cases b with
    | bdm => rfl
    | hdd => exact htrans
    | smb =>
      rw [Access.outcome_smb] at htrans ⊢
      cases hr : smbFile dir a.answers 0 pageSize with
      | none =>
        rw [hr] at htrans
        exact absurd htrans (by decide)
      | some r =>
        rw [hr] at htrans
        obtain ⟨hresult, -⟩ | ⟨-, -, hnot⟩ := smbFile_cases hr
        · refine decide_eq_true ?_
          rw [hresult]
          decide
        · exact absurd (hnot.symm.trans htrans) (by decide)
    | mmce => rfl

/-- **The hard disk** reports every failure. -/
theorem reporting_hdd (acc : Accesses) : Reporting .hdd acc := fun _ _ _ => ⟨rfl, id, nofun⟩

/-- **A block device** reports none. -/
theorem reported_bdm_iff (a : Access) : a.Reported .bdm dir ↔ a.results 0 = 1 := by
  constructor
  · intro h
    by_contra hne
    exact Bool.noConfusion (h.2.1 (decide_eq_false hne))
  · intro h
    refine ⟨rfl, fun hfail => ?_, nofun⟩
    exact absurd h (of_decide_eq_false hfail)

/-- **A card in the slot** reports none. -/
theorem reported_mmce_iff (a : Access) :
    a.Reported .mmce dir ↔ a.exported ∧ 0 ≤ a.results 0 ∧ a.results 1 = pageSize := by
  constructor
  · intro h
    by_contra hne
    exact Bool.noConfusion (h.2.1 (decide_eq_false hne))
  · intro h
    refine ⟨rfl, fun hfail => ?_, nofun⟩
    exact absurd h (of_decide_eq_false hfail)

/-- **A share** reports a read that is answered with 0 bytes, and no other failure: no negative
result, no answer that counts bytes it does not bring, and no connection that ends inside one. -/
theorem reported_smb_read_iff (a : Access) :
    a.Reported .smb .read ↔
      (∃ r, smbFile .read a.answers 0 pageSize = some r ∧ 0 ≤ r.result ∧
        (r.signalled = true → r.transferred = true)) ∧ 0 < smbOpenAndX a.opened := by
  rw [Access.Reported, Access.outcome_smb, ← and_assoc]
  refine and_congr ?_ ⟨fun h => h rfl rfl, fun h _ _ => h⟩
  cases hr : smbFile .read a.answers 0 pageSize with
  | none =>
    refine iff_of_false (fun h => absurd h.1 (by decide)) ?_
    rintro ⟨r, hnone, -⟩
    cases hnone
  | some r =>
    have hcases := smbFile_cases hr
    constructor
    · rintro ⟨-, h⟩
      have hzero : r.transferred = false → r.result = 0 := fun hfail =>
        not_not.mp (of_decide_eq_false (h hfail))
      refine ⟨r, rfl, ?_, fun hsignalled => ?_⟩
      · obtain ⟨hresult, -⟩ | ⟨-, -, hnot⟩ := hcases
        · rw [hresult]
          decide
        · exact (hzero hnot).ge
      · obtain ⟨hresult, -⟩ | ⟨-, hleft, -⟩ := hcases
        · by_contra hnot
          have h0 := hresult.symm.trans (hzero (Bool.not_eq_true _ ▸ hnot))
          exact absurd h0 (by decide)
        · exact absurd (hsignalled.symm.trans hleft) (by decide)
    · rintro ⟨r', hr', hle, hall⟩
      cases hr'
      refine ⟨rfl, fun hfail => decide_eq_false (not_not.mpr ?_)⟩
      obtain ⟨-, hsignalled⟩ | ⟨hneg, -, -⟩ := hcases
      · exact absurd ((hall hsignalled).symm.trans hfail) (by decide)
      · exact le_antisymm hneg hle

/-- A page that is written on a share: one request, after which 1 is returned in any case. -/
theorem outcome_smb_write (a : Access) :
    (a.outcome .smb .write).ended = true ∧ (a.outcome .smb .write).returned = true ∧
      ((a.outcome .smb .write).transferred = true ↔ a.answers 0 = .counted pageSize) := by
  have hlarge : pageSize ≤ clientMax .write := by decide
  have herror : (-5 : ℤ) ≤ 0 := by decide
  have hsize : ¬ ((pageSize : ℕ) : ℤ) ≤ 0 := by decide
  rw [Access.outcome_smb, smbFile, if_neg (show ¬ pageSize = 0 by decide), min_eq_left hlarge]
  cases a.answers 0 with
  | counted n =>
    dsimp only [smbAndX]
    by_cases hneg : n < 0
    · rw [if_pos hneg, if_pos herror]
      refine ⟨rfl, rfl, iff_of_false nofun fun h => ?_⟩
      cases h
      exact absurd hneg (by decide)
    · rw [if_neg hneg, if_neg hsize, Int.toNat_natCast, Nat.sub_self, smbFile, if_pos rfl,
        Option.map_some]
      refine ⟨rfl, rfl, ?_⟩
      rw [Bool.and_true, decide_eq_true_eq, SmbAnswer.counted.injEq]
  | empty => exact ⟨rfl, rfl, iff_of_false nofun nofun⟩
  | cut => exact ⟨rfl, rfl, iff_of_false nofun nofun⟩

/-- A share does not report a write that fails. -/
theorem reported_smb_write_iff (a : Access) :
    a.Reported .smb .write ↔ a.answers 0 = .counted pageSize := by
  obtain ⟨hended, hreturned, htransferred⟩ := outcome_smb_write a
  rw [Access.Reported, hended, hreturned, ← htransferred]
  constructor
  · rintro ⟨-, h, -⟩
    rw [← Bool.not_eq_false]
    exact fun hfail => Bool.noConfusion (h hfail)
  · exact fun h => ⟨rfl, fun hfail => absurd (h.symm.trans hfail) (by decide), nofun⟩

theorem Device.Good.told (h : d.Good b) : d.Told b true := ⟨fun _ => h, nofun⟩

theorem Device.Good.not_blocked (h : d.Good b) : ¬d.Blocked b := by
  rintro ⟨hsmb, hsema⟩
  rw [h.sema hsmb] at hsema
  cases hsema

theorem Device.Good.after (h : d.Good b) {a : Access} (hrep : a.Reported b dir) :
    (d.after (a.outcome b dir).signalled (a.outcome b dir).transferred).Told b
      (a.outcome b dir).returned := by
  rw [hrep.returned_eq]
  constructor
  · intro htrans
    refine ⟨?_, fun hsmb => ?_⟩
    · rw [Device.after, htrans, h.failed]
      rfl
    · rw [Device.after, Access.signalled_of_transferred htrans, h.sema hsmb]
      rfl
  · intro htrans
    rw [Device.after, htrans]
    exact Bool.or_true _

/-- **A page that is written.** -/
theorem deviceWritePage_spec (h : d.Good b) (hrep : Reporting b acc) (page : UInt32) :
    ∃ d' ok, deviceWritePage b acc d page = some (d', ok) ∧ d'.Told b ok ∧
      d'.obtained = d.obtained := by
  have ha := hrep d.accesses .write page
  have hends : ¬ (d.Blocked b ∨ ((acc d.accesses .write page).outcome b .write).ended = false) := by
    rw [ha.1, not_or]
    exact ⟨h.not_blocked, nofun⟩
  rw [deviceWritePage, if_neg hends]
  exact ⟨_, _, rfl, h.after ha, rfl⟩

/-- **A page that is read.** -/
theorem deviceReadPage_spec (h : d.Good b) (hrep : Reporting b acc) (c : Fin 2) (page : UInt32) :
    ∃ d' ok, deviceReadPage b acc c d page = some (d', ok) ∧ d'.Told b ok ∧ d'.obtained = ok ∧
      ok = ((acc d.accesses .read page).outcome b .read).transferred := by
  have ha := hrep d.accesses .read page
  obtain ⟨hgood, hfailed⟩ := h.after ha
  have hends : ¬ (d.Blocked b ∨ ((acc d.accesses .read page).outcome b .read).ended = false) := by
    rw [ha.1, not_or]
    exact ⟨h.not_blocked, nofun⟩
  rw [deviceReadPage, if_neg hends]
  dsimp only
  split_ifs with hclosed
  · have hopens := ha.2.2 hclosed.1 rfl
    cases hreply : (acc d.accesses .read page).opened with
    | noMagic =>
      rw [hreply] at hopens
      exact absurd hopens (by decide)
    | refused =>
      rw [hreply] at hopens
      exact absurd hopens (by decide)
    | opened fid =>
      exact ⟨_, _, rfl, ⟨fun hok => ⟨(hgood hok).1, (hgood hok).2⟩, hfailed⟩, ha.returned_eq.symm,
        ha.returned_eq⟩
  · exact ⟨_, _, rfl, ⟨fun hok => ⟨(hgood hok).1, (hgood hok).2⟩, hfailed⟩, ha.returned_eq.symm,
      ha.returned_eq⟩

end Access

/-! ### Chunks -/

/-- The offsets of a card are in a page. In the middle of a page that it reads, the page in the
buffer comes from the device, and so do the codes until they are read. -/
structure Slot.Sound (p : Slot) (d : Device) : Prop where
  rdoff_lt : p.rdoff < pageSize
  wroff_lt : p.wroff < pageSize
  obtained : p.rdoff ≠ 0 → d.obtained = true
  ecc : p.rdoff ≠ 0 ∨ p.rcoff ≠ 0 → p.eccObtained = true

/-- The page that a read loads, if it loads one. -/
def Port.loadsPage (p : Port) (size : ℕ) : Option UInt32 :=
  if loads p.rdoff p.rcoff size then some (if p.rdoff = 0 then p.rpage else p.rpage + 1) else none

section Read

variable {b : Backend} {acc : Accesses} {p : Slot} {d : Device} {size : ℕ}

/-- How a call of `MceRead` ends: what it copies comes from pages that were transferred, and the
access to the device is the one to `page`. -/
structure ReadPass.Ends (b : Backend) (acc : Accesses) (c : Fin 2) (d : Device)
    (page : Option UInt32) (r : ReadPass) : Prop where
  next : r.next = 0
  sound : r.port.Sound r.dev
  obtained : r.ok = true → r.obtained = true
  access : match page with
    | none => r.dev = d ∧ r.ok = true
    | some q => deviceReadPage b acc c d q = some (r.dev, r.ok)

/-- A call says whether the access failed. -/
theorem ReadPass.Ends.told {c : Fin 2} {page : Option UInt32} {r : ReadPass}
    (h : r.Ends b acc c d page) (hd : d.Good b) (hrep : Reporting b acc) : r.dev.Told b r.ok := by
  have haccess := h.access
  cases page with
  | none =>
    obtain ⟨hdev, hok⟩ : r.dev = d ∧ r.ok = true := haccess
    rw [hdev, hok]
    exact hd.told
  | some q =>
    have hread : deviceReadPage b acc c d q = some (r.dev, r.ok) := haccess
    obtain ⟨d', ok, hread', htold, -, -⟩ := deviceReadPage_spec hd hrep c q
    cases hread.symm.trans hread'
    exact htold

/-- The data part of a pass at the start of a page. -/
theorem readPart_start (c : Fin 2) (spec : CardSpec) (tot : ℕ) (hp : p.Sound d) (hd : d.Good b)
    (hrep : Reporting b acc) (hoff : p.rdoff = 0) (hcoff : p.rcoff = 0) (hsize : size < pageSize) :
    ∃ r, readPart b acc c spec tot p d size = some r ∧ r.Ends b acc c d (some p.rpage) := by
  obtain ⟨d', ok, hread, -, hobtained, -⟩ := deviceReadPage_spec hd hrep c p.rpage
  rw [readPart, if_pos hoff, readPage, hread, Option.map_some, Option.map_some]
  cases ok with
  | false =>
    refine ⟨_, rfl, rfl, ⟨hp.rdoff_lt, hp.wroff_lt, fun hne => absurd hoff hne, ?_⟩,
      fun h => absurd h Bool.false_ne_true, hread⟩
    rintro (hne | hne)
    · exact absurd hoff hne
    · exact absurd hcoff hne
  | true =>
    have hdata : dataSize 0 size = size := by
      rw [dataSize, if_neg (by omega)]
    have hend : ¬ 0 + size = pageSize := by omega
    simp only [if_true, hoff, hdata, if_neg hend]
    refine ⟨_, rfl, rfl, ⟨?_, hp.wroff_lt, fun _ => hobtained, fun _ => hobtained⟩,
      fun _ => hobtained, hread⟩
    show 0 + size < pageSize
    omega

/-- A chunk at the start of a page. -/
theorem readOnce_start (c : Fin 2) (spec : CardSpec) (tot : ℕ) (hp : p.Sound d) (hd : d.Good b)
    (hrep : Reporting b acc) (hoff : p.rdoff = 0) (hsize : size < pageSize) :
    ∃ r, readOnce b acc c spec tot p d size = some r ∧
      r.Ends b acc c d (if EccOnly 0 p.rcoff size then none else some p.rpage) := by
  by_cases hcoff : p.rcoff = 0
  · obtain ⟨r, hr, hends⟩ := readPart_start c spec tot hp hd hrep hoff hcoff hsize
    rw [readOnce, if_neg fun h => h.1 hcoff, if_neg fun h => h.1 hcoff]
    exact ⟨r, hr, hends⟩
  · have hecc := hp.ecc (.inr hcoff)
    rw [readOnce, if_pos ⟨hcoff, hoff⟩]
    dsimp only
    by_cases hle : size ≤ 16
    · have hsub : size - eccSize size = 0 := by
        rw [eccSize]
        split <;> omega
      rw [if_pos hsub, if_pos ⟨hcoff, rfl, hle⟩]
      exact ⟨_, rfl, rfl, ⟨hp.rdoff_lt, hp.wroff_lt, hp.obtained, fun _ => hecc⟩, fun _ => hecc,
        rfl, rfl⟩
    · have hecc16 : eccSize size = 16 := by rw [eccSize, if_neg (by omega)]
      have hleft : eccLeft p.rcoff size = 0 := by rw [eccLeft, hecc16, if_pos (by decide)]
      rw [hecc16, if_neg (by omega), if_neg fun h => hle h.2.2, hleft]
      obtain ⟨r, hr, hends⟩ := readPart_start c spec tot
        (p := { p with rcoff := 0 }) ⟨hp.rdoff_lt, hp.wroff_lt, hp.obtained, fun _ => hecc⟩ hd hrep
        hoff rfl (show size - 16 < pageSize by omega)
      rw [hr, Option.map_some]
      refine ⟨_, rfl, hends.next, hends.sound, fun hok => ?_, hends.access⟩
      show (p.eccObtained && r.obtained) = true
      rw [hecc, hends.obtained hok]
      rfl

/-- The data part of a pass in the middle of a page. -/
theorem readPart_middle (c : Fin 2) (spec : CardSpec) (tot : ℕ) (hp : p.Sound d)
    (hoff : p.rdoff ≠ 0) :
    ∃ r, readPart b acc c spec tot p d size = some r ∧ r.port.Sound r.dev ∧ r.ok = true ∧
      r.obtained = true ∧ r.dev = d ∧
      (pageSize ≤ p.rdoff + size ∧ r.next = tot - (pageSize - p.rdoff) ∧ r.port.rdoff = 0 ∧
          r.port.rcoff = p.rcoff + 3 ∧ r.port.rpage = p.rpage + 1 ∨
        p.rdoff + size < pageSize ∧ r.next = 0) := by
  have hobtained := hp.obtained hoff
  have hlt := hp.rdoff_lt
  rw [readPart, if_neg hoff, Option.map_some]
  simp only [if_true]
  by_cases hend : pageSize ≤ p.rdoff + size
  · have hdata : dataSize p.rdoff size = pageSize - p.rdoff := by
      rw [dataSize]
      split <;> omega
    rw [hdata, if_pos (by omega)]
    exact ⟨_, rfl, ⟨show 0 < pageSize by decide, hp.wroff_lt, fun h => absurd rfl h,
      fun _ => hp.ecc (.inl hoff)⟩, rfl, hobtained, rfl, .inl ⟨hend, rfl, rfl, rfl, rfl⟩⟩
  · have hdata : dataSize p.rdoff size = size := by rw [dataSize, if_neg (by omega)]
    rw [hdata, if_neg (by omega)]
    refine ⟨_, rfl, ⟨?_, hp.wroff_lt, fun _ => hobtained, fun _ => hp.ecc (.inl hoff)⟩, rfl,
      hobtained, rfl, .inr ⟨Nat.lt_of_not_le hend, rfl⟩⟩
    show p.rdoff + size < pageSize
    omega

/-- **A chunk that is read.** -/
theorem readChunk_spec (c : Fin 2) (spec : CardSpec) (hp : p.Sound d) (hd : d.Good b)
    (hrep : Reporting b acc) (hsize : size < 256) :
    ∃ r, readChunk b acc c spec p d size = some r ∧ r.Ends b acc c d (p.loadsPage size) := by
  have hsmall : size < pageSize := by
    rw [pageSize]
    omega
  rw [readChunk, readOnwards]
  by_cases hoff : p.rdoff = 0
  · obtain ⟨r, hr, hends⟩ := readOnce_start c spec size hp hd hrep hoff hsmall
    have hloads : p.loadsPage size = if EccOnly 0 p.rcoff size then none else some p.rpage := by
      rw [Port.loadsPage, loads, if_pos hoff, if_pos hoff]
      by_cases hecc : EccOnly 0 p.rcoff size
      · simp [hecc]
      · simp [hecc]
    rw [hr, Option.bind_some, if_pos hends.next, hloads]
    exact ⟨r, rfl, hends⟩
  · obtain ⟨r, hr, hsound, hok, hobtained, rfl, hnext⟩ :=
      (readPart_middle c spec size hp hoff :
        ∃ r, readPart b acc c spec size p d size = some r ∧ _)
    have honce : readOnce b acc c spec size p r.dev size = some r := by
      rw [readOnce, if_neg fun h => hoff h.2, hr]
    rw [honce, Option.bind_some]
    by_cases hcross : pageSize < p.rdoff + size
    · obtain ⟨-, hnext, hzero, hrcoff, hrpage⟩ | ⟨hin, -⟩ := hnext
      swap
      · omega
      have hlt := hp.rdoff_lt
      obtain ⟨r', hr', hends⟩ := readOnce_start c spec size hsound hd hrep hzero
        (show r.next < pageSize by omega)
      have hloads : p.loadsPage size =
          if EccOnly 0 r.port.rcoff r.next then none else some r.port.rpage := by
        rw [Port.loadsPage, loads, if_neg hoff, if_neg hoff, hrcoff, hrpage, hnext,
          decide_eq_true (show pageSize - p.rdoff < size by omega)]
        by_cases hecc : EccOnly 0 (p.rcoff + 3) (size - (pageSize - p.rdoff))
        · simp [hecc]
        · simp [hecc]
      rw [if_neg (by omega), readOnwards, hr', Option.bind_some, if_pos hends.next, Option.map_some,
        hloads]
      refine ⟨_, rfl, hends.next, hends.sound, fun h => ?_, hends.access⟩
      show (r.obtained && r'.obtained) = true
      rw [hobtained, hends.obtained h]
      rfl
    · have hzero : r.next = 0 := by
        obtain ⟨-, hnext, -⟩ | ⟨-, hnext⟩ := hnext
        · rw [hnext]
          omega
        · exact hnext
      have hloads : p.loadsPage size = none := by
        rw [Port.loadsPage, loads, if_neg hoff,
          decide_eq_false (show ¬ pageSize - p.rdoff < size by omega), Bool.false_and]
        rfl
      rw [if_pos hzero, hloads]
      exact ⟨r, rfl, hzero, hsound, fun _ => hobtained, rfl, hok⟩

end Read

section Write

variable {b : Backend} {acc : Accesses} {p q : Slot} {d : Device} {buf : List UInt8} {tot size : ℕ}

/-- The fields that a read uses are the same. -/
structure Slot.SameRead (p q : Slot) : Prop where
  rdoff : q.rdoff = p.rdoff
  rcoff : q.rcoff = p.rcoff
  eccObtained : q.eccObtained = p.eccObtained

/-- How a pass of `MceWrite` ends; `kept` says that nothing is put into the buffer. -/
structure WritePass.Ends (b : Backend) (p : Slot) (d : Device) (kept : Prop) (r : WritePass) :
    Prop where
  told : r.dev.Told b r.ok
  wroff_lt : r.port.wroff < pageSize
  same : p.SameRead r.port
  obtained : kept → r.dev.obtained = d.obtained

theorem dataSize_eq_zero_iff {off : ℕ} (h : off < pageSize) : dataSize off size = 0 ↔ size = 0 := by
  rw [dataSize]
  split <;> omega

/-- The data part of a pass: it ends the chunk, or it ends the page. -/
theorem writePart_spec (tot : ℕ) (hp : p.wroff < pageSize) (hd : d.Good b)
    (hrep : Reporting b acc) (buf : List UInt8) (size : ℕ) :
    ∃ r, writePart b acc tot p d buf size = some r ∧ r.Ends b p d (size = 0) ∧
      (r.next = 0 ∨
        pageSize ≤ p.wroff + size ∧ r.next = tot - (pageSize - p.wroff) ∧ r.ok = true ∧
          r.port.wroff = 0) := by
  have hzero : dataSize p.wroff size = 0 ↔ size = 0 := dataSize_eq_zero_iff hp
  obtain ⟨n, hn⟩ : ∃ n, dataSize p.wroff size = n := ⟨_, rfl⟩
  have hfits : p.wroff + n ≤ pageSize ∧ n ≤ size := by
    rw [← hn, dataSize]
    split <;> omega
  rw [hn] at hzero
  rw [writePart, hn]
  generalize hpage : d.buf.take p.wroff ++ buf.take n ++ d.buf.drop (p.wroff + n) = page
  have hgood : ({ d with buf := page, obtained := d.obtained && n == 0 } : Device).Good b :=
    ⟨hd.failed, hd.sema⟩
  have hkept : size = 0 → (d.obtained && n == 0) = d.obtained := by
    intro h
    rw [hzero.mpr h]
    exact Bool.and_true _
  split_ifs with hend
  · obtain ⟨d', ok, hwrite, htold, hobtained⟩ := deviceWritePage_spec hgood hrep p.wpage
    rw [hwrite, Option.map_some]
    have hsame : size = 0 → d'.obtained = d.obtained := fun h => hobtained.trans (hkept h)
    cases ok with
    | false =>
      exact ⟨_, rfl, ⟨htold, show 0 < pageSize by decide, ⟨rfl, rfl, rfl⟩, hsame⟩, .inl rfl⟩
    | true =>
      refine ⟨_, rfl, ⟨htold, show 0 < pageSize by decide, ⟨rfl, rfl, rfl⟩, hsame⟩,
        .inr ⟨by omega, ?_, rfl, rfl⟩⟩
      show tot - n = tot - (pageSize - p.wroff)
      omega
  · refine ⟨_, rfl, ⟨hgood.told, ?_, ⟨rfl, rfl, rfl⟩, hkept⟩, .inl rfl⟩
    show p.wroff + n < pageSize
    omega

/-- A pass: its ECC part leaves the buffer alone. -/
theorem writeOnce_spec (tot : ℕ) (hp : p.wroff < pageSize) (hd : d.Good b)
    (hrep : Reporting b acc) (buf : List UInt8) (hsize : size < pageSize) :
    ∃ r, writeOnce b acc tot p d buf size = some r ∧
      r.Ends b p d (size = 0 ∨ EccOnly p.wroff p.wcoff size) ∧
      (r.next = 0 ∨
        p.wroff ≠ 0 ∧ pageSize ≤ p.wroff + size ∧ r.next = tot - (pageSize - p.wroff) ∧
          r.ok = true ∧ r.port.wroff = 0) := by
  by_cases hecc : p.wcoff ≠ 0 ∧ p.wroff = 0
  · rw [writeOnce, if_pos hecc]
    dsimp only
    split_ifs with hsub
    · exact ⟨_, rfl, ⟨hd.told, hp, ⟨rfl, rfl, rfl⟩, fun _ => rfl⟩, .inl rfl⟩
    · obtain ⟨r, hr, hends, hnext⟩ := writePart_spec tot
        (p := { p with wcoff := eccLeft p.wcoff size }) hp hd hrep (buf.drop (eccSize size))
        (size - eccSize size)
      refine ⟨r, hr, ⟨hends.told, hends.wroff_lt, ⟨hends.same.1, hends.same.2, hends.same.3⟩, ?_⟩,
        .inl ?_⟩
      · intro hle
        refine hends.obtained ?_
        have hle16 : size ≤ 16 := by
          obtain h | h := hle
          · omega
          · exact h.2.2
        rw [eccSize]
        split <;> omega
      · obtain hnext | ⟨hend, -⟩ := hnext
        · exact hnext
        · have hzero : p.wroff = 0 := hecc.2
          dsimp only at hend
          omega
  · rw [writeOnce, if_neg hecc]
    obtain ⟨r, hr, hends, hnext⟩ := writePart_spec tot hp hd hrep buf size
    refine ⟨r, hr, ⟨hends.told, hends.wroff_lt, hends.same, ?_⟩, ?_⟩
    · rintro (h | h)
      · exact hends.obtained h
      · exact absurd ⟨h.1, h.2.1⟩ hecc
    · obtain hnext | ⟨hend, hnext⟩ := hnext
      · exact .inl hnext
      · exact .inr ⟨by omega, hend, hnext⟩

/-- **A chunk that is written.** -/
theorem writeChunk_spec (hp : p.wroff < pageSize) (hd : d.Good b)
    (hrep : Reporting b acc) (hsize : buf.length < 256) :
    ∃ r, writeChunk b acc p d buf = some r ∧
      r.Ends b p d (buf.length = 0 ∨ EccOnly p.wroff p.wcoff buf.length) := by
  have hsmall : buf.length < pageSize := by
    rw [pageSize]
    omega
  obtain ⟨r, hr, hends, hnext⟩ := writeOnce_spec buf.length hp hd hrep buf hsmall
  rw [writeChunk, writeOnwards, hr, Option.bind_some]
  obtain hnext | ⟨hoff, hend, hnext, hok, hzero⟩ := hnext
  · rw [if_pos hnext]
    exact ⟨r, rfl, hends⟩
  · split_ifs with hdone
    · exact ⟨r, rfl, hends⟩
    · obtain ⟨r', hr', hends', hnext'⟩ := writeOnce_spec buf.length hends.wroff_lt
        (hends.told.good hok) hrep r.rest (show r.next < pageSize by omega)
      have hlast : r'.next = 0 := by
        obtain h | h := hnext'
        · exact h
        · exact absurd hzero h.1
      rw [writeOnwards, hr', Option.bind_some, if_pos hlast]
      refine ⟨r', rfl, hends'.told, hends'.wroff_lt, ⟨?_, ?_, ?_⟩, ?_⟩
      · exact hends'.same.rdoff.trans hends.same.rdoff
      · exact hends'.same.rcoff.trans hends.same.rcoff
      · exact hends'.same.eccObtained.trans hends.same.eccObtained
      · rintro (h | h)
        · omega
        · exact absurd h.2.1 hoff

end Write

section Erase

variable {b : Backend} {acc : Accesses} {d : Device}

theorem erasePages_spec (hd : d.Good b) (hrep : Reporting b acc) (n : ℕ)
    (page : UInt32) : ∃ d' ok, erasePages b acc n page d = some (d', ok) ∧ d'.Told b ok := by
  induction n generalizing d page with
  | zero => exact ⟨d, true, rfl, hd.told⟩
  | succ n ih =>
    obtain ⟨d₁, ok, hwrite, htold, -⟩ := deviceWritePage_spec hd hrep page
    rw [erasePages, hwrite, Option.bind_some]
    cases ok with
    | false => exact ⟨d₁, false, rfl, htold⟩
    | true => exact ih (htold.good rfl) (page + 1)

/-- **A block that is erased.** -/
theorem eraseBlock_spec (spec : CardSpec) (hd : d.Good b) (hrep : Reporting b acc)
    (page : UInt32) :
    ∃ d' ok, eraseBlock b acc spec d page = some (d', ok) ∧ d'.Told b ok := by
  have hgood : ({ d with
      buf := List.replicate pageSize spec.clearByte, obtained := false } : Device).Good b :=
    ⟨hd.failed, hd.sema⟩
  exact erasePages_spec hgood hrep _ page

end Erase

end Mce

end OpenPS2Loader
