import Mathlib.Tactic.IntervalCases
import OpenPS2Loader.Texcache.Stores

/-!
# Reunion by value

`texcache.c` hands out ids per request, and a list rebuild makes every row forget its ids. A row
that lost them is to find the picture again by its value: `cacheGetTextureEx` looks for a slot
whose key is the value before it claims one, so that a picture that is decoded or in flight is not
read a second time.

The search stops at the first slot with the key. Where that slot only remembers an absence of an
older generation, the draw goes on to claim a slot, and takes the one that was not used for the
longest time, free slots first. If that is another slot, two slots carry the key from then on, and
the search stops at the stale one for every row.

## Main definitions

* `Texcache.Ids` — a row whose ids name a slot names one that was claimed for its value
* `Texcache.KeysUnique` — no two slots of a cache carry one key
* `Texcache.Rejoins` — a draw that finds a slot of its value it cannot use claims that slot
* `Texcache.Reunited` — one slot per key, and a row finds it

## Main results

* `Texcache.ids_of_run` — in every run whose draws are undisturbed
* `Texcache.reunited_of_run` — if they rejoin as well
* `Texcache.not_reunited_staleMemo` — a run with two slots for one key
-/

namespace OpenPS2Loader

namespace Texcache

variable {caches : Caches} {s s' : Texcache}

/-! ### The ids -/

/-- A thread has set the `UID` of the slot to 0, and the key is next. -/
def KeyNext (s : Texcache) (e : ℕ × ℕ) : Prop := ∃ w, s.underway w = (e, clearStores.drop 4)

/-- A slot carries an id that was handed out; a key comes with an id, unless it is cleared at the
moment. -/
structure SlotOk (s : Texcache) (e : ℕ × ℕ) : Prop where
  uid_lt : (s.slots e).uid.toNat < (s.nextUID e.1).toNat
  uid_ne : (s.slots e).key ≠ [] → (s.slots e).uid ≠ 0 ∨ (s.slots e).qr = none ∧ KeyNext s e

/-- The ids of a row were handed out, and where they name a slot, it was claimed for the value. -/
structure RowOk (s : Texcache) (row : Row) (i : ℕ) : Prop where
  uid_ne : row.uid ≠ 0
  uid_lt : row.uid.toNat < (s.nextUID row.cache).toNat
  key : (s.slots (row.cache, i)).uid = row.uid → (s.slots (row.cache, i)).key = keyOf row.value

/-- The ids of the slots and of the rows. -/
structure Ids (caches : Caches) (s : Texcache) : Prop where
  next_pos : ∀ c, 0 < (s.nextUID c).toNat
  next_le : ∀ c, (s.nextUID c).toNat ≤ intMax.toNat
  slot : ∀ e, SlotOk s e
  beyond : ∀ c i, caches.count c ≤ i → (s.slots (c, i)).key = []
  row : ∀ r (i : ℕ), (s.rows r).cacheId = i → RowOk s (s.rows r) i

/-- At most one slot of a cache carries a key. -/
def KeysUnique (s : Texcache) : Prop :=
  ∀ c i j, (s.slots (c, i)).key ≠ [] → (s.slots (c, i)).key = (s.slots (c, j)).key → i = j

theorem ids_init (caches : Caches) : Ids caches init where
  next_pos _ := show 0 < (1 : UInt32).toNat by decide
  next_le _ := show (1 : UInt32).toNat ≤ intMax.toNat by decide
  slot _ := ⟨show (0 : UInt32).toNat < (1 : UInt32).toNat by decide, fun h => absurd rfl h⟩
  beyond _ _ _ := rfl
  row r i h := by simp [init] at h

theorem keysUnique_init : KeysUnique init := fun _ _ _ h => absurd rfl h

/-- No key, no id and no `qr` of a slot was written. -/
structure Carried (s s' : Texcache) : Prop where
  key : ∀ e, (s'.slots e).key = (s.slots e).key
  uid : ∀ e, (s'.slots e).uid = (s.slots e).uid
  qr : ∀ e, (s'.slots e).qr = (s.slots e).qr
  nextUID : s'.nextUID = s.nextUID
  keyNext : ∀ e, KeyNext s e → KeyNext s' e

theorem Moved.carried {stamped : Option (ℕ × ℕ)} (h : Moved s stamped s') : Carried s s' where
  key e := by obtain heq | ⟨-, heq⟩ := h.slot e <;> rw [heq]
  uid e := by obtain heq | ⟨-, heq⟩ := h.slot e <;> rw [heq]
  qr e := by obtain heq | ⟨-, heq⟩ := h.slot e <;> rw [heq]
  nextUID := h.nextUID
  keyNext e := fun ⟨w, hw⟩ => ⟨w, by rw [h.underway, hw]⟩

theorem Started.carried {w : Writer} {e : ℕ × ℕ} {stores : List Store}
    (h : Started s w e stores s') (hstored : (s.underway w).2 = []) : Carried s s' where
  key e := by rw [h.slots]
  uid e := by rw [h.slots]
  qr e := by rw [h.slots]
  nextUID := congrArg (·.1) h.clocks
  keyNext e := fun ⟨w', hw'⟩ => ⟨w', h.underway_eq hstored hw' (by decide)⟩

theorem carried_of_eq (hslots : s'.slots = s.slots) (huid : s'.nextUID = s.nextUID)
    (hunder : s'.underway = s.underway) : Carried s s' where
  key e := by rw [hslots]
  uid e := by rw [hslots]
  qr e := by rw [hslots]
  nextUID := huid
  keyNext e := fun ⟨w, hw⟩ => ⟨w, by rw [hunder, hw]⟩

theorem RowOk.carried {row : Row} {i : ℕ} (h : RowOk s row i) (hc : Carried s s') :
    RowOk s' row i := by
  refine ⟨h.uid_ne, hc.nextUID ▸ h.uid_lt, fun heq => ?_⟩
  rw [hc.key]
  exact h.key (hc.uid _ ▸ heq)

/-- Where no key and no id was written, only the rows have to be looked at. -/
theorem Ids.carried (h : Ids caches s) (hc : Carried s s')
    (hrow : ∀ r (i : ℕ), (s'.rows r).cacheId = i → RowOk s' (s'.rows r) i) : Ids caches s' where
  next_pos c := hc.nextUID ▸ h.next_pos c
  next_le c := hc.nextUID ▸ h.next_le c
  slot e := by
    refine ⟨?_, fun hne => ?_⟩
    · rw [hc.uid, hc.nextUID]
      exact (h.slot e).uid_lt
    · rw [hc.key] at hne
      rw [hc.uid, hc.qr]
      exact ((h.slot e).uid_ne hne).imp_right (And.imp_right (hc.keyNext e))
  beyond c i hi := (hc.key (c, i)).trans (h.beyond c i hi)
  row := hrow

/-- No row got new ids. -/
theorem Ids.carried_rows (h : Ids caches s) (hc : Carried s s') (hrows : s'.rows = s.rows) :
    Ids caches s' :=
  h.carried hc fun r i hi => by
    rw [hrows] at hi ⊢
    exact (h.row r i hi).carried hc

/-- One row got new ids. -/
theorem Ids.carried_row {r : ℕ} {row : Row} (h : Ids caches s) (hc : Carried s s')
    (hrows : s'.rows = Function.update s.rows r row)
    (hrow : ∀ i : ℕ, row.cacheId = i → RowOk s row i) : Ids caches s' :=
  h.carried hc fun r' i hi => by
    rw [hrows] at hi ⊢
    rcases eq_or_ne r' r with rfl | hr
    · rw [Function.update_self] at hi ⊢
      exact (hrow i hi).carried hc
    · rw [Function.update_of_ne hr] at hi ⊢
      exact (h.row r' i hi).carried hc

/-- Keys only disappear. -/
theorem KeysUnique.mono (h : KeysUnique s)
    (hkey : ∀ e, (s'.slots e).key = (s.slots e).key ∨ (s'.slots e).key = []) : KeysUnique s' := by
  intro c i j hne heq
  have hkeyi := (hkey (c, i)).resolve_right hne
  have hkeyj := (hkey (c, j)).resolve_right fun hnil => hne (heq.trans hnil)
  exact h c i j (hkeyi ▸ hne) (hkeyi.symm.trans (heq.trans hkeyj))

theorem KeysUnique.carried (h : KeysUnique s) (hc : Carried s s') : KeysUnique s' :=
  h.mono fun e => .inl (hc.key e)

/-! ### A store -/

section Written

variable {w : Writer} {e : ℕ × ℕ} {y : Store} {stores : List Store}

theorem clearStores_uid {k : ℕ} (h : clearStores[k]? = some .uid) : k = 3 ∨ k = 9 := by
  have hk : k < 10 := (List.getElem?_eq_some_iff.mp h).1
  interval_cases k <;> simp [clearStores] at h ⊢

theorem clearStores_key {k : ℕ} (h : clearStores[k]? = some .key) : k = 4 := by
  have hk : k < 10 := (List.getElem?_eq_some_iff.mp h).1
  interval_cases k <;> simp [clearStores] at h ⊢

/-- A store to `UID` is one of `cacheClearItem`: `qr` is NULL, and the key is next, or empty. -/
theorem Progress.uid (h : Progress s e (.uid :: stores) w) :
    (s.slots e).qr = none ∧ (stores = clearStores.drop 4 ∨ (s.slots e).key = []) := by
  cases h with
  | clear _ k h hk hcleared =>
    obtain ⟨hy, hrest⟩ := clearStores_drop h
    obtain rfl | rfl := clearStores_uid hy
    · exact ⟨hcleared.qr (by decide), .inl hrest⟩
    · exact ⟨hcleared.qr (by decide), .inr (hcleared.key (by decide))⟩
  | done _ h => cases h
  | loaded h | stamp h _ | parked _ _ h | failEpoch _ _ h _ | qr h _ => cases (List.cons.inj h).1

/-- The key is not cleared before the `UID`. -/
theorem Progress.key (h : Progress s e (.key :: stores) w) : (s.slots e).uid = 0 := by
  cases h with
  | clear _ k h hk hcleared =>
    obtain rfl := clearStores_key (clearStores_drop h).1
    exact hcleared.uid (by decide)
  | done _ h => cases h
  | loaded h | stamp h _ | parked _ _ h | failEpoch _ _ h _ | qr h _ => cases (List.cons.inj h).1

/-- A store leaves the id and the key alone, or it is one of two of `cacheClearItem`. -/
theorem Store.key_uid (frame : ℤ) (x : Slot) (y : Store) :
    y = .uid ∨ y = .key ∨ (y.apply frame x).uid = x.uid ∧ (y.apply frame x).key = x.key := by
  cases y with
  | uid => exact .inl rfl
  | key => exact .inr (.inl rfl)
  | _ => exact .inr (.inr ⟨rfl, rfl⟩)

theorem KeyNext.written (h : KeyNext s e) (hunder : s.underway w = (e, y :: stores)) :
    y = .key ∨ KeyNext (s.written w e y stores) e := by
  obtain ⟨w', hw'⟩ := h
  rcases eq_or_ne w' w with rfl | hw
  · rw [hunder] at hw'
    exact .inl (List.cons.inj (Prod.mk.inj hw').2).1
  · exact .inr ⟨w', by rw [written_underway_of_ne hw, hw']⟩

theorem SlotOk.written (h : SlotOk s e) (hprog : Progress s e (y :: stores) w)
    (hpos : 0 < (s.nextUID e.1).toNat) (hunder : s.underway w = (e, y :: stores)) :
    SlotOk (s.written w e y stores) e := by
  refine ⟨?_, fun hne => ?_⟩
  · rw [written_slots_self]
    obtain rfl | rfl | ⟨huid, -⟩ := Store.key_uid s.frame (s.slots e) y
    · exact hpos
    · exact h.uid_lt
    · rw [huid]
      exact h.uid_lt
  · rw [written_slots_self] at hne ⊢
    have hne₀ : (s.slots e).key ≠ [] := fun hnil => hne (Store.apply_key hnil)
    obtain hstay | ⟨hqr, hnext⟩ := h.uid_ne hne₀
    · obtain rfl | rfl | ⟨huid, -⟩ := Store.key_uid s.frame (s.slots e) y
      · obtain ⟨hqr, hrest⟩ := hprog.uid
        refine .inr ⟨hqr, w, ?_⟩
        rw [written_underway_self, hrest.resolve_right hne₀]
      · exact absurd rfl hne
      · exact .inl (huid ▸ hstay)
    · obtain rfl | hnext' := hnext.written hunder
      · exact absurd rfl hne
      · exact .inr ⟨Store.apply_qr hqr, hnext'⟩

theorem RowOk.written {row : Row} {i : ℕ} (h : RowOk s row i)
    (hprog : Progress s e (y :: stores) w) : RowOk (s.written w e y stores) row i := by
  refine ⟨h.uid_ne, h.uid_lt, fun heq => ?_⟩
  rcases eq_or_ne (row.cache, i) e with rfl | he
  · rw [written_slots_self] at heq ⊢
    obtain rfl | rfl | ⟨huid, hkey⟩ := Store.key_uid s.frame (s.slots (row.cache, i)) y
    · exact absurd heq.symm h.uid_ne
    · exact absurd (heq.symm.trans hprog.key) h.uid_ne
    · rw [hkey]
      exact h.key (huid ▸ heq)
  · rw [written_slots_of_ne he] at heq ⊢
    exact h.key heq

theorem Ids.written (h : Ids caches s) (hstored : Stored s)
    (hunder : s.underway w = (e, y :: stores)) : Ids caches (s.written w e y stores) := by
  have hprog : Progress s e (y :: stores) w := by
    have := hstored.writer w
    rwa [hunder] at this
  refine ⟨h.next_pos, h.next_le, fun e' => ?_, fun c i hi => ?_, fun r i hi => ?_⟩
  · rcases eq_or_ne e' e with rfl | he
    · exact (h.slot e').written hprog (h.next_pos e'.1) hunder
    · refine ⟨?_, fun hne => ?_⟩
      · rw [written_slots_of_ne he]
        exact (h.slot e').uid_lt
      · rw [written_slots_of_ne he] at hne ⊢
        refine ((h.slot e').uid_ne hne).imp_right (And.imp_right fun ⟨w', hw'⟩ => ⟨w', ?_⟩)
        rw [written_underway_of_ne, hw']
        rintro rfl
        exact he (Prod.mk.inj (hw'.symm.trans hunder)).1
  · rcases eq_or_ne (c, i) e with rfl | he
    · rw [written_slots_self]
      exact Store.apply_key (h.beyond c i hi)
    · rw [written_slots_of_ne he]
      exact h.beyond c i hi
  · exact (h.row r i hi).written hprog

theorem KeysUnique.written (h : KeysUnique s) : KeysUnique (s.written w e y stores) := by
  refine h.mono fun e' => ?_
  rcases eq_or_ne e' e with rfl | he
  · rw [written_slots_self]
    cases y with
    | key => exact .inr rfl
    | _ => exact .inl rfl
  · exact .inl (by rw [written_slots_of_ne he])

end Written

/-! ### The slot a row finds -/

/-- A slot that is pending or ready for a row was claimed for its value. -/
theorem Ids.found {row : Row} {i : ℕ} (h : Ids caches s)
    (hrow : ∀ i : ℕ, row.cacheId = i → RowOk s row i) (hexp : ¬ Exposed s (row.cache, i))
    (hlook : lookup caches s row = .pending i ∨ lookup caches s row = .ready i) :
    (s.slots (row.cache, i)).uid ≠ 0 ∧ (s.slots (row.cache, i)).key = keyOf row.value := by
  obtain ⟨hl, -⟩ | hid | hval := lookup_cases caches s row
  · rw [hl] at hlook
    exact absurd hlook (by simp)
  · obtain ⟨j, hj, -, huid, hl⟩ := byId_eq_some hid
    obtain rfl : j = i := by
      obtain hlook | hlook := hlook <;> rw [hl] at hlook <;> split_ifs at hlook <;> cases hlook <;>
        rfl
    obtain ⟨hne, -, hkey⟩ := hrow j hj
    exact ⟨huid ▸ hne, hkey huid⟩
  · have hfound : keySlot caches s row = some i := by
      obtain hl | ⟨j, hj, hl⟩ := byValue_eq hval
      · rw [hl] at hlook
        exact absurd hlook (by simp)
      · obtain ⟨hl, -⟩ | ⟨hl, -⟩ | ⟨hl, -⟩ := hl <;> obtain hlook | hlook := hlook <;>
          rw [hl] at hlook <;> cases hlook <;> exact hj
    obtain ⟨-, hkey, hne, hlen⟩ := keySlot_eq_some hfound
    have huid := ((h.slot (row.cache, i)).uid_ne (hkey ▸ hne)).resolve_right
      fun ⟨hqr, w, hw⟩ => hexp (exposed_of_underway hw (by decide) (.inl hqr))
    exact ⟨huid, by rw [hkey, keyOf, if_pos hlen]⟩

/-- The ids a row gets from the slot it finds. -/
theorem Ids.foundRow {row : Row} {i : ℕ} (h : Ids caches s)
    (hrow : ∀ i : ℕ, row.cacheId = i → RowOk s row i) (hexp : ¬ Exposed s (row.cache, i))
    (hlook : lookup caches s row = .pending i ∨ lookup caches s row = .ready i) (j : ℕ)
    (hj : (s.foundRow row i).cacheId = j) : RowOk s (s.foundRow row i) j := by
  obtain rfl : i = j := Int.ofNat.inj hj
  obtain ⟨hne, hkey⟩ := h.found hrow hexp hlook
  exact ⟨hne, (h.slot (row.cache, i)).uid_lt, fun _ => hkey⟩

/-! ### A claim -/

section Claimed

variable {r i a : ℕ}

theorem toNat_add_one {x : UInt32} (hle : x.toNat ≤ intMax.toNat) :
    (x + 1).toNat = x.toNat + 1 := by
  have hmax : intMax.toNat = 2147483647 := rfl
  rw [UInt32.toNat_add, UInt32.toNat_one]
  omega

theorem Claimed.nextUID_le (hc : Claimed s r i a s') (h : Ids caches s) (c : ℕ) :
    (s.nextUID c).toNat ≤ (s'.nextUID c).toNat ∧ (s'.nextUID c).toNat ≤ intMax.toNat := by
  rw [hc.nextUID]
  rcases eq_or_ne c (s.rows r).cache with rfl | hne
  · rw [Function.update_self, toNat_add_one (h.next_le _)]
    have hroom : (s.nextUID (s.rows r).cache).toNat ≠ intMax.toNat :=
      fun heq => hc.room (UInt32.toNat_inj.mp heq)
    have hle := h.next_le (s.rows r).cache
    omega
  · rw [Function.update_of_ne hne]
    exact ⟨Nat.le_refl _, h.next_le c⟩

/-- The next id is none that a row may lack. -/
theorem Ids.nextUID_ne (h : Ids caches s) (c : ℕ) : s.nextUID c ≠ 0 := by
  intro heq
  have hpos := h.next_pos c
  rw [heq] at hpos
  exact Nat.lt_irrefl 0 hpos

theorem Ids.claimed (h : Ids caches s) (hc : Claimed s r i a s')
    (hi : i < caches.count (s.rows r).cache) : Ids caches s' := by
  have hnext : (s'.nextUID (s.rows r).cache).toNat = (s.nextUID (s.rows r).cache).toNat + 1 := by
    rw [hc.nextUID, Function.update_self, toNat_add_one (h.next_le _)]
  refine ⟨fun c => ?_, fun c => (hc.nextUID_le h c).2, fun e => ?_, fun c j hj => ?_,
    fun r' j hj => ?_⟩
  · exact Nat.lt_of_lt_of_le (h.next_pos c) (hc.nextUID_le h c).1
  · rcases eq_or_ne e ((s.rows r).cache, i) with rfl | hne
    · refine ⟨?_, fun _ => .inl ?_⟩
      · rw [hc.slots, Function.update_self, hnext]
        exact Nat.lt_succ_self _
      · rw [hc.slots, Function.update_self]
        exact h.nextUID_ne _
    · have hslot := h.slot e
      refine ⟨?_, ?_⟩
      · rw [hc.slots, Function.update_of_ne hne]
        exact Nat.lt_of_lt_of_le hslot.uid_lt (hc.nextUID_le h e.1).1
      · rw [hc.slots, Function.update_of_ne hne, KeyNext, hc.underway]
        exact hslot.uid_ne
  · rw [hc.slots, Function.update_of_ne]
    · exact h.beyond c j hj
    · rintro heq
      obtain ⟨rfl, rfl⟩ := Prod.mk.inj heq
      exact absurd hi (Nat.not_lt.mpr hj)
  · rw [hc.rows] at hj ⊢
    rcases eq_or_ne r' r with rfl | hr
    · rw [Function.update_self] at hj ⊢
      obtain rfl : i = j := Int.ofNat.inj hj
      refine ⟨h.nextUID_ne _, by rw [hnext]; exact Nat.lt_succ_self _, fun _ => ?_⟩
      rw [hc.slots, Function.update_self]
      rfl
    · rw [Function.update_of_ne hr] at hj ⊢
      obtain ⟨hne, hlt, hkey⟩ := h.row r' j hj
      refine ⟨hne, Nat.lt_of_lt_of_le hlt (hc.nextUID_le h _).1, fun heq => ?_⟩
      rw [hc.slots] at heq ⊢
      rcases eq_or_ne ((s.rows r').cache, j) ((s.rows r).cache, i) with he | he
      · -- the id is new, so no row has it
        rw [he, Function.update_self] at heq
        rw [(Prod.mk.inj he).1, ← heq] at hlt
        exact absurd hlt (Nat.lt_irrefl _)
      · rw [Function.update_of_ne he] at heq ⊢
        exact hkey heq

theorem KeysUnique.claimed (h : KeysUnique s) (hc : Claimed s r i a s')
    (hfresh : ∀ j, j ≠ i → keyOf (s.rows r).value ≠ [] →
      (s.slots ((s.rows r).cache, j)).key ≠ keyOf (s.rows r).value) : KeysUnique s' := by
  intro c j k hne heq
  rw [hc.slots] at hne heq
  rcases eq_or_ne (c, j) ((s.rows r).cache, i) with hj | hj
  · obtain ⟨rfl, rfl⟩ := Prod.mk.inj hj
    rw [Function.update_self] at hne heq
    by_contra hjk
    have hk : ((s.rows r).cache, k) ≠ ((s.rows r).cache, j) := by simpa using Ne.symm hjk
    rw [Function.update_of_ne hk] at heq
    exact hfresh k (Ne.symm hjk) hne heq.symm
  · rw [Function.update_of_ne hj] at hne heq
    rcases eq_or_ne (c, k) ((s.rows r).cache, i) with hk | hk
    · obtain ⟨rfl, rfl⟩ := Prod.mk.inj hk
      rw [Function.update_self] at heq
      refine absurd heq (hfresh j (fun hjk => hj (by rw [hjk])) ?_)
      exact fun hnil => hne (heq.trans hnil)
    · rw [Function.update_of_ne hk] at heq
      exact h c j k hne heq

end Claimed

/-! ### The steps -/

theorem Ids.drawn {r : ℕ} {d : Draw} {o : Option ℕ} (h : Ids caches s)
    (hok : Undisturbed caches s (.draw r d)) (hd : DrawEffect caches s r d s' o) :
    Ids caches s' := by
  cases hd with
  | unchanged hmoved hrows _ => exact h.carried_rows hmoved.carried hrows
  | pending i _ hmoved hlook hrows =>
    exact h.carried_row hmoved.carried hrows
      (h.foundRow (h.row r) (hok.1 i (by rw [hlook]; rfl)) (.inl hlook))
  | ready i _ hmoved hlook hrows =>
    exact h.carried_row hmoved.carried hrows
      (h.foundRow (h.row r) (hok.1 i (by rw [hlook]; rfl)) (.inr hlook))
  | parked i hmoved _ hrows => exact h.carried_row hmoved.carried hrows fun i hi => by cases hi
  | missed hmoved _ _ hrows => exact h.carried_row hmoved.carried hrows fun i hi => by cases hi
  | claimed i a hc _ hclaims _ =>
    obtain ⟨-, -, hi, -⟩ := claims_eq_some hclaims
    exact h.claimed hc hi

theorem Ids.step {e : Event} (h : Ids caches s) (hstored : Stored s)
    (hok : Undisturbed caches s e) (hstep : step caches s e = some s') : Ids caches s' := by
  cases step_effect hstep with
  | idled _ _ hidled => exact h.carried_rows hidled.moved.carried hidled.rows
  | looked r _ stamped hmoved _ hrows => exact h.carried_rows hmoved.carried hrows
  | started _ _ w slot stores hdone hs => exact h.carried_rows (hs.carried hdone) hs.rows
  | stored w slot x stores hunder => exact h.written hstored hunder
  | drawn r d _ o hd => exact h.drawn hok hd
  | renumbered r c l value =>
    exact h.carried_row (carried_of_eq rfl rfl rfl) rfl fun i hi => by cases hi
  | ticked => exact h.carried_rows (carried_of_eq rfl rfl rfl) rfl
  | invalidated => exact h.carried_rows (carried_of_eq rfl rfl rfl) rfl

/-- A draw that finds a slot of its value it cannot use, and claims one, claims that slot. -/
def Rejoins (caches : Caches) (s : Texcache) : Event → Prop
  | .draw r d => ∀ i ∈ claims caches s r d, ∀ k ∈ keySlot caches s (s.rows r), k = i
  | _ => True

instance (caches : Caches) (s : Texcache) (e : Event) : Decidable (Rejoins caches s e) :=
  match e with
  | .draw r d =>
    inferInstanceAs
      (Decidable (∀ i ∈ claims caches s r d, ∀ k ∈ keySlot caches s (s.rows r), k = i))
  | .look _ | .renumber .. | .frame | .tick _ | .invalidate | .dropQueued | .pop | .begin
  | .loaded _ | .release | .finish | .cancel _ | .abort _ | .shutdown _ | .canceller _
  | .store _ => inferInstanceAs (Decidable True)

/-- No slot the draw does not look at carries the value. -/
theorem keySlot_eq_none {row : Row} (h : Ids caches s) (hnone : keySlot caches s row = none)
    (hne : keyOf row.value ≠ []) (j : ℕ) : (s.slots (row.cache, j)).key ≠ keyOf row.value := by
  intro hkey
  rw [keyOf] at hne hkey
  split_ifs at hne hkey with hlen
  · rw [keySlot, if_pos ⟨List.length_pos_iff.mpr hne, hlen⟩, List.find?_eq_none] at hnone
    rcases Nat.lt_or_ge j (caches.count row.cache) with hj | hj
    · have := hnone j (List.mem_range.mpr hj)
      simp [hkey, hne] at this
    · rw [h.beyond row.cache j hj] at hkey
      exact hne hkey.symm
  · exact hne rfl

theorem KeysUnique.step {e : Event} (h : KeysUnique s) (hids : Ids caches s)
    (hok : Rejoins caches s e) (hstep : step caches s e = some s') : KeysUnique s' := by
  cases step_effect hstep with
  | idled _ _ hidled => exact h.carried hidled.moved.carried
  | looked r _ stamped hmoved _ _ => exact h.carried hmoved.carried
  | started _ _ w slot stores hdone hs => exact h.carried (hs.carried hdone)
  | stored w slot x stores hunder => exact h.written
  | drawn r d _ o hd =>
    cases hd with
    | unchanged hmoved _ _ => exact h.carried hmoved.carried
    | pending i _ hmoved _ _ => exact h.carried hmoved.carried
    | ready i _ hmoved _ _ => exact h.carried hmoved.carried
    | parked i hmoved _ _ => exact h.carried hmoved.carried
    | missed hmoved _ _ _ => exact h.carried hmoved.carried
    | claimed i a hc hlook hclaims _ =>
      refine h.claimed hc fun j hj hne => ?_
      cases hslot : keySlot caches s (s.rows r) with
      | none => exact keySlot_eq_none hids hslot hne j
      | some k =>
        -- the search stopped at the slot that is claimed, and no other has the key
        obtain rfl : k = i := hok i hclaims k hslot
        obtain ⟨-, hkey, hvalue, hlen⟩ := keySlot_eq_some hslot
        intro heq
        rw [keyOf, if_pos hlen] at heq
        exact hj (h _ j k (heq ▸ hvalue) (heq.trans hkey.symm))
  | renumbered r c l value => exact h
  | ticked => exact h
  | invalidated => exact h

/-! ### What a draw finds -/

/-- The slot is in flight, or it has a picture: what `cacheLookupTexture` would return. -/
def Slot.Holds (x : Slot) : Prop := x.qr ≠ none ∨ x.lastUsed ≠ 0 ∧ x.texture = true

/-- A row that is not parked finds the slot that holds its value. -/
theorem lookup_of_holds {row : Row} {i : ℕ} (hids : Ids caches s) (huniq : KeysUnique s)
    (hrow : ∀ i : ℕ, row.cacheId = i → RowOk s row i) (hne : row.value ≠ [])
    (hlen : row.value.length < keySize) (hkey : (s.slots (row.cache, i)).key = row.value)
    (hholds : (s.slots (row.cache, i)).Holds) (hknown : lookup caches s row ≠ .known) :
    lookup caches s row =
      if (s.slots (row.cache, i)).qr = none then .ready i else .pending i := by
  have hkeyOf : keyOf row.value = row.value := by rw [keyOf, if_pos hlen]
  obtain ⟨hl, -⟩ | hid | hval := lookup_cases caches s row
  · exact absurd hl hknown
  · -- the ids name a slot of the value, and there is only one
    obtain ⟨j, hj, -, huid, hl⟩ := byId_eq_some hid
    have hkeyj : (s.slots (row.cache, j)).key = row.value := by
      rw [(hrow j hj).key huid, hkeyOf]
    obtain rfl : j = i := huniq row.cache j i (hkeyj ▸ hne) (hkeyj.trans hkey.symm)
    rw [hl]
    obtain hqr | ⟨hused, -⟩ := hholds
    · rw [if_pos (Option.isSome_iff_ne_none.mpr hqr), if_neg hqr]
    · cases hqr : (s.slots (row.cache, j)).qr with
      | none => simp [hused]
      | some a => simp
  · have hslot : keySlot caches s row = some i := by
      cases hslot : keySlot caches s row with
      | none =>
        exact absurd (hkey.trans hkeyOf.symm) (keySlot_eq_none hids hslot (hkeyOf.symm ▸ hne) i)
      | some j =>
        obtain ⟨-, hkeyj, -, -⟩ := keySlot_eq_some hslot
        rw [huniq row.cache j i (hkeyj ▸ hne) (hkeyj.trans hkey.symm)]
    rw [← hval, byValue, hslot]
    obtain hqr | ⟨hused, htex⟩ := hholds
    · simp [hqr, Option.isSome_iff_ne_none]
    · cases hqr : (s.slots (row.cache, i)).qr with
      | none => simp [hqr, hused, htex]
      | some a => simp [hqr]

/-- One slot for a value, and a row that asks for the value finds it there. -/
structure Reunited (caches : Caches) (s : Texcache) : Prop where
  /-- at most one slot of a cache carries a key -/
  unique : ∀ c i j (value : List UInt8), value ≠ [] → value.length < keySize →
    (s.slots (c, i)).key = value → (s.slots (c, j)).key = value → i = j
  /-- a row that is not parked returns or adopts the slot that holds its value -/
  adopts : ∀ r d i s' o, (s.rows r).value ≠ [] → (s.rows r).value.length < keySize →
    (s.slots ((s.rows r).cache, i)).key = (s.rows r).value →
    (s.slots ((s.rows r).cache, i)).Holds → lookup caches s (s.rows r) ≠ .known →
    cacheGetTextureEx caches s r d = some (s', o) →
    s'.rows r = s.foundRow (s.rows r) i ∧
      o = if (s.slots ((s.rows r).cache, i)).qr = none then some i else none
  /-- no row queues a read of a value that a slot holds -/
  no_read : ∀ r d i s' o, (s.rows r).value ≠ [] → (s.rows r).value.length < keySize →
    (s.slots ((s.rows r).cache, i)).key = (s.rows r).value →
    (s.slots ((s.rows r).cache, i)).Holds →
    cacheGetTextureEx caches s r d = some (s', o) → s'.enqueued = s.enqueued

theorem reunited_of_keysUnique (hids : Ids caches s) (huniq : KeysUnique s) :
    Reunited caches s where
  unique c i j value hne _ hi hj := huniq c i j (hi ▸ hne) (hi.trans hj.symm)
  adopts r d i s' o hne hlen hkey hholds hknown hdraw := by
    have hlook := lookup_of_holds hids huniq (hids.row r) hne hlen hkey hholds hknown
    cases cacheGetTextureEx_effect hdraw with
    | unchanged _ _ hl => exact absurd (hl.resolve_left hne) hknown
    | pending j _ _ hl hrows =>
      rw [hl] at hlook
      split_ifs at hlook with hqr
      cases hlook
      rw [hrows, Function.update_self, if_neg hqr]
      exact ⟨rfl, rfl⟩
    | ready j _ _ hl hrows =>
      rw [hl] at hlook
      split_ifs at hlook with hqr
      cases hlook
      rw [hrows, Function.update_self, if_pos hqr]
      exact ⟨rfl, rfl⟩
    | parked j _ hl _ =>
      rw [hl] at hlook
      split_ifs at hlook
    | missed _ hl _ _ =>
      rw [hl] at hlook
      split_ifs at hlook
    | claimed j a _ hl _ _ =>
      rw [hl] at hlook
      split_ifs at hlook
  no_read r d i s' o hne hlen hkey hholds hdraw := by
    cases cacheGetTextureEx_effect hdraw with
    | unchanged hmoved _ _ => exact hmoved.enqueued
    | pending j _ hmoved _ _ => exact hmoved.enqueued
    | ready j _ hmoved _ _ => exact hmoved.enqueued
    | parked j hmoved _ _ => exact hmoved.enqueued
    | missed hmoved _ _ _ => exact hmoved.enqueued
    | claimed j a _ hl _ _ =>
      have hlook := lookup_of_holds hids huniq (hids.row r) hne hlen hkey hholds (by simp [hl])
      rw [hl] at hlook
      split_ifs at hlook

/-! ### The runs -/

/-- The invariants that need no more than that no draw is disturbed. -/
theorem ids_of_run {es : List Event} (hrun : Transition.run (step caches) init es = some s)
    (hok : Transition.RunOk (step caches) (Undisturbed caches) init es) :
    Stored s ∧ Ids caches s :=
  Transition.run_invariant_of_runOk (P := fun s => Stored s ∧ Ids caches s)
    (fun _ _ _ h hok hstep => ⟨h.1.step hok hstep, h.2.step h.1 hok hstep⟩)
    ⟨stored_init, ids_init caches⟩ hok hrun

/-- **A row finds its picture again**, in every state of a run whose draws meet no slot between two
stores, and rejoin. -/
theorem reunited_of_run {es : List Event} (hrun : Transition.run (step caches) init es = some s)
    (hundisturbed : Transition.RunOk (step caches) (Undisturbed caches) init es)
    (hrejoins : Transition.RunOk (step caches) (Rejoins caches) init es) : Reunited caches s := by
  have hinv : (Stored s ∧ Ids caches s) ∧ KeysUnique s :=
    Transition.run_invariant_of_runOk (P := fun s => (Stored s ∧ Ids caches s) ∧ KeysUnique s)
      (fun _ _ _ h hok hstep => ⟨⟨h.1.1.step hok.1 hstep, h.1.2.step h.1.1 hok.1 hstep⟩,
        h.2.step h.1.2 hok.2 hstep⟩)
      ⟨⟨stored_init, ids_init caches⟩, keysUnique_init⟩ (hundisturbed.and hrejoins) hrun
  exact reunited_of_keysUnique hinv.1.2 hinv.2

/-- Every cache has `n` slots. -/
def slotsEach (n : ℕ) : Caches := ⟨fun _ => n, fun _ => "COV"⟩

/-- A draw from a bus of its own, with a request put at `a`. -/
def plainDraw (a : ℕ) : Draw := ⟨false, false, 0, 0, some a⟩

/-- The worker takes a request, and makes three stores for the answer. -/
def workerRun (result : LoadResult) : List Event :=
  [.pop, .begin, .loaded result, .store .worker, .store .worker, .store .worker, .release, .finish]

/-- A row asks for a picture, and there is none. -/
def absentRun : List Event :=
  [.renumber 0 0 0 [65], .draw 0 (plainDraw 0)] ++ workerRun .badFile

/-- The memo is invalidated by a list rebuild, and the new row finds it in the only slot, claims
that slot and gets the picture. Another row of the value finds it there. -/
theorem reunited_of_run_oneSlot :
    ∃ s, Transition.run (step (slotsEach 1)) init (absentRun ++
        [.invalidate, .renumber 0 0 0 [65], .frame, .draw 0 (plainDraw 0)] ++ workerRun .ok ++
        [.renumber 1 0 0 [65], .draw 1 (plainDraw 0)]) = some s ∧
      Reunited (slotsEach 1) s ∧ (s.slots (0, 0)).key = [65] ∧ (s.slots (0, 0)).Holds ∧
      s.enqueued = 2 ∧ lookup (slotsEach 1) s (s.rows 1) = .ready 0 := by
  have hend : (Transition.run (step (slotsEach 1)) init (absentRun ++
      [.invalidate, .renumber 0 0 0 [65], .frame, .draw 0 (plainDraw 0)] ++ workerRun .ok ++
      [.renumber 1 0 0 [65], .draw 1 (plainDraw 0)])).map
      (fun s => (((s.slots (0, 0)).key, (s.slots (0, 0)).lastUsed, (s.slots (0, 0)).texture),
        s.enqueued, lookup (slotsEach 1) s (s.rows 1))) =
      some (([65], 2, true), 2, .ready 0) := by
    decide
  obtain ⟨s, hs, hend⟩ := Option.map_eq_some_iff.mp hend
  obtain ⟨⟨hkey, hused, htex⟩, henq, hready⟩ : (_ ∧ _ ∧ _) ∧ _ ∧ _ := by
    simpa only [Prod.mk.injEq] using hend
  refine ⟨s, hs, reunited_of_run hs (by decide) (by decide), hkey, .inr ⟨?_, htex⟩, henq, hready⟩
  rw [hused]
  decide

/-- With two slots, the one that remembers the absence stops the search, and the free slot behind
it is claimed. -/
theorem not_reunited_staleMemo :
    ¬ ∀ (caches : Caches) (es : List Event) (s : Texcache),
      Transition.run (step caches) init es = some s → Reunited caches s := by
  intro hall
  have hkeys : (Transition.run (step (slotsEach 2)) init (absentRun ++
      [.invalidate, .renumber 0 0 0 [65], .frame, .draw 0 (plainDraw 0)])).map
      (fun s => ((s.slots (0, 0)).key, (s.slots (0, 1)).key)) = some ([65], [65]) := by
    decide
  obtain ⟨s, hs, hkeys⟩ := Option.map_eq_some_iff.mp hkeys
  obtain ⟨h₀, h₁⟩ := Prod.mk.inj hkeys
  have huniq := (hall (slotsEach 2) _ s hs).unique 0 0 1 [65] (by decide) (by decide) h₀ h₁
  exact absurd huniq (by decide)

end Texcache

end OpenPS2Loader
