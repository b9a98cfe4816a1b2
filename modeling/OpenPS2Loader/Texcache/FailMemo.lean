import Mathlib.Algebra.Group.Nat.Defs
import OpenPS2Loader.Texcache.Reunion

/-!
# The absence memo and its invalidation

`cacheInvalidateFailMemo` says that new pictures may have appeared: what was found to be absent is
to be asked again. The generation `gArtFailEpoch` is copied into a request when it is made, from
there into the slot when the answer is that there is no file, and the row is parked with the
generation that is current when it is drawn.

The reunion by value compares the generation of the slot before it parks a row. The path by ids
does not: a row whose ids name a slot that remembers an absence is parked in the current
generation, whatever the generation of the memo is. And the worker parks a slot by three stores: a
draw that finds it between the first and the last stamps it again, and the slot is neither a memo
nor a picture afterwards.

Requests, memos and parked rows carry here the number of invalidations before the probe they rest
on, which the code does not have.

## Main definitions

* `Texcache.NamesStale` — the ids of a row name a memo of an older generation
* `Texcache.Asked` — a draw comes from no such row, and the generation does not wrap
* `Texcache.Fresh` — no row is treated as absent on the strength of an older answer, and it is
  asked again

## Main results

* `Texcache.fresh_of_run` — in every run whose steps are `Asked`, and whose draws are undisturbed
* `Texcache.not_fresh_byId` — a run in which a row is parked anew on an older answer
-/

namespace OpenPS2Loader

namespace Texcache

variable {caches : Caches} {s s' : Texcache}

/-! ### Where the generations come from -/

/-- The generation `epoch` is the one after `gen` invalidations, of which there were `now` so
far. -/
structure From (now : ℕ) (epoch : UInt32) (gen : ℕ) : Prop where
  epoch : epoch.toNat = gen + 1
  le : gen ≤ now

theorem From.mono {now now' gen : ℕ} {epoch : UInt32} (h : From now epoch gen) (hle : now ≤ now') :
    From now' epoch gen :=
  ⟨h.epoch, Nat.le_trans h.le hle⟩

/-- The generation of a memo is still to be stored, or the slot is about to be free. -/
def Due (s : Texcache) (e : ℕ × ℕ) : Prop :=
  (∃ w k, k < 9 ∧ s.underway w = (e, clearStores.drop k)) ∨
    ∃ epoch gen, s.underway .worker = (e, [.failEpoch epoch gen, .qr])

/-- Every copy of the generation says how old the probe behind it is. -/
structure Dated (s : Texcache) : Prop where
  frame : 0 < s.frame
  epoch : s.failEpoch.toNat = s.gen + 1
  request : ∀ a req, s.requests a = some req → From s.gen req.failEpoch req.gen
  /-- the one the worker is about to store -/
  parking : ∀ e k epoch gen, k < 2 → s.underway .worker = (e, (parkedStores epoch gen).drop k) →
    From s.gen epoch gen
  memo : ∀ e, (s.slots e).lastUsed = 0 → From s.gen (s.slots e).failEpoch (s.slots e).gen ∨ Due s e
  row : ∀ r, (s.rows r).cacheId = -2 → From s.gen (s.rows r).uid (s.rows r).gen

theorem dated_init : Dated init where
  frame := by decide
  epoch := rfl
  request := nofun
  parking e k epoch gen hk h := by
    have hnil : (parkedStores epoch gen).drop k = [] := (Prod.mk.inj h).2.symm
    rw [List.drop_eq_nil_iff] at hnil
    exact absurd hnil (by simp [parkedStores]; omega)
  memo _ := nofun
  row _ h := by simp [init] at h

theorem SameRequest.from {r r' : Request} {now : ℕ} (h : SameRequest r r')
    (hr : From now r.failEpoch r.gen) : From now r'.failEpoch r'.gen := by
  rw [SameRequest] at h
  rw [h]
  exact hr

theorem Due.congr {e : ℕ × ℕ} (h : Due s e) (hunder : s'.underway = s.underway) : Due s' e := by
  rwa [Due, hunder]

/-- Where no slot is claimed, only the rows have to be looked at. -/
theorem Dated.moved {stamped : Option (ℕ × ℕ)} (h : Dated s) (hmoved : Moved s stamped s')
    (hrow : ∀ r, (s'.rows r).cacheId = -2 → From s.gen (s'.rows r).uid (s'.rows r).gen) :
    Dated s' where
  frame := hmoved.frame ▸ h.frame
  epoch := by rw [hmoved.failEpoch, hmoved.gen, h.epoch]
  request a req' hreq' := by
    obtain ⟨req, hreq, hsame⟩ := hmoved.requests a req' hreq'
    rw [hmoved.gen]
    exact hsame.from (h.request a req hreq)
  parking e k epoch gen hk hunder := by
    rw [hmoved.underway] at hunder
    exact hmoved.gen ▸ h.parking e k epoch gen hk hunder
  memo e h0 := by
    rw [hmoved.gen]
    obtain heq | ⟨-, heq⟩ := hmoved.slot e
    · rw [heq] at h0 ⊢
      exact (h.memo e h0).imp_right fun hdue => hdue.congr hmoved.underway
    · -- a slot that is stamped is no memo
      rw [heq] at h0
      exact absurd h0 (Int.ne_of_gt h.frame)
  row r hr := hmoved.gen ▸ hrow r hr

theorem Dated.moved_rows {stamped : Option (ℕ × ℕ)} (h : Dated s) (hmoved : Moved s stamped s')
    (hrows : s'.rows = s.rows) : Dated s' :=
  h.moved hmoved (hrows ▸ h.row)

theorem Dated.moved_row {stamped : Option (ℕ × ℕ)} {r : ℕ} {row : Row} (h : Dated s)
    (hmoved : Moved s stamped s') (hrows : s'.rows = Function.update s.rows r row)
    (hrow : row.cacheId = -2 → From s.gen row.uid row.gen) : Dated s' :=
  h.moved hmoved fun r' hr' => by
    rw [hrows] at hr' ⊢
    rcases eq_or_ne r' r with rfl | hne
    · rw [Function.update_self] at hr' ⊢
      exact hrow hr'
    · rw [Function.update_of_ne hne] at hr' ⊢
      exact h.row r' hr'

theorem Dated.claimed {r i a : ℕ} (h : Dated s) (hc : Claimed s r i a s') : Dated s' where
  frame := hc.frame ▸ h.frame
  epoch := by rw [hc.failEpoch, hc.gen, h.epoch]
  request b req' hreq' := by
    rw [hc.gen]
    rcases eq_or_ne b a with rfl | hb
    · -- the request of this draw carries the current generation
      obtain ⟨req, sio2, hreq, hsame⟩ := hc.request
      rw [hreq'] at hreq
      cases hreq
      exact hsame.from ⟨h.epoch, Nat.le_refl s.gen⟩
    · obtain ⟨req, hreq, hsame⟩ := hc.requests b req' hb hreq'
      exact hsame.from (h.request b req hreq)
  parking e k epoch gen hk hunder := by
    rw [hc.underway] at hunder
    exact hc.gen ▸ h.parking e k epoch gen hk hunder
  memo e h0 := by
    rw [hc.slots] at h0 ⊢
    rw [hc.gen]
    rcases eq_or_ne e ((s.rows r).cache, i) with rfl | he
    · rw [Function.update_self] at h0
      exact absurd h0 (Int.ne_of_gt h.frame)
    · rw [Function.update_of_ne he] at h0 ⊢
      exact (h.memo e h0).imp_right fun hdue => hdue.congr hc.underway
  row r' hr' := by
    rw [hc.gen]
    rw [hc.rows] at hr' ⊢
    rcases eq_or_ne r' r with rfl | hne
    · rw [Function.update_self] at hr'
      cases hr'
    · rw [Function.update_of_ne hne] at hr' ⊢
      exact h.row r' hr'

/-! ### Stores -/

section Stores

variable {w : Writer} {e : ℕ × ℕ} {stores : List Store} {y : Store}

/-- A thread parks a slot with the generation of its request. -/
theorem Dated.job (h : Dated s) (hjob : Job s .worker stores) {k gen : ℕ} {epoch : UInt32}
    (hk : k < 2) (heq : stores = (parkedStores epoch gen).drop k) : From s.gen epoch gen := by
  cases hjob with
  | clear => interval_cases k <;> simp [clearStores, parkedStores] at heq
  | loaded => interval_cases k <;> simp [loadedStores, parkedStores] at heq
  | parked a req hreq =>
    interval_cases k
    · simp only [parkedStores, List.drop_zero, List.cons.injEq, Store.failEpoch.injEq] at heq
      obtain ⟨rfl, rfl⟩ := heq.2.1
      exact h.request a req hreq
    · simp [parkedStores] at heq

theorem Dated.started (h : Dated s) (hs : Started s w e stores s')
    (hstored : (s.underway w).2 = []) : Dated s' := by
  obtain ⟨-, hfail, hgen, hframe, -⟩ :
      s'.nextUID = s.nextUID ∧ s'.failEpoch = s.failEpoch ∧ s'.gen = s.gen ∧ s'.frame = s.frame ∧
        s'.enqueued = s.enqueued := by
    simpa [Texcache.clocks] using hs.clocks
  refine ⟨hframe ▸ h.frame, by rw [hfail, hgen, h.epoch], ?_, fun e' k epoch gen hk hunder => ?_,
    fun e' h0 => ?_, ?_⟩
  · rw [hs.requests, hgen]
    exact h.request
  · rw [hgen]
    rw [hs.underway] at hunder
    rcases eq_or_ne Writer.worker w with rfl | hw
    · rw [Function.update_self] at hunder
      exact h.job hs.job hk (Prod.mk.inj hunder).2
    · rw [Function.update_of_ne hw] at hunder
      exact h.parking e' k epoch gen hk hunder
  · rw [hs.slots] at h0 ⊢
    rw [hgen]
    refine (h.memo e' h0).imp_right fun hdue => ?_
    obtain ⟨w', k, hk, hunder⟩ | ⟨epoch, gen, hunder⟩ := hdue
    · exact .inl ⟨w', k, hk, hs.underway_eq hstored hunder (clearStores_drop_ne_nil (by omega))⟩
    · exact .inr ⟨epoch, gen, hs.underway_eq hstored hunder (List.cons_ne_nil _ _)⟩
  · rw [hs.rows, hgen]
    exact h.row

/-- A store that is none of those a memo waits for. -/
theorem Due.written (hunder : s.underway w = (e, y :: stores)) {e' : ℕ × ℕ} (h : Due s e')
    (hclear : ∀ k < 9, y :: stores ≠ clearStores.drop k)
    (hpark : ∀ epoch gen, y :: stores ≠ [.failEpoch epoch gen, .qr]) :
    Due (s.written w e y stores) e' := by
  obtain ⟨w', k, hk, hunder'⟩ | ⟨epoch, gen, hunder'⟩ := h
  · refine .inl ⟨w', k, hk, ?_⟩
    rw [written_underway_of_ne, hunder']
    rintro rfl
    exact hclear k hk (Prod.mk.inj (hunder.symm.trans hunder')).2
  · refine .inr ⟨epoch, gen, ?_⟩
    rw [written_underway_of_ne, hunder']
    rintro rfl
    exact hpark epoch gen (Prod.mk.inj (hunder.symm.trans hunder')).2

/-- Stores to another slot. -/
theorem Due.beside (hunder : s.underway w = (e, y :: stores)) {e' : ℕ × ℕ} (he : e' ≠ e)
    (h : Due s e') : Due (s.written w e y stores) e' := by
  obtain ⟨w', k, hk, hunder'⟩ | ⟨epoch, gen, hunder'⟩ := h
  · refine .inl ⟨w', k, hk, ?_⟩
    rw [written_underway_of_ne, hunder']
    rintro rfl
    exact he (Prod.mk.inj (hunder'.symm.trans hunder)).1
  · refine .inr ⟨epoch, gen, ?_⟩
    rw [written_underway_of_ne, hunder']
    rintro rfl
    exact he (Prod.mk.inj (hunder'.symm.trans hunder)).1

/-- The memo of the slot the store is made to. -/
theorem Dated.memo_written (h : Dated s) (hprog : Progress s e (y :: stores) w)
    (hunder : s.underway w = (e, y :: stores))
    (h0 : (y.apply s.frame (s.slots e)).lastUsed = 0) :
    From s.gen (y.apply s.frame (s.slots e)).failEpoch (y.apply s.frame (s.slots e)).gen ∨
      Due (s.written w e y stores) e := by
  cases hprog with
  | done _ hl => cases hl
  | clear _ k hl hk hcleared =>
    obtain ⟨hy, hrest⟩ := clearStores_drop hl
    rcases Nat.lt_or_ge (k + 1) 9 with hlt | hge
    · exact .inr (.inl ⟨w, k + 1, hlt, by rw [written_underway_self, hrest]⟩)
    · obtain rfl | rfl : k = 8 ∨ k = 9 := by omega
      · obtain rfl : Store.lastUsed (-1) = y := Option.some.inj hy
        cases h0
      · -- the `UID` is all that is left
        obtain rfl : Store.uid = y := Option.some.inj hy
        refine (h.memo e h0).imp_right fun hdue => hdue.written hunder (fun j hj heq => ?_) ?_
        · have hlen := congrArg List.length (hl.symm.trans heq)
          simp only [List.length_drop, clearStores, List.length_cons, List.length_nil] at hlen
          omega
        · exact fun _ _ heq => by cases (List.cons.inj heq).1
  | loaded hl =>
    obtain ⟨rfl, rfl⟩ := List.cons.inj hl
    refine (h.memo e h0).imp_right fun hdue => hdue.written hunder (fun j hj heq => ?_) ?_
    · interval_cases j <;> simp [clearStores] at heq
    · exact fun _ _ heq => by cases (List.cons.inj heq).1
  | stamp hl _ =>
    obtain ⟨rfl, rfl⟩ := List.cons.inj hl
    exact absurd h0 (Int.ne_of_gt h.frame)
  | parked epoch gen hl =>
    obtain ⟨rfl, rfl⟩ := List.cons.inj hl
    exact .inr (.inr ⟨epoch, gen, written_underway_self⟩)
  | failEpoch epoch gen hl _ =>
    obtain ⟨rfl, rfl⟩ := List.cons.inj hl
    exact .inl (h.parking e 1 epoch gen (by decide) hunder)
  | qr hl _ =>
    obtain ⟨rfl, rfl⟩ := List.cons.inj hl
    refine (h.memo e h0).imp_right fun hdue => hdue.written hunder (fun j hj heq => ?_) ?_
    · interval_cases j <;> simp [clearStores] at heq
    · exact fun _ _ heq => by cases (List.cons.inj heq).1

/-- What is left of the stores that park a slot. -/
theorem Progress.parking (hprog : Progress s e (y :: stores) w) {k gen : ℕ} {epoch : UInt32}
    (hk : k < 2) (heq : stores = (parkedStores epoch gen).drop k) :
    y :: stores = parkedStores epoch gen := by
  cases hprog with
  | done _ hl => cases hl
  | clear _ j hl hj _ =>
    rw [(clearStores_drop hl).2] at heq
    interval_cases j <;> interval_cases k <;> simp [clearStores, parkedStores] at heq
  | loaded hl =>
    rw [(List.cons.inj hl).2] at heq
    interval_cases k <;> simp [parkedStores] at heq
  | stamp hl _ =>
    rw [(List.cons.inj hl).2] at heq
    interval_cases k <;> simp [parkedStores] at heq
  | parked epoch' gen' hl =>
    obtain ⟨rfl, rfl⟩ := List.cons.inj hl
    interval_cases k
    · simp [parkedStores] at heq
    · rw [heq]
      rfl
  | failEpoch _ _ hl _ =>
    rw [(List.cons.inj hl).2] at heq
    interval_cases k <;> simp [parkedStores] at heq
  | qr hl _ =>
    rw [(List.cons.inj hl).2] at heq
    interval_cases k <;> simp [parkedStores] at heq

theorem Dated.written (h : Dated s) (hstored : Stored s)
    (hunder : s.underway w = (e, y :: stores)) : Dated (s.written w e y stores) := by
  have hprog : Progress s e (y :: stores) w := by
    have := hstored.writer w
    rwa [hunder] at this
  refine ⟨h.frame, h.epoch, h.request, fun e' k epoch gen hk hunder' => ?_, fun e' h0 => ?_, h.row⟩
  · rcases eq_or_ne Writer.worker w with rfl | hw
    · rw [written_underway_self] at hunder'
      obtain ⟨rfl, hrest⟩ := Prod.mk.inj hunder'
      exact h.parking e 0 epoch gen (by decide) (by rw [hunder, hprog.parking hk hrest]; rfl)
    · rw [written_underway_of_ne hw] at hunder'
      exact h.parking e' k epoch gen hk hunder'
  · rcases eq_or_ne e' e with rfl | he
    · rw [written_slots_self] at h0 ⊢
      exact h.memo_written hprog hunder h0
    · rw [written_slots_of_ne he] at h0 ⊢
      exact (h.memo e' h0).imp_right (Due.beside hunder he)

end Stores

/-! ### A row that is treated as absent -/

/-- The ids of a row name a slot that remembers an absence of an older generation. -/
def NamesStale (caches : Caches) (s : Texcache) (row : Row) : Prop :=
  (0 ≤ row.cacheId ∧ row.cacheId < caches.count row.cache) ∧
    (s.slots (row.cache, row.cacheId.toNat)).uid = row.uid ∧
    (s.slots (row.cache, row.cacheId.toNat)).qr = none ∧
    (s.slots (row.cache, row.cacheId.toNat)).lastUsed = 0 ∧
    (s.slots (row.cache, row.cacheId.toNat)).failEpoch ≠ s.failEpoch

instance (caches : Caches) (s : Texcache) (row : Row) : Decidable (NamesStale caches s row) :=
  inferInstanceAs (Decidable (_ ∧ _))

/-- A draw comes from no row that names a stale memo, and the generation does not wrap. -/
def Asked (caches : Caches) (s : Texcache) : Event → Prop
  | .draw r _ => ¬ NamesStale caches s (s.rows r)
  | .invalidate => s.failEpoch.toNat + 1 < 2 ^ 32
  | _ => True

instance (caches : Caches) (s : Texcache) (e : Event) : Decidable (Asked caches s e) :=
  match e with
  | .draw r _ => inferInstanceAs (Decidable (¬ NamesStale caches s (s.rows r)))
  | .invalidate => inferInstanceAs (Decidable (s.failEpoch.toNat + 1 < 2 ^ 32))
  | .look _ | .renumber .. | .frame | .tick _ | .dropQueued | .pop | .begin | .loaded _ | .release
  | .finish | .cancel _ | .abort _ | .shutdown _ | .canceller _ | .store _ =>
    inferInstanceAs (Decidable True)

/-- A slot that parks a row remembers an absence, of the current generation unless the ids of the
row name it. -/
theorem lookup_absent {row : Row} {i : ℕ} (h : lookup caches s row = .absent i) :
    (s.slots (row.cache, i)).lastUsed = 0 ∧
      ((s.slots (row.cache, i)).failEpoch = s.failEpoch ∨ NamesStale caches s row) := by
  obtain ⟨hl, -⟩ | hid | hval := lookup_cases caches s row
  · rw [h] at hl
    cases hl
  · obtain ⟨j, hj, hlt, huid, hl⟩ := byId_eq_some hid
    rw [h] at hl
    split_ifs at hl with hqr hused
    cases hl
    refine ⟨hused, or_iff_not_imp_left.mpr fun hfail => ?_⟩
    rw [NamesStale, hj]
    exact ⟨⟨by omega, by omega⟩, huid, Option.not_isSome_iff_eq_none.mp hqr, hused, hfail⟩
  · obtain hl | ⟨j, -, ⟨hl, -⟩ | ⟨hl, -, hused, hfail⟩ | ⟨hl, -⟩⟩ := byValue_eq hval
    all_goals rw [h] at hl; cases hl
    exact ⟨hused, .inl hfail⟩

/-- Two dates of one generation agree. -/
theorem Dated.gen_eq {epoch : UInt32} {gen : ℕ} (h : Dated s) (hfrom : From s.gen epoch gen)
    (heq : epoch = s.failEpoch) : gen = s.gen := by
  have hepoch := hfrom.epoch
  rw [heq, h.epoch] at hepoch
  omega

/-- The memo of a slot that is not exposed has its generation. -/
theorem Dated.memo_of_not_exposed {e : ℕ × ℕ} (h : Dated s) (hexp : ¬ Exposed s e)
    (h0 : (s.slots e).lastUsed = 0) : From s.gen (s.slots e).failEpoch (s.slots e).gen := by
  refine (h.memo e h0).resolve_right fun hdue => hexp ?_
  obtain ⟨w, k, hk, hunder⟩ | ⟨epoch, gen, hunder⟩ := hdue
  · exact exposed_of_underway hunder (clearStores_drop_ne_nil (by omega)) (.inr h0)
  · exact exposed_of_underway hunder (List.cons_ne_nil _ _) (.inr h0)

/-- A row is parked on the strength of an answer of this generation. -/
theorem Dated.absent_gen {row : Row} {i : ℕ} (h : Dated s) (hexp : ¬ Exposed s (row.cache, i))
    (hstale : ¬ NamesStale caches s row) (hlook : lookup caches s row = .absent i) :
    (s.slots (row.cache, i)).gen = s.gen := by
  obtain ⟨hused, hfail⟩ := lookup_absent hlook
  exact h.gen_eq (h.memo_of_not_exposed hexp hused) (hfail.resolve_right hstale)

theorem Dated.drawn {r : ℕ} {d : Draw} {o : Option ℕ} (h : Dated s)
    (hundisturbed : Undisturbed caches s (.draw r d)) (hok : ¬ NamesStale caches s (s.rows r))
    (hd : DrawEffect caches s r d s' o) : Dated s' := by
  cases hd with
  | unchanged hmoved hrows _ => exact h.moved_rows hmoved hrows
  | pending i _ hmoved _ hrows => exact h.moved_row hmoved hrows fun hi => by cases hi
  | ready i _ hmoved _ hrows => exact h.moved_row hmoved hrows fun hi => by cases hi
  | parked i hmoved hlook hrows =>
    refine h.moved_row hmoved hrows fun _ => ?_
    have hgen := h.absent_gen (hundisturbed.1 i (by rw [hlook]; rfl)) hok hlook
    exact ⟨by rw [parkedRow, hgen, h.epoch], Nat.le_of_eq hgen⟩
  | missed hmoved _ _ hrows => exact h.moved_row hmoved hrows fun hi => by cases hi
  | claimed i a hc _ _ _ => exact h.claimed hc

theorem Dated.invalidated (h : Dated s) (hok : s.failEpoch.toNat + 1 < 2 ^ 32) :
    Dated s.cacheInvalidateFailMemo := by
  have hle : s.gen ≤ s.gen + 1 := Nat.le_succ s.gen
  have hnext : (s.failEpoch + 1).toNat = s.failEpoch.toNat + 1 := by
    rw [UInt32.toNat_add, UInt32.toNat_one]
    omega
  have hepoch : (nextEpoch s.failEpoch).toNat = s.gen + 1 + 1 := by
    rw [nextEpoch, if_neg, hnext, h.epoch]
    intro h0
    rw [h0] at hnext
    exact absurd hnext (by simp)
  exact ⟨h.frame, hepoch, fun a req hreq => (h.request a req hreq).mono hle,
    fun e k epoch gen hk hunder => (h.parking e k epoch gen hk hunder).mono hle,
    fun e h0 => (h.memo e h0).imp_left fun hfrom => hfrom.mono hle,
    fun r hr => (h.row r hr).mono hle⟩

theorem Dated.step {e : Event} (h : Dated s) (hstored : Stored s)
    (hundisturbed : Undisturbed caches s e) (hok : Asked caches s e)
    (hstep : step caches s e = some s') : Dated s' := by
  cases step_effect hstep with
  | idled _ _ hidled => exact h.moved_rows hidled.moved hidled.rows
  | looked r _ stamped hmoved _ hrows => exact h.moved_rows hmoved hrows
  | started _ _ w slot stores hdone hs => exact h.started hs hdone
  | stored w slot x stores hunder => exact h.written hstored hunder
  | drawn r d _ o hd => exact h.drawn hundisturbed hok hd
  | renumbered r c l value =>
    exact h.moved_row (moved_of_slots_eq rfl (keepsRequests_of_eq rfl) rfl rfl) rfl
      fun hi => by cases hi
  | ticked =>
    exact ⟨Int.lt_trans h.frame (Int.lt_succ s.frame), h.epoch, h.request, h.parking, h.memo, h.row⟩
  | invalidated => exact h.invalidated hok

/-! ### The next draw -/

/-- The only slot that carries the value of a row remembers an absence from before an
invalidation. -/
structure OldAnswer (s : Texcache) (row : Row) (i : ℕ) : Prop where
  fits : row.value.length < keySize
  key : (s.slots (row.cache, i)).key = row.value
  only : ∀ j, (s.slots (row.cache, j)).key = row.value → j = i
  qr : (s.slots (row.cache, i)).qr = none
  lastUsed : (s.slots (row.cache, i)).lastUsed = 0
  settled : ¬ Exposed s (row.cache, i)
  gen : (s.slots (row.cache, i)).gen < s.gen

/-- No row is treated as absent on the strength of an answer from before an invalidation. -/
structure Fresh (caches : Caches) (s : Texcache) : Prop where
  /-- a row that is parked is so on an answer of this generation -/
  known : ∀ r, lookup caches s (s.rows r) = .known → (s.rows r).gen = s.gen
  /-- a slot that parks a row remembers an answer of this generation -/
  absent : ∀ r i, ¬ NamesStale caches s (s.rows r) → ¬ Exposed s ((s.rows r).cache, i) →
    lookup caches s (s.rows r) = .absent i → (s.slots ((s.rows r).cache, i)).gen = s.gen
  /-- a slot that is ready has a picture -/
  ready : ∀ r i, ¬ Exposed s ((s.rows r).cache, i) → lookup caches s (s.rows r) = .ready i →
    (s.slots ((s.rows r).cache, i)).texture = true
  /-- an old answer counts for nothing -/
  miss : ∀ r i, ¬ NamesStale caches s (s.rows r) → lookup caches s (s.rows r) ≠ .known →
    OldAnswer s (s.rows r) i → lookup caches s (s.rows r) = .miss
  /-- a row for which nothing is found is probed, where the gate and the slots permit -/
  probes : ∀ r d i a s' o, (s.rows r).value ≠ [] → lookup caches s (s.rows r) = .miss →
    gated d = false → oldestEntry caches s (s.rows r).cache d.sio2 = some i → d.alloc = some a →
    cacheGetTextureEx caches s r d = some (s', o) →
    (s'.slots ((s.rows r).cache, i)).qr = some a ∧ ∃ req, s'.requests a = some req ∧
      req.value = (s.rows r).value ∧ req.failEpoch = s.failEpoch ∧ req.gen = s.gen

theorem lookup_ready_texture {row : Row} {i : ℕ} (h : Stored s)
    (hrow : ∀ i : ℕ, row.cacheId = i → RowOk s row i) (hexp : ¬ Exposed s (row.cache, i))
    (hlook : lookup caches s row = .ready i) :
    (s.slots (row.cache, i)).texture = true := by
  obtain ⟨hl, -⟩ | hid | hval := lookup_cases caches s row
  · rw [hlook] at hl
    cases hl
  · obtain ⟨j, hj, -, huid, hl⟩ := byId_eq_some hid
    rw [hlook] at hl
    split_ifs at hl with hqr hused
    cases hl
    have hqr := Option.not_isSome_iff_eq_none.mp hqr
    refine (h.picture (row.cache, i) hqr hused).resolve_right ?_
    rintro (hzero | hclearing)
    · exact (hrow i hj).uid_ne (huid.symm.trans hzero)
    · exact hexp (hclearing.exposed hqr)
  · obtain hl | ⟨j, -, ⟨hl, -⟩ | ⟨hl, -⟩ | ⟨hl, -, -, htex⟩⟩ := byValue_eq hval
    all_goals rw [hlook] at hl; cases hl
    exact htex

/-- Neither the ids nor the value of the row lead to anything but the old answer. -/
theorem lookup_of_oldAnswer {row : Row} {i : ℕ} (h : Dated s)
    (hrow : ∀ i : ℕ, row.cacheId = i → RowOk s row i) (hstale : ¬ NamesStale caches s row)
    (hknown : lookup caches s row ≠ .known) (hold : OldAnswer s row i) :
    lookup caches s row = .miss := by
  have hfail : (s.slots (row.cache, i)).failEpoch ≠ s.failEpoch := fun heq =>
    absurd (h.gen_eq (h.memo_of_not_exposed hold.settled hold.lastUsed) heq)
      (Nat.ne_of_lt hold.gen)
  obtain ⟨hl, -⟩ | hid | hval := lookup_cases caches s row
  · exact absurd hl hknown
  · obtain ⟨j, hj, hlt, huid, -⟩ := byId_eq_some hid
    have hkey := (hrow j hj).key huid
    rw [keyOf, if_pos hold.fits] at hkey
    obtain rfl : j = i := hold.only j hkey
    refine absurd ?_ hstale
    rw [NamesStale, hj]
    exact ⟨⟨by omega, by omega⟩, huid, hold.qr, hold.lastUsed, hfail⟩
  · obtain hl | ⟨j, hslot, hl⟩ := byValue_eq hval
    · exact hl
    · obtain ⟨-, hkey, -, -⟩ := keySlot_eq_some hslot
      obtain rfl : j = i := hold.only j hkey
      obtain ⟨-, hqr⟩ | ⟨-, -, -, heq⟩ | ⟨-, -, hused, -⟩ := hl
      · exact absurd hold.qr hqr
      · exact absurd heq hfail
      · exact absurd hold.lastUsed hused

theorem fresh_of_dated (hstored : Stored s) (hids : Ids caches s) (h : Dated s) :
    Fresh caches s where
  known r hl := by
    obtain ⟨-, hpark, huid⟩ | hid | hval := lookup_cases caches s (s.rows r)
    · exact h.gen_eq (h.row r hpark) huid
    · obtain ⟨j, -, -, -, hl'⟩ := byId_eq_some hid
      rw [hl] at hl'
      split_ifs at hl'
    · obtain hl' | ⟨j, -, ⟨hl', -⟩ | ⟨hl', -⟩ | ⟨hl', -⟩⟩ := byValue_eq hval
      all_goals rw [hl] at hl'; cases hl'
  absent r i hstale hexp hl := h.absent_gen hexp hstale hl
  ready r i hexp hl := lookup_ready_texture hstored (hids.row r) hexp hl
  miss r i hstale hknown hold := lookup_of_oldAnswer h (hids.row r) hstale hknown hold
  probes r d i a s' o hne hl hgate hentry halloc hdraw := by
    have hclaims : claims caches s r d = some i := by
      rw [claims, if_neg (by simp [hne, hl, hgate, halloc]), hentry]
    cases cacheGetTextureEx_effect hdraw with
    | unchanged _ _ hl' => exact absurd (hl.symm.trans (hl'.resolve_left hne)) (by simp)
    | pending j _ _ hl' _ => exact absurd (hl.symm.trans hl') (by simp)
    | ready j _ _ hl' _ => exact absurd (hl.symm.trans hl') (by simp)
    | parked j _ hl' _ => exact absurd (hl.symm.trans hl') (by simp)
    | missed _ _ hclaims' _ => exact absurd (hclaims.symm.trans hclaims') (by simp)
    | claimed j b hc _ hclaims' halloc' =>
      obtain rfl : i = j := Option.some.inj (hclaims.symm.trans hclaims')
      obtain rfl : a = b := Option.some.inj (halloc.symm.trans halloc')
      obtain ⟨req, sio2, hreq, hsame⟩ := hc.request
      rw [SameRequest] at hsame
      refine ⟨by rw [hc.slots, Function.update_self]; rfl, req, hreq, ?_, ?_, ?_⟩ <;> rw [hsame] <;>
        rfl

/-! ### The runs -/

/-- **No answer outlives an invalidation**, in every state of a run in which no draw comes by ids
to a stale memo, or to a slot between two stores. -/
theorem fresh_of_run {es : List Event} (hrun : Transition.run (step caches) init es = some s)
    (hundisturbed : Transition.RunOk (step caches) (Undisturbed caches) init es)
    (hasked : Transition.RunOk (step caches) (Asked caches) init es) : Fresh caches s := by
  have hinv : Stored s ∧ Dated s :=
    Transition.run_invariant_of_runOk (P := fun s => Stored s ∧ Dated s)
      (fun _ _ _ h hok hstep => ⟨h.1.step hok.1 hstep, h.2.step h.1 hok.1 hok.2 hstep⟩)
      ⟨stored_init, dated_init⟩ (hundisturbed.and hasked) hrun
  exact fresh_of_dated hinv.1 (ids_of_run hrun hundisturbed).2 hinv.2

/-- The row is made anew after the invalidation, and probes again, in the new generation. -/
theorem fresh_of_run_renumbered :
    ∃ s, Transition.run (step (slotsEach 2)) init
      (absentRun ++ [.invalidate, .renumber 0 0 0 [65], .draw 0 (plainDraw 0)]) = some s ∧
      Fresh (slotsEach 2) s ∧
      (s.requests 0).map (fun req => (req.value, req.failEpoch, req.gen)) = some ([65], 2, 1) := by
  have hend : (Transition.run (step (slotsEach 2)) init
      (absentRun ++ [.invalidate, .renumber 0 0 0 [65], .draw 0 (plainDraw 0)])).map
      (fun s => (s.requests 0).map fun req => (req.value, req.failEpoch, req.gen)) =
      some (some ([65], 2, 1)) := by
    decide
  obtain ⟨s, hs, hend⟩ := Option.map_eq_some_iff.mp hend
  exact ⟨s, hs, fresh_of_run hs (by decide) (by decide), hend⟩

/-- The row keeps its ids over the invalidation. The next draw finds the slot by them, parks the
row in the new generation, and every later draw takes it as absent. -/
theorem not_fresh_byId :
    ¬ ∀ (caches : Caches) (es : List Event) (s : Texcache),
      Transition.run (step caches) init es = some s → Fresh caches s := by
  intro hall
  have hrow : (Transition.run (step (slotsEach 2)) init
      (absentRun ++ [.invalidate, .draw 0 (plainDraw 0)])).map
      (fun s => (lookup (slotsEach 2) s (s.rows 0), (s.rows 0).gen, s.gen)) =
      some (.known, 0, 1) := by
    decide
  obtain ⟨s, hs, hrow⟩ := Option.map_eq_some_iff.mp hrow
  obtain ⟨hknown, hgens⟩ := Prod.mk.inj hrow
  obtain ⟨hgen, hnow⟩ := Prod.mk.inj hgens
  have heq := (hall (slotsEach 2) _ s hs).known 0 hknown
  rw [hgen, hnow] at heq
  cases heq

/-- A draw between the worker's first store and its last: the row names a slot that looks ready, and
there is no picture. -/
example : (Transition.run (step (slotsEach 1)) init
    [.renumber 0 0 0 [65], .draw 0 (plainDraw 0), .pop, .begin, .loaded .badFile, .store .worker,
      .draw 0 (plainDraw 0), .store .worker, .store .worker, .release, .finish]).map
    (fun s => (lookup (slotsEach 1) s (s.rows 0), (s.slots (0, 0)).texture)) =
    some (.ready 0, false) := by
  decide

end Texcache

end OpenPS2Loader
