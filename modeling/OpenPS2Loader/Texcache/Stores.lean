import OpenPS2Loader.Texcache.Effects

/-!
# Slots between two stores

The worker publishes a result by three stores to the slot, and `cacheClearItem` makes ten; the
drawing thread may come between any two of them. The handoff is meant to be safe because `qr` is
cleared last: until then the slot looks as if it were in flight. But the stores before that one are
not all harmless. A slot that is being parked has `lastUsed` 0 already, and a draw that finds it
stamps it; `cacheClearItem` clears `qr` with its second store, and a draw may take the slot for
ready, for an absence, or for one to claim.

A draw that meets no such slot does not notice that the stores are not one.

## Main definitions

* `Texcache.Exposed` — stores to a slot are under way, and it does not look as if it were in flight
* `Texcache.Undisturbed` — a draw neither finds nor claims such a slot
* `Texcache.Progress` — what the stores that were made have left
* `Texcache.Stored` — the invariant: every thread got that far, and a slot that looks ready has a
  picture or is gone

## Main results

* `Texcache.Stored.step` — a step keeps it where no draw is disturbed
-/

namespace OpenPS2Loader

namespace Texcache

variable {caches : Caches} {s s' : Texcache}

/-! ### What a draw may meet -/

/-- Stores to the slot are under way, and it does not look as if it were in flight: its `qr` is NULL
or its `lastUsed` 0. -/
def Exposed (s : Texcache) (e : ℕ × ℕ) : Prop :=
  (∃ w ∈ writers, (s.underway w).1 = e ∧ (s.underway w).2 ≠ []) ∧
    ((s.slots e).qr = none ∨ (s.slots e).lastUsed = 0)

instance (s : Texcache) (e : ℕ × ℕ) : Decidable (Exposed s e) := inferInstanceAs (Decidable (_ ∧ _))

/-- The slot a row finds. -/
def Lookup.slot : Lookup → Option ℕ
  | .pending i | .absent i | .ready i => some i
  | .known | .miss => none

/-- A draw neither finds nor claims an exposed slot. -/
def Undisturbed (caches : Caches) (s : Texcache) : Event → Prop
  | .draw r d =>
    (∀ i ∈ (lookup caches s (s.rows r)).slot, ¬ Exposed s ((s.rows r).cache, i)) ∧
      ∀ i ∈ claims caches s r d, ¬ Exposed s ((s.rows r).cache, i)
  | _ => True

instance (caches : Caches) (s : Texcache) (e : Event) : Decidable (Undisturbed caches s e) :=
  match e with
  | .draw r d =>
    inferInstanceAs (Decidable
      ((∀ i ∈ (lookup caches s (s.rows r)).slot, ¬ Exposed s ((s.rows r).cache, i)) ∧
        ∀ i ∈ claims caches s r d, ¬ Exposed s ((s.rows r).cache, i)))
  | .look _ | .renumber .. | .frame | .tick _ | .invalidate | .dropQueued | .pop | .begin
  | .loaded _ | .release | .finish | .cancel _ | .abort _ | .shutdown _ | .canceller _
  | .store _ => inferInstanceAs (Decidable True)

theorem mem_writers (w : Writer) : w ∈ writers := by
  cases w with
  | worker => exact List.mem_cons_self
  | canceller t => cases t <;> decide

/-- A thread that still has stores to make exposes a slot that does not look as if in flight. -/
theorem exposed_of_underway {w : Writer} {e : ℕ × ℕ} {stores : List Store}
    (hunder : s.underway w = (e, stores)) (hne : stores ≠ [])
    (hslot : (s.slots e).qr = none ∨ (s.slots e).lastUsed = 0) : Exposed s e :=
  ⟨⟨w, mem_writers w, by rw [hunder], by rwa [hunder]⟩, hslot⟩

/-! ### A slot that is being cleared -/

/-- What the first `k` stores of `cacheClearItem` leave in a slot. -/
structure Cleared (x : Slot) (k : ℕ) : Prop where
  qr : 2 ≤ k → x.qr = none
  uid : 4 ≤ k → x.uid = 0
  key : 5 ≤ k → x.key = []

theorem cleared_zero (x : Slot) : Cleared x 0 := ⟨nofun, nofun, nofun⟩

section Apply

variable {frame : ℤ} {x : Slot} {y : Store} {k : ℕ}

theorem Store.apply_qr (h : x.qr = none) : (y.apply frame x).qr = none := by
  cases y with
  | qr => rfl
  | _ => exact h

theorem Store.apply_uid (h : x.uid = 0) : (y.apply frame x).uid = 0 := by
  cases y with
  | uid => rfl
  | _ => exact h

theorem Store.apply_key (h : x.key = []) : (y.apply frame x).key = [] := by
  cases y with
  | key => rfl
  | _ => exact h

/-- A store of another thread takes nothing back. -/
theorem Cleared.apply (h : Cleared x k) : Cleared (y.apply frame x) k :=
  ⟨fun hk => Store.apply_qr (h.qr hk), fun hk => Store.apply_uid (h.uid hk),
    fun hk => Store.apply_key (h.key hk)⟩

/-- The next store of the thread itself. -/
theorem Cleared.next (h : Cleared x k) (hy : clearStores[k]? = some y) :
    Cleared (y.apply frame x) (k + 1) where
  qr hk := by
    rcases Nat.lt_or_ge k 2 with hlt | hge
    · obtain rfl : k = 1 := by omega
      obtain rfl : Store.qr = y := Option.some.inj hy
      rfl
    · exact Store.apply_qr (h.qr hge)
  uid hk := by
    rcases Nat.lt_or_ge k 4 with hlt | hge
    · obtain rfl : k = 3 := by omega
      obtain rfl : Store.uid = y := Option.some.inj hy
      rfl
    · exact Store.apply_uid (h.uid hge)
  key hk := by
    rcases Nat.lt_or_ge k 5 with hlt | hge
    · obtain rfl : k = 4 := by omega
      obtain rfl : Store.key = y := Option.some.inj hy
      rfl
    · exact Store.apply_key (h.key hge)

end Apply

/-- The store that is next, and those that are left behind it. -/
theorem clearStores_drop {k : ℕ} {y : Store} {stores : List Store}
    (h : y :: stores = clearStores.drop k) :
    clearStores[k]? = some y ∧ stores = clearStores.drop (k + 1) := by
  refine ⟨?_, ?_⟩
  · have hhead := congrArg List.head? h
    rw [List.head?_cons, List.head?_drop] at hhead
    exact hhead.symm
  · have htail := congrArg List.tail h
    rwa [List.tail_cons, List.tail_drop] at htail

/-- A thread is at the stores of `cacheClearItem` to the slot. -/
def Clearing (s : Texcache) (e : ℕ × ℕ) : Prop :=
  ∃ w k, k < 10 ∧ s.underway w = (e, clearStores.drop k)

theorem clearStores_drop_ne_nil {k : ℕ} (hk : k < 10) : clearStores.drop k ≠ [] := by
  rw [Ne, List.drop_eq_nil_iff]
  exact Nat.not_le.mpr hk

theorem Clearing.exposed {e : ℕ × ℕ} (h : Clearing s e) (hqr : (s.slots e).qr = none) :
    Exposed s e := by
  obtain ⟨w, k, hk, hunder⟩ := h
  exact exposed_of_underway hunder (clearStores_drop_ne_nil hk) (.inl hqr)

/-- The slot was cleared, or it is being cleared. -/
def Gone (s : Texcache) (e : ℕ × ℕ) : Prop := (s.slots e).uid = 0 ∨ Clearing s e

/-- No claim, and no store was made. -/
theorem Gone.congr {e : ℕ × ℕ} (h : Gone s e) (hslot : (s'.slots e).uid = (s.slots e).uid)
    (hunder : s'.underway = s.underway) : Gone s' e := by
  rwa [Gone, hslot, Clearing, hunder]

/-! ### How far the threads are -/

/-- What the stores a thread has made to slot `e` have left there, when `stores` are still to
come. -/
inductive Progress (s : Texcache) (e : ℕ × ℕ) (stores : List Store) : Writer → Prop
  | done (w : Writer) (h : stores = []) : Progress s e stores w
  | clear (w : Writer) (k : ℕ) (h : stores = clearStores.drop k) (hk : k < 10)
    (hcleared : Cleared (s.slots e) k) : Progress s e stores w
  | loaded (h : stores = loadedStores) : Progress s e stores .worker
  | stamp (h : stores = [.stamp, .qr]) (htex : (s.slots e).texture = true ∨ Gone s e) :
    Progress s e stores .worker
  | parked (epoch : UInt32) (gen : ℕ) (h : stores = parkedStores epoch gen) :
    Progress s e stores .worker
  | failEpoch (epoch : UInt32) (gen : ℕ) (h : stores = [.failEpoch epoch gen, .qr])
    (hused : (s.slots e).lastUsed = 0 ∨ Gone s e) : Progress s e stores .worker
  | qr (h : stores = [.qr])
    (hslot : (s.slots e).lastUsed = 0 ∨ (s.slots e).texture = true ∨ Gone s e) :
    Progress s e stores .worker

/-- Every thread is at one of its stores, and a slot that looks ready has a picture or is gone. -/
structure Stored (s : Texcache) : Prop where
  writer : ∀ w, Progress s (s.underway w).1 (s.underway w).2 w
  picture : ∀ e, (s.slots e).qr = none → (s.slots e).lastUsed ≠ 0 →
    (s.slots e).texture = true ∨ Gone s e

theorem stored_init : Stored init where
  writer w := .done w rfl
  picture _ _ _ := .inr (.inl rfl)

/-- Nothing a thread relies on was written. -/
theorem Progress.congr {e : ℕ × ℕ} {stores : List Store} {w : Writer} (h : Progress s e stores w)
    (hslot : s'.slots e = s.slots e) (hgone : Gone s e → Gone s' e) : Progress s' e stores w := by
  cases h with
  | done _ h => exact .done w h
  | clear _ k h hk hcleared => exact .clear w k h hk (hslot ▸ hcleared)
  | loaded h => exact .loaded h
  | stamp h htex => exact .stamp h (hslot ▸ htex.imp_right hgone)
  | parked epoch gen h => exact .parked epoch gen h
  | failEpoch epoch gen h hused => exact .failEpoch epoch gen h (hslot ▸ hused.imp_right hgone)
  | qr h hall => exact .qr h (hslot ▸ hall.imp_right (Or.imp_right hgone))

/-! ### A stamp -/

/-- A slot that is stamped is not a memo, or it is in flight and not exposed. -/
def Live (s : Texcache) (stamped : Option (ℕ × ℕ)) : Prop :=
  ∀ e, stamped = some e →
    (s.slots e).lastUsed ≠ 0 ∨ (s.slots e).qr ≠ none ∧ ¬ Exposed s e

theorem Moved.gone {stamped : Option (ℕ × ℕ)} (hmoved : Moved s stamped s') {e : ℕ × ℕ}
    (h : Gone s e) : Gone s' e := by
  refine h.congr ?_ hmoved.underway
  obtain heq | ⟨-, heq⟩ := hmoved.slot e <;> rw [heq]

/-- A stamp takes nothing from a thread that is at the slot. -/
theorem Progress.stamped {e : ℕ × ℕ} {stores : List Store} {w : Writer}
    (h : Progress s e stores w) (hunder : s.underway w = (e, stores))
    (hlive : (s.slots e).lastUsed ≠ 0 ∨ (s.slots e).qr ≠ none ∧ ¬ Exposed s e)
    (hslot : s'.slots e = { s.slots e with lastUsed := s.frame }) (hgone : Gone s e → Gone s' e) :
    Progress s' e stores w := by
  have hused : stores ≠ [] → (s.slots e).lastUsed ≠ 0 := fun hne h0 =>
    hlive.elim (fun hne0 => hne0 h0) fun hexp =>
      hexp.2 (exposed_of_underway hunder hne (.inr h0))
  cases h with
  | done _ h => exact .done w h
  | clear _ k h hk hcleared =>
    refine .clear w k h hk ?_
    rw [hslot]
    exact ⟨hcleared.qr, hcleared.uid, hcleared.key⟩
  | loaded h => exact .loaded h
  | stamp h htex =>
    refine .stamp h ?_
    rw [hslot]
    exact htex.imp_right hgone
  | parked epoch gen h => exact .parked epoch gen h
  | failEpoch epoch gen h h0 =>
    exact .failEpoch epoch gen h
      (.inr (hgone (h0.resolve_left (hused (by rw [h]; exact List.cons_ne_nil _ _)))))
  | qr h hall =>
    refine .qr h (.inr ?_)
    rw [hslot]
    exact (hall.resolve_left (hused (by rw [h]; exact List.cons_ne_nil _ _))).imp_right hgone

theorem Stored.moved {stamped : Option (ℕ × ℕ)} (h : Stored s) (hmoved : Moved s stamped s')
    (hlive : Live s stamped) : Stored s' where
  writer w := by
    rw [hmoved.underway]
    obtain heq | ⟨hstamped, heq⟩ := hmoved.slot (s.underway w).1
    · exact (h.writer w).congr heq hmoved.gone
    · exact (h.writer w).stamped rfl (hlive _ hstamped) heq hmoved.gone
  picture e hqr hused := by
    obtain heq | ⟨hstamped, heq⟩ := hmoved.slot e
    · rw [heq] at hqr hused ⊢
      exact (h.picture e hqr hused).imp_right hmoved.gone
    · rw [heq] at hqr ⊢
      have hused₀ := (hlive e hstamped).resolve_right fun hexp => hexp.1 hqr
      exact (h.picture e hqr hused₀).imp_right hmoved.gone

/-! ### A claim -/

theorem Claimed.gone {r i a : ℕ} (hc : Claimed s r i a s') {e : ℕ × ℕ}
    (he : e ≠ ((s.rows r).cache, i)) (h : Gone s e) : Gone s' e :=
  h.congr (by rw [hc.slots, Function.update_of_ne he]) hc.underway

theorem Stored.claimed {r i a : ℕ} (h : Stored s) (hc : Claimed s r i a s')
    (hqr : (s.slots ((s.rows r).cache, i)).qr = none)
    (hexp : ¬ Exposed s ((s.rows r).cache, i)) : Stored s' where
  writer w := by
    rw [hc.underway]
    by_cases he : (s.underway w).1 = ((s.rows r).cache, i)
    · -- nobody is at the slot
      refine .done w ?_
      by_contra hne
      exact hexp (exposed_of_underway (Prod.ext he rfl) hne (.inl hqr))
    · exact (h.writer w).congr (by rw [hc.slots, Function.update_of_ne he]) (hc.gone he)
  picture e hqr' hused := by
    rcases eq_or_ne e ((s.rows r).cache, i) with rfl | he
    · rw [hc.slots, Function.update_self] at hqr'
      cases hqr'
    · have hslot : s'.slots e = s.slots e := by rw [hc.slots, Function.update_of_ne he]
      rw [hslot] at hqr' hused ⊢
      exact (h.picture e hqr' hused).imp_right (hc.gone he)

/-! ### A job that starts -/

section Started

variable {w : Writer} {e : ℕ × ℕ} {stores : List Store}

/-- A thread that is at its stores is another one. -/
theorem Started.underway_eq (hs : Started s w e stores s') (hstored : (s.underway w).2 = [])
    {w' : Writer} {e' : ℕ × ℕ} {stores' : List Store} (h : s.underway w' = (e', stores'))
    (hne : stores' ≠ []) : s'.underway w' = (e', stores') := by
  rcases eq_or_ne w' w with rfl | hw
  · rw [h] at hstored
    exact absurd hstored hne
  · rw [hs.underway, Function.update_of_ne hw, h]

theorem Started.gone (hs : Started s w e stores s') (hstored : (s.underway w).2 = [])
    {e' : ℕ × ℕ} (h : Gone s e') : Gone s' e' := by
  obtain huid | ⟨w', k, hk, hunder⟩ := h
  · exact .inl (by rw [hs.slots, huid])
  · exact .inr ⟨w', k, hk, hs.underway_eq hstored hunder (clearStores_drop_ne_nil hk)⟩

theorem Job.progress (h : Job s w stores) (t : Texcache) (e : ℕ × ℕ) : Progress t e stores w := by
  cases h with
  | clear _ => exact .clear w 0 rfl (by decide) (cleared_zero _)
  | loaded => exact .loaded rfl
  | parked a r _ => exact .parked r.failEpoch r.gen rfl

theorem Stored.started (h : Stored s) (hs : Started s w e stores s')
    (hstored : (s.underway w).2 = []) : Stored s' where
  writer w' := by
    rcases eq_or_ne w' w with rfl | hw
    · rw [hs.underway, Function.update_self]
      exact hs.job.progress s' e
    · rw [hs.underway, Function.update_of_ne hw]
      exact (h.writer w').congr (by rw [hs.slots]) (hs.gone hstored)
  picture e' hqr hused := by
    rw [hs.slots] at hqr hused ⊢
    exact (h.picture e' hqr hused).imp_right (hs.gone hstored)

end Started

/-! ### A store -/

section Written

variable {w : Writer} {e : ℕ × ℕ} {y : Store} {stores : List Store}

@[simp] theorem written_slots_self :
    (s.written w e y stores).slots e = y.apply s.frame (s.slots e) :=
  Function.update_self ..

theorem written_slots_of_ne {e' : ℕ × ℕ} (h : e' ≠ e) :
    (s.written w e y stores).slots e' = s.slots e' :=
  Function.update_of_ne h ..

@[simp] theorem written_underway_self : (s.written w e y stores).underway w = (e, stores) :=
  Function.update_self ..

theorem written_underway_of_ne {w' : Writer} (h : w' ≠ w) :
    (s.written w e y stores).underway w' = s.underway w' :=
  Function.update_of_ne h ..

/-- A slot that is gone stays so: the last store of `cacheClearItem` is the one to `UID`. -/
theorem Gone.written (hunder : s.underway w = (e, y :: stores)) {e' : ℕ × ℕ} (h : Gone s e') :
    Gone (s.written w e y stores) e' := by
  obtain huid | ⟨w', k, hk, hunder'⟩ := h
  · refine .inl ?_
    rcases eq_or_ne e' e with rfl | he
    · rw [written_slots_self]
      exact Store.apply_uid huid
    · rw [written_slots_of_ne he, huid]
  · rcases eq_or_ne w' w with rfl | hw
    · rw [hunder] at hunder'
      obtain ⟨rfl, hdrop⟩ := Prod.mk.inj hunder'
      obtain ⟨hy, hrest⟩ := clearStores_drop hdrop
      rcases Nat.lt_or_ge (k + 1) 10 with hlt | hge
      · exact .inr ⟨w', k + 1, hlt, by rw [written_underway_self, hrest]⟩
      · obtain rfl : k = 9 := by omega
        obtain rfl : Store.uid = y := Option.some.inj hy
        exact .inl (by rw [written_slots_self]; rfl)
    · exact .inr ⟨w', k, hk, by rw [written_underway_of_ne hw, hunder']⟩

/-- The thread that made the store. -/
theorem Progress.next (h : Progress s e (y :: stores) w)
    (hunder : s.underway w = (e, y :: stores)) :
    Progress (s.written w e y stores) e stores w := by
  have hgone : Gone s e → Gone (s.written w e y stores) e := Gone.written hunder
  cases h with
  | done _ h => cases h
  | clear _ k h hk hcleared =>
    obtain ⟨hy, hrest⟩ := clearStores_drop h
    rcases Nat.lt_or_ge (k + 1) 10 with hlt | hge
    · refine .clear w (k + 1) hrest hlt ?_
      rw [written_slots_self]
      exact hcleared.next hy
    · refine .done w ?_
      rw [hrest, List.drop_eq_nil_iff]
      exact hge
  | loaded h =>
    obtain ⟨rfl, rfl⟩ := List.cons.inj h
    exact .stamp rfl (.inl (by rw [written_slots_self]; rfl))
  | stamp h htex =>
    obtain ⟨rfl, rfl⟩ := List.cons.inj h
    refine .qr rfl (.inr ?_)
    rw [written_slots_self]
    exact htex.imp_right hgone
  | parked epoch gen h =>
    obtain ⟨rfl, rfl⟩ := List.cons.inj h
    exact .failEpoch epoch gen rfl (.inl (by rw [written_slots_self]; rfl))
  | failEpoch epoch gen h hused =>
    obtain ⟨rfl, rfl⟩ := List.cons.inj h
    refine .qr rfl ?_
    rw [written_slots_self]
    exact hused.imp_right fun h => .inr (hgone h)
  | qr h _ =>
    obtain ⟨rfl, rfl⟩ := List.cons.inj h
    exact .done _ rfl

/-- What a store does to a slot, if it is one of `cacheClearItem`. -/
theorem Progress.clearing (h : Progress s e (y :: stores) w)
    (hunder : s.underway w = (e, y :: stores)) (hw : w ≠ .worker) :
    Gone (s.written w e y stores) e := by
  refine Gone.written hunder (.inr ?_)
  cases h with
  | done _ h => cases h
  | clear _ k h hk _ => exact ⟨w, k, hk, by rw [hunder, h]⟩
  | _ => exact absurd rfl hw

/-- Another thread that is at the slot. -/
theorem Progress.beside {w' : Writer} {stores' : List Store} (h : Progress s e (y :: stores) w)
    (hunder : s.underway w = (e, y :: stores)) (hw : w' ≠ w) (h' : Progress s e stores' w') :
    Progress (s.written w e y stores) e stores' w' := by
  cases h' with
  | done _ h' => exact .done w' h'
  | clear _ k h' hk hcleared =>
    refine .clear w' k h' hk ?_
    rw [written_slots_self]
    exact hcleared.apply
  | loaded h' => exact .loaded h'
  | parked epoch gen h' => exact .parked epoch gen h'
  -- the others clear the slot, if they are at it
  | stamp h' _ => exact .stamp h' (.inr (h.clearing hunder hw.symm))
  | failEpoch epoch gen h' _ =>
    exact .failEpoch epoch gen h' (.inr (h.clearing hunder hw.symm))
  | qr h' _ => exact .qr h' (.inr (.inr (h.clearing hunder hw.symm)))

/-- The slot the store is made to. -/
theorem Progress.picture (h : Progress s e (y :: stores) w)
    (hunder : s.underway w = (e, y :: stores))
    (hpic : (s.slots e).qr = none → (s.slots e).lastUsed ≠ 0 →
      (s.slots e).texture = true ∨ Gone s e)
    (hqr : (y.apply s.frame (s.slots e)).qr = none)
    (hused : (y.apply s.frame (s.slots e)).lastUsed ≠ 0) :
    (y.apply s.frame (s.slots e)).texture = true ∨ Gone (s.written w e y stores) e := by
  have hgone : Gone s e → Gone (s.written w e y stores) e := Gone.written hunder
  cases h with
  | done _ h => cases h
  | clear _ k h hk _ => exact .inr (hgone (.inr ⟨w, k, hk, by rw [hunder, h]⟩))
  | loaded h =>
    obtain ⟨rfl, rfl⟩ := List.cons.inj h
    exact .inl rfl
  | stamp h htex =>
    obtain ⟨rfl, rfl⟩ := List.cons.inj h
    exact htex.imp_right hgone
  | parked epoch gen h =>
    obtain ⟨rfl, rfl⟩ := List.cons.inj h
    exact absurd rfl hused
  | failEpoch epoch gen h _ =>
    obtain ⟨rfl, rfl⟩ := List.cons.inj h
    exact (hpic hqr hused).imp_right hgone
  | qr h hslot =>
    obtain ⟨rfl, rfl⟩ := List.cons.inj h
    exact (hslot.resolve_left hused).imp_right hgone

theorem Stored.written (h : Stored s) (hunder : s.underway w = (e, y :: stores)) :
    Stored (s.written w e y stores) := by
  have hprog : Progress s e (y :: stores) w := by
    have := h.writer w
    rwa [hunder] at this
  refine ⟨fun w' => ?_, fun e' hqr hused => ?_⟩
  · rcases eq_or_ne w' w with rfl | hw
    · rw [written_underway_self]
      exact hprog.next hunder
    · rw [written_underway_of_ne hw]
      have hprog' := h.writer w'
      rcases eq_or_ne (s.underway w').1 e with he | he
      · rw [he] at hprog' ⊢
        exact hprog.beside hunder hw hprog'
      · exact hprog'.congr (written_slots_of_ne he) (Gone.written hunder)
  · rcases eq_or_ne e' e with rfl | he
    · rw [written_slots_self] at hqr hused ⊢
      exact hprog.picture hunder (h.picture e') hqr hused
    · rw [written_slots_of_ne he] at hqr hused ⊢
      exact (h.picture e' hqr hused).imp_right (Gone.written hunder)

end Written

/-! ### The steps -/

theorem live_none (s : Texcache) : Live s none := nofun

/-- A slot a draw finds in flight. -/
theorem lookup_pending {row : Row} {i : ℕ} (h : lookup caches s row = .pending i) :
    (s.slots (row.cache, i)).qr ≠ none := by
  obtain ⟨hl, -⟩ | hid | hval := lookup_cases caches s row
  · rw [h] at hl
    cases hl
  · obtain ⟨j, -, -, -, hl⟩ := byId_eq_some hid
    rw [h] at hl
    split_ifs at hl with hqr
    cases hl
    exact Option.isSome_iff_ne_none.mp hqr
  · obtain hl | ⟨j, -, ⟨hl, hqr⟩ | ⟨hl, -⟩ | ⟨hl, -⟩⟩ := byValue_eq hval
    all_goals rw [h] at hl; cases hl
    exact hqr

theorem Stored.drawn {r : ℕ} {d : Draw} {o : Option ℕ} (h : Stored s)
    (hok : Undisturbed caches s (.draw r d)) (hd : DrawEffect caches s r d s' o) : Stored s' := by
  cases hd with
  | unchanged hmoved _ _ => exact h.moved hmoved (live_none s)
  | pending i _ hmoved hlook _ =>
    refine h.moved hmoved fun e he => .inr ?_
    obtain rfl := Option.some.inj he
    exact ⟨lookup_pending hlook, hok.1 i (by rw [hlook]; rfl)⟩
  | ready i _ hmoved hlook _ =>
    refine h.moved hmoved fun e he => .inl ?_
    obtain rfl := Option.some.inj he
    exact (lookup_ready hlook).2
  | parked i hmoved _ _ => exact h.moved hmoved (live_none s)
  | missed hmoved _ _ _ => exact h.moved hmoved (live_none s)
  | claimed i a hc _ hclaims _ =>
    exact h.claimed hc (claims_eq_some hclaims).2.2.2 (hok.2 i hclaims)

/-- Neither a slot nor a store. -/
theorem Stored.congr (h : Stored s) (hslots : s'.slots = s.slots)
    (hunder : s'.underway = s.underway) : Stored s' where
  writer w := by
    rw [hunder]
    exact (h.writer w).congr (by rw [hslots]) fun hg => hg.congr (by rw [hslots]) hunder
  picture e hqr hused := by
    rw [hslots] at hqr hused ⊢
    exact (h.picture e hqr hused).imp_right fun hg => hg.congr (by rw [hslots]) hunder

theorem Stored.step {e : Event} (h : Stored s) (hok : Undisturbed caches s e)
    (hstep : step caches s e = some s') : Stored s' := by
  cases step_effect hstep with
  | idled _ _ hidled => exact h.moved hidled.moved (live_none s)
  | looked r _ stamped hmoved hlive _ => exact h.moved hmoved fun e he => .inl (hlive e he)
  | started _ _ w slot stores hstored hs => exact h.started hs hstored
  | stored w slot x stores hunder => exact h.written hunder
  | drawn r d _ o hd => exact h.drawn hok hd
  | renumbered r c l value => exact h.congr rfl rfl
  | ticked => exact h.congr rfl rfl
  | invalidated => exact h.congr rfl rfl

end Texcache

end OpenPS2Loader
