import Mathlib.Logic.Function.Basic
import Mathlib.Order.Nat

/-!
# A ledger of resources

Threads make resources, and a resource that is made is in the hand of its thread until the thread
puts it into a slot that all of them share or gives it back. What is in the slot is given back when
the slot is emptied. Each resource has a tag, and the slot has an owner: the tag it is said to be
for, if it is said to be for one.

The ledger counts how often each resource was published and how often it was freed, and
`Ledger.Balanced` says that the counts are those of a resource that is where it is. Nothing in the
operations keeps a resource from being freed twice; that is what `Balanced` is for.
-/

namespace OpenPS2Loader

/-- Resources with tags in `τ`, in the hands of the threads in `ι` or in the slot. -/
structure Ledger (ι τ : Type*) where
  made : ℕ
  tag : ℕ → τ
  /-- the resource in the hand of a thread, and what it was made for -/
  hand : ι → Option (ℕ × τ)
  slot : Option ℕ
  owner : Option τ
  published : ℕ → ℕ
  freed : ℕ → ℕ

namespace Ledger

variable {ι τ : Type*}

/-- Every resource was published and freed as often as its place says. -/
structure Balanced (l : Ledger ι τ) : Prop where
  /-- what is not made yet -/
  new : ∀ n, l.made ≤ n → l.published n = 0 ∧ l.freed n = 0
  /-- what is in a hand -/
  hand : ∀ i n t, l.hand i = some (n, t) →
    n < l.made ∧ l.tag n = t ∧ l.published n = 0 ∧ l.freed n = 0
  /-- nothing is in two hands -/
  apart : ∀ i j n t u, l.hand i = some (n, t) → l.hand j = some (n, u) → i = j
  /-- what is in the slot -/
  slot : ∀ n, l.slot = some n → n < l.made ∧ l.published n = 1 ∧ l.freed n = 0
  /-- the slot is the owner's -/
  owner : ∀ n t, l.slot = some n → l.owner = some t → l.tag n = t
  /-- what is given back -/
  gone : ∀ n < l.made, (∀ i t, l.hand i ≠ some (n, t)) → l.slot ≠ some n →
    l.freed n = 1 ∧ l.published n ≤ 1

variable {l : Ledger ι τ} {i : ι} {n : ℕ} {t : τ} {owner : Option τ}

/-- Nobody else has what a thread has. -/
theorem Balanced.hand_ne (h : l.Balanced) (hi : l.hand i = some (n, t)) {j : ι} {m : ℕ} {u : τ}
    (hne : j ≠ i) (hj : l.hand j = some (m, u)) : m ≠ n := by
  rintro rfl
  exact hne (h.apart j i m u t hj hi)

/-- What is in the slot is in no hand. -/
theorem Balanced.slot_ne (h : l.Balanced) (hi : l.hand i = some (n, t)) {m : ℕ}
    (hm : l.slot = some m) : m ≠ n := by
  rintro rfl
  have hzero := (h.hand i m t hi).2.2.1
  rw [(h.slot m hm).2.1] at hzero
  cases hzero

/-- The slot is emptied. -/
def clear (l : Ledger ι τ) (owner : Option τ) : Ledger ι τ :=
  { l with
    slot := none
    owner := owner
    freed := l.slot.elim l.freed fun n => Function.update l.freed n (l.freed n + 1) }

/-- The slot gets another owner. -/
def own (l : Ledger ι τ) (owner : Option τ) : Ledger ι τ := { l with owner := owner }

theorem Balanced.clear (h : l.Balanced) (owner : Option τ) : (l.clear owner).Balanced := by
  cases hslot : l.slot with
  | none =>
    have hclear : l.clear owner = { l with owner := owner } := by
      rw [Ledger.clear, hslot]
      rfl
    rw [hclear]
    refine ⟨h.new, h.hand, h.apart, h.slot, fun m u hm => ?_, h.gone⟩
    rw [hslot] at hm
    cases hm
  | some n =>
    obtain ⟨hmade, hpub, hfree⟩ := h.slot n hslot
    have hother : ∀ m, m ≠ n → (l.clear owner).freed m = l.freed m := by
      intro m hm
      rw [Ledger.clear, hslot]
      exact Function.update_of_ne hm _ _
    have hself : (l.clear owner).freed n = 1 := by
      rw [← Nat.zero_add 1, ← hfree, Ledger.clear, hslot]
      exact Function.update_self _ _ _
    constructor
    · intro m hm
      rw [hother m (by rintro rfl; exact absurd hmade (Nat.not_lt.mpr hm))]
      exact h.new m hm
    · intro j m u hj
      rw [hother m (h.slot_ne hj hslot).symm]
      exact h.hand j m u hj
    · exact h.apart
    · rintro m ⟨⟩
    · rintro m u ⟨⟩
    · intro m hm hhand _
      by_cases hne : m = n
      · rw [hne, hself]
        exact ⟨rfl, hpub.le⟩
      · rw [hother m hne]
        refine h.gone m hm hhand ?_
        rw [hslot]
        exact fun heq => hne (Option.some.inj heq).symm

theorem Balanced.own (h : l.Balanced) (howner : l.slot = none ∨ owner = none) :
    (l.own owner).Balanced := by
  refine ⟨h.new, h.hand, h.apart, h.slot, fun m u hm hu => ?_, h.gone⟩
  obtain hslot | rfl := howner
  · rw [Ledger.own, hslot] at hm
    cases hm
  · cases hu

/-! ### The hands -/

variable [DecidableEq ι]

/-- A thread makes a resource. -/
def make (l : Ledger ι τ) (i : ι) (t : τ) : Ledger ι τ :=
  { l with
    made := l.made + 1
    tag := Function.update l.tag l.made t
    hand := Function.update l.hand i (some (l.made, t)) }

/-- A thread puts what it has into the slot. -/
def publish (l : Ledger ι τ) (i : ι) (n : ℕ) (owner : Option τ) : Ledger ι τ :=
  { l with
    hand := Function.update l.hand i none
    slot := some n
    owner := owner
    published := Function.update l.published n (l.published n + 1) }

/-- A thread gives back what it has. -/
def drop (l : Ledger ι τ) (i : ι) (n : ℕ) : Ledger ι τ :=
  { l with
    hand := Function.update l.hand i none
    freed := Function.update l.freed n (l.freed n + 1) }

/-- The hand of a thread that gets `x`, and the hands of the others. -/
theorem hand_update {x : Option (ℕ × τ)} {j : ι} {m : ℕ} {u : τ}
    (h : Function.update l.hand i x j = some (m, u)) :
    j = i ∧ x = some (m, u) ∨ j ≠ i ∧ l.hand j = some (m, u) := by
  rw [Function.update_apply] at h
  by_cases hj : j = i
  · rw [if_pos hj] at h
    exact .inl ⟨hj, h⟩
  · rw [if_neg hj] at h
    exact .inr ⟨hj, h⟩

theorem Balanced.make (h : l.Balanced) (hi : l.hand i = none) (t : τ) : (l.make i t).Balanced where
  new m hm := h.new m (Nat.le_of_succ_le hm)
  hand j m u hj := by
    obtain ⟨-, heq⟩ | ⟨-, hj⟩ := hand_update hj
    · obtain ⟨rfl, rfl⟩ := Prod.mk.inj (Option.some.inj heq)
      exact ⟨Nat.lt_succ_self _, Function.update_self _ _ _, h.new _ le_rfl⟩
    · obtain ⟨hlt, htag, hcounts⟩ := h.hand j m u hj
      refine ⟨Nat.lt_succ_of_lt hlt, ?_, hcounts⟩
      rw [← htag]
      exact Function.update_of_ne hlt.ne _ _
  apart j k m u v hj hk := by
    -- the new one is in no other hand
    have hnew : ∀ j u, l.hand j ≠ some (l.made, u) := fun j u hj =>
      lt_irrefl _ (h.hand j _ u hj).1
    obtain ⟨rfl, hj'⟩ | ⟨-, hj'⟩ := hand_update hj
    · obtain ⟨rfl, -⟩ | ⟨-, hk'⟩ := hand_update hk
      · rfl
      · obtain ⟨rfl, rfl⟩ := Prod.mk.inj (Option.some.inj hj')
        exact absurd hk' (hnew k v)
    · obtain ⟨rfl, hk'⟩ | ⟨-, hk'⟩ := hand_update hk
      · obtain ⟨rfl, rfl⟩ := Prod.mk.inj (Option.some.inj hk')
        exact absurd hj' (hnew j u)
      · exact h.apart j k m u v hj' hk'
  slot m hm := by
    obtain ⟨hlt, hcounts⟩ := h.slot m hm
    exact ⟨Nat.lt_succ_of_lt hlt, hcounts⟩
  owner m u hm hu := by
    rw [← h.owner m u hm hu]
    exact Function.update_of_ne (h.slot m hm).1.ne _ _
  gone m hm hhand hslot := by
    by_cases hmade : m = l.made
    · refine absurd ?_ (hhand i t)
      rw [hmade]
      exact Function.update_self _ _ _
    · refine h.gone m (by have := Nat.le_of_lt_succ hm; omega) (fun j u hj => hhand j u ?_) hslot
      have hne : j ≠ i := by
        rintro rfl
        rw [hi] at hj
        cases hj
      exact (Function.update_of_ne hne _ _).trans hj

theorem Balanced.publish (h : l.Balanced) (hi : l.hand i = some (n, t)) (hslot : l.slot = none)
    (howner : ∀ u, owner = some u → u = t) : (l.publish i n owner).Balanced := by
  obtain ⟨hmade, htag, hpub, hfree⟩ := h.hand i n t hi
  have hother : ∀ m, m ≠ n → (l.publish i n owner).published m = l.published m :=
    fun m hm => Function.update_of_ne hm _ _
  have hself : (l.publish i n owner).published n = 1 := by
    rw [← Nat.zero_add 1, ← hpub]
    exact Function.update_self _ _ _
  constructor
  · intro m hm
    rw [hother m (by rintro rfl; exact absurd hmade (Nat.not_lt.mpr hm))]
    exact h.new m hm
  · intro j m u hj
    obtain ⟨-, heq⟩ | ⟨hne, hj⟩ := hand_update hj
    · cases heq
    · rw [hother m (h.hand_ne hi hne hj)]
      exact h.hand j m u hj
  · intro j k m u v hj hk
    obtain ⟨-, heq⟩ | ⟨-, hj⟩ := hand_update hj
    · cases heq
    · obtain ⟨-, heq⟩ | ⟨-, hk⟩ := hand_update hk
      · cases heq
      · exact h.apart j k m u v hj hk
  · rintro m ⟨⟩
    exact ⟨hmade, hself, hfree⟩
  · rintro m u ⟨⟩ hu
    exact htag.trans (howner u hu).symm
  · intro m hm hhand hm'
    have hne : m ≠ n := fun heq => hm' (congrArg some heq.symm)
    rw [hother m hne]
    refine h.gone m hm (fun j u hj => ?_) (by rw [hslot]; exact nofun)
    by_cases hji : j = i
    · rw [hji, hi] at hj
      exact hne (Prod.mk.inj (Option.some.inj hj)).1.symm
    · exact hhand j u ((Function.update_of_ne hji _ _).trans hj)

theorem Balanced.drop (h : l.Balanced) (hi : l.hand i = some (n, t)) : (l.drop i n).Balanced := by
  obtain ⟨hmade, -, hpub, hfree⟩ := h.hand i n t hi
  have hother : ∀ m, m ≠ n → (l.drop i n).freed m = l.freed m :=
    fun m hm => Function.update_of_ne hm _ _
  have hself : (l.drop i n).freed n = 1 := by
    rw [← Nat.zero_add 1, ← hfree]
    exact Function.update_self _ _ _
  constructor
  · intro m hm
    rw [hother m (by rintro rfl; exact absurd hmade (Nat.not_lt.mpr hm))]
    exact h.new m hm
  · intro j m u hj
    obtain ⟨-, heq⟩ | ⟨hne, hj⟩ := hand_update hj
    · cases heq
    · rw [hother m (h.hand_ne hi hne hj)]
      exact h.hand j m u hj
  · intro j k m u v hj hk
    obtain ⟨-, heq⟩ | ⟨-, hj⟩ := hand_update hj
    · cases heq
    · obtain ⟨-, heq⟩ | ⟨-, hk⟩ := hand_update hk
      · cases heq
      · exact h.apart j k m u v hj hk
  · intro m hm
    rw [hother m (h.slot_ne hi hm)]
    exact h.slot m hm
  · exact h.owner
  · intro m hm hhand hslot
    by_cases hne : m = n
    · rw [hne, hself]
      exact ⟨rfl, hpub.le.trans (Nat.zero_le 1)⟩
    · rw [hother m hne]
      refine h.gone m hm (fun j u hj => ?_) hslot
      by_cases hji : j = i
      · rw [hji, hi] at hj
        exact hne (Prod.mk.inj (Option.some.inj hj)).1.symm
      · exact hhand j u ((Function.update_of_ne hji _ _).trans hj)

end Ledger

end OpenPS2Loader
