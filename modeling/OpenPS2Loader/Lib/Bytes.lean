import Mathlib.Algebra.Group.Nat.Defs
import Mathlib.Data.List.Range

/-!
# Slices, overwriting and little-endian numbers

A medium that is read at arbitrary positions is a function from positions. `slice` reads it,
`overwrite` is a copy into a buffer, and `ofLe`, `toLe` are the little-endian numbers in it.

## Main definitions

* `Bytes.slice` — the elements of a sequence from a position on
* `Bytes.ofSectors` — the bytes of a medium that consists of sectors
* `Bytes.overwrite`, `Bytes.store`, `Bytes.stores` — a buffer after copies into it
* `Bytes.field` — the elements at a position
* `Bytes.appends` — copies one behind the other
* `Bytes.write` — a memory after a copy into it
* `Bytes.cstr` — a C string
* `Bytes.ofLe`, `Bytes.toLe` — little-endian numbers
-/

namespace OpenPS2Loader

namespace Bytes

variable {α : Type*} {f g : ℕ → α} {l d : List α} {p q m n : ℕ}

/-! ### Slices -/

/-- The `n` elements of `f` from `p` on. -/
def slice (f : ℕ → α) (p n : ℕ) : List α := (List.range n).map fun i => f (p + i)

@[simp] theorem length_slice (f : ℕ → α) (p n : ℕ) : (slice f p n).length = n := by simp [slice]

@[simp] theorem slice_zero (f : ℕ → α) (p : ℕ) : slice f p 0 = [] := rfl

theorem slice_add (f : ℕ → α) (p m n : ℕ) :
    slice f p (m + n) = slice f p m ++ slice f (p + m) n := by
  simp [slice, List.range_add, Function.comp_def, Nat.add_assoc]

/-- The slice that is left of `q` and the one that is right of it. -/
theorem slice_split (f : ℕ → α) (p : ℕ) (h : m ≤ n) :
    slice f p n = slice f p m ++ slice f (p + m) (n - m) := by
  rw [← slice_add, Nat.add_sub_cancel' h]

theorem take_slice (f : ℕ → α) (p : ℕ) (h : m ≤ n) : (slice f p n).take m = slice f p m := by
  rw [slice_split f p h, List.take_left' (length_slice f p m)]

theorem drop_slice (f : ℕ → α) (p : ℕ) (h : m ≤ n) :
    (slice f p n).drop m = slice f (p + m) (n - m) := by
  rw [slice_split f p h, List.drop_left' (length_slice f p m)]

theorem slice_congr (h : ∀ i < n, f (p + i) = g (q + i)) : slice f p n = slice g q n := by
  refine List.map_congr_left fun i hi => ?_
  exact h i (List.mem_range.mp hi)

/-- A list is a slice of every sequence that agrees with it. -/
theorem slice_eq_of_getElem? (hl : l.length = n)
    (h : ∀ i < n, l[i]? = some (f (p + i))) : slice f p n = l := by
  refine List.ext_getElem? fun i => ?_
  by_cases hi : i < n
  · rw [h i hi, slice, List.getElem?_map, List.getElem?_range hi]
    rfl
  · rw [List.getElem?_eq_none (by rw [length_slice]; omega), List.getElem?_eq_none (by omega)]

/-! ### Sectors -/

/-- The bytes of a medium in sectors of 2048 bytes, from a sector on. Sector numbers are 32 bits
wide. -/
def ofSectors (sector : ℕ → ℕ → α) (lsn k : ℕ) : α := sector ((lsn + k / 2048) % 2 ^ 32) (k % 2048)

theorem ofSectors_add (sector : ℕ → ℕ → α) (lsn n k : ℕ) :
    ofSectors sector ((lsn + n) % 2 ^ 32) k = ofSectors sector lsn (2048 * n + k) := by
  have hsector : ((lsn + n) % 2 ^ 32 + k / 2048) % 2 ^ 32 =
      (lsn + (2048 * n + k) / 2048) % 2 ^ 32 := by omega
  rw [ofSectors, ofSectors, hsector, Nat.mul_add_mod]

/-! ### Overwriting -/

/-- `l` after `d` was copied to position `p`. -/
def overwrite (l : List α) (p : ℕ) (d : List α) : List α := l.take p ++ d ++ l.drop (p + d.length)

theorem length_overwrite (h : p + d.length ≤ l.length) : (overwrite l p d).length = l.length := by
  simp only [overwrite, List.length_append, List.length_take, List.length_drop]
  omega

/-- What lies behind the copy. -/
theorem drop_overwrite (h : p + d.length ≤ l.length) (hq : p + d.length ≤ q) :
    (overwrite l p d).drop q = l.drop q := by
  have hlen : (l.take p ++ d).length = p + d.length := by
    rw [List.length_append, List.length_take]
    omega
  rw [overwrite, List.drop_append, hlen, List.drop_eq_nil_of_le (by omega), List.nil_append,
    List.drop_drop]
  congr 1
  omega

/-- What lies in front of the end of the copy. -/
theorem take_overwrite (h : p + d.length ≤ l.length) :
    (overwrite l p d).take (p + d.length) = l.take p ++ d := by
  have hlen : (l.take p ++ d).length = p + d.length := by
    rw [List.length_append, List.length_take]
    omega
  rw [overwrite, List.take_left' hlen]

theorem getD_overwrite (h : p + d.length ≤ l.length) (q : ℕ) (a : α) :
    (overwrite l p d).getD q a =
      if p ≤ q ∧ q < p + d.length then d.getD (q - p) a else l.getD q a := by
  have htake : (l.take p).length = p := by
    rw [List.length_take]
    omega
  simp only [overwrite, List.getD_eq_getElem?_getD, List.append_assoc]
  by_cases hq : q < p
  · rw [if_neg (by omega), List.getElem?_append_left (by omega), List.getElem?_take_of_lt hq]
  · rw [List.getElem?_append_right (by omega), htake]
    by_cases hd : q < p + d.length
    · rw [if_pos ⟨by omega, hd⟩, List.getElem?_append_left (by omega)]
    · rw [if_neg (by omega), List.getElem?_append_right (by omega), List.getElem?_drop]
      congr 2
      omega

/-- The `n` elements at position `p`. -/
def field (l : List α) (p n : ℕ) : List α := (l.drop p).take n

theorem length_field (h : p + n ≤ l.length) : (field l p n).length = n := by
  rw [field, List.length_take, List.length_drop]
  omega

theorem field_add (l : List α) (p m n : ℕ) :
    field l p (m + n) = field l p m ++ field l (p + m) n := by
  rw [field, List.take_add, List.drop_drop, field, field]

theorem field_overwrite_self (h : p + d.length ≤ l.length) :
    field (overwrite l p d) p d.length = d := by
  have hlen : (l.take p).length = p := by
    rw [List.length_take]
    omega
  rw [field, overwrite, List.append_assoc, List.drop_left' hlen, List.take_left' rfl]

/-- A field in front of the copy. -/
theorem field_overwrite_of_le (h : p + d.length ≤ l.length) (hq : q + n ≤ p) :
    field (overwrite l p d) q n = field l q n := by
  have htake : (overwrite l p d).take p = l.take p := by
    rw [overwrite, List.append_assoc, List.take_left']
    rw [List.length_take]
    omega
  have hfront : ∀ m : List α, field m q n = field (m.take p) q n := by
    intro m
    rw [field, field, List.drop_take, List.take_take, Nat.min_eq_left (by omega)]
  rw [hfront, htake, ← hfront]

/-- A field behind the copy. -/
theorem field_overwrite_of_ge (h : p + d.length ≤ l.length) (hq : p + d.length ≤ q) :
    field (overwrite l p d) q n = field l q n := by
  rw [field, drop_overwrite h hq, field]

/-- A copy that stays in the buffer. -/
def store (l : List α) (p : ℕ) (d : List α) : Option (List α) :=
  if p + d.length ≤ l.length then some (overwrite l p d) else none

theorem store_of_le (h : p + d.length ≤ l.length) : store l p d = some (overwrite l p d) :=
  if_pos h

theorem length_of_store {l' : List α} (h : store l p d = some l') :
    l'.length = l.length := by
  rw [store] at h
  split at h
  next hle =>
    obtain rfl := Option.some.inj h
    exact length_overwrite hle
  next => cases h

/-- A copy leaves what is in front of it. -/
theorem getElem?_of_store {l' : List α} {k : ℕ} (h : store l p d = some l')
    (hk : k < p) : l'[k]? = l[k]? := by
  rw [store] at h
  split at h
  next hle =>
    obtain rfl := Option.some.inj h
    have htake : k < (l.take p).length := by
      rw [List.length_take]
      omega
    rw [overwrite, List.append_assoc, List.getElem?_append_left htake, List.getElem?_take_of_lt hk]
  next => cases h

theorem getElem?_of_store_self {l' : List α} {a : α}
    (h : store l p [a] = some l') : l'[p]? = some a := by
  rw [store] at h
  split at h
  next hle =>
    obtain rfl := Option.some.inj h
    have htake : (l.take p).length = p := by
      rw [List.length_singleton] at hle
      exact List.length_take_of_le (by omega)
    rw [overwrite, List.append_assoc, List.getElem?_append_right htake.le, htake, Nat.sub_self]
    rfl
  next => cases h

@[simp] theorem overwrite_nil (l : List α) (p : ℕ) : overwrite l p [] = l := by
  rw [overwrite, List.append_nil, List.length_nil, Nat.add_zero, List.take_append_drop]

/-- Copies next to each other are one copy. -/
theorem overwrite_overwrite (d' : List α) (h : p + d.length ≤ l.length) :
    overwrite (overwrite l p d) (p + d.length) d' = overwrite l p (d ++ d') := by
  rw [overwrite, take_overwrite h, drop_overwrite h (Nat.le_add_right _ _), overwrite,
    List.length_append, List.append_assoc (l.take p), Nat.add_assoc]

/-- A copy is that of its first element, and that of the others behind it. -/
theorem store_cons (l : List α) (p : ℕ) (a : α) (d : List α) :
    store l p (a :: d) = (store l p [a]).bind fun l' => store l' (p + 1) d := by
  by_cases h : p + (a :: d).length ≤ l.length
  · rw [List.length_cons] at h
    have ha : p + [a].length ≤ l.length := by
      rw [List.length_singleton]
      omega
    rw [store_of_le h, store_of_le ha, Option.bind_some,
      store_of_le (by rw [length_overwrite ha]; omega)]
    exact congrArg some (overwrite_overwrite d ha).symm
  · rw [store, if_neg h]
    rcases hs : store l p [a] with _ | l'
    · rfl
    · have hlen := length_of_store hs
      rw [List.length_cons] at h
      rw [Option.bind_some, store, if_neg (by omega)]

/-- The chunks of a list, one after the other. -/
theorem flatMap_field_range (l : List α) (c m : ℕ) :
    (List.range m).flatMap (fun k => field l (k * c) c) = l.take (m * c) := by
  induction m with
  | zero => simp
  | succ m ih =>
    rw [List.range_succ, List.flatMap_append, ih, List.flatMap_singleton, field, Nat.succ_mul,
      List.take_add]

theorem field_take (l : List α) (h : p + n ≤ m) : field (l.take m) p n = field l p n := by
  rw [field, List.drop_take, List.take_take, Nat.min_eq_left (by omega), field]

/-- A field of what was copied to the front. -/
theorem field_overwrite_zero (h : q + n ≤ d.length) :
    field (overwrite l 0 d) q n = field d q n := by
  rw [overwrite, List.take_zero, List.nil_append, field, field, List.drop_append_of_le_length
    (by omega), List.take_append_of_le_length (by rw [List.length_drop]; omega)]

/-- Copies one after the other, each a position and what is copied there. -/
def stores (l : List α) (ws : List (ℕ × List α)) : Option (List α) :=
  ws.foldlM (fun l w => store l w.1 w.2) l

/-- A copy that leaves the `n` elements at `q` alone. -/
def Apart (q n : ℕ) (w : ℕ × List α) : Prop := q + n ≤ w.1 ∨ w.1 + w.2.length ≤ q

instance (w : ℕ × List α) : Decidable (Apart q n w) := inferInstanceAs (Decidable (_ ∨ _))

theorem field_overwrite_of_apart {w : ℕ × List α} (h : w.1 + w.2.length ≤ l.length)
    (hw : Apart q n w) : field (overwrite l w.1 w.2) q n = field l q n := by
  obtain hq | hq := hw
  · exact field_overwrite_of_le h hq
  · exact field_overwrite_of_ge h hq

theorem stores_cons (l : List α) (w : ℕ × List α) (ws : List (ℕ × List α)) :
    stores l (w :: ws) = (store l w.1 w.2).bind fun l' => stores l' ws := List.foldlM_cons

/-- Copies that stay in the buffer, and what they leave alone. -/
theorem exists_stores (l : List α) (ws : List (ℕ × List α))
    (h : ∀ w ∈ ws, w.1 + w.2.length ≤ l.length) :
    ∃ l', stores l ws = some l' ∧ l'.length = l.length ∧
      ∀ q n, (∀ w ∈ ws, Apart q n w) → field l' q n = field l q n := by
  induction ws generalizing l with
  | nil => exact ⟨l, rfl, rfl, fun _ _ _ => rfl⟩
  | cons w ws ih =>
    have hw := h w List.mem_cons_self
    have hlen := length_overwrite hw
    obtain ⟨l', hl', hlen', hfield⟩ := ih (overwrite l w.1 w.2) fun v hv => by
      rw [hlen]
      exact h v (List.mem_cons_of_mem w hv)
    refine ⟨l', ?_, hlen'.trans hlen, fun q n hapart => ?_⟩
    · rw [stores_cons, store_of_le hw]
      exact hl'
    · rw [hfield q n fun v hv => hapart v (List.mem_cons_of_mem w hv)]
      exact field_overwrite_of_apart hw (hapart w List.mem_cons_self)

theorem stores_append (l : List α) (ws vs : List (ℕ × List α)) :
    stores l (ws ++ vs) = (stores l ws).bind fun l' => stores l' vs := List.foldlM_append

/-- What was copied is read back when the later copies leave it alone. -/
theorem field_stores {l' : List α} {ws vs : List (ℕ × List α)} {w : ℕ × List α}
    (hall : ∀ v ∈ ws ++ w :: vs, v.1 + v.2.length ≤ l.length)
    (hl' : stores l (ws ++ w :: vs) = some l') (hvs : ∀ v ∈ vs, Apart w.1 w.2.length v) :
    field l' w.1 w.2.length = w.2 := by
  obtain ⟨l₁, hl₁, hlen, -⟩ := exists_stores l ws fun v hv =>
    hall v (List.mem_append_left _ hv)
  have hw : w.1 + w.2.length ≤ l₁.length := by
    rw [hlen]
    exact hall w (List.mem_append_right _ List.mem_cons_self)
  obtain ⟨l₂, hl₂, -, hfield⟩ := exists_stores (overwrite l₁ w.1 w.2) vs fun v hv => by
    rw [length_overwrite hw, hlen]
    exact hall v (List.mem_append_right _ (List.mem_cons_of_mem w hv))
  rw [stores_append, hl₁, Option.bind_some, stores_cons, store_of_le hw, Option.bind_some] at hl'
  obtain rfl := Option.some.inj (hl₂.symm.trans hl')
  rw [hfield _ _ hvs, field_overwrite_self hw]

/-- Copies one behind the other, from position `p` on, each of them in the buffer. -/
def appends (l : List α) (p : ℕ) : List (List α) → Option (List α)
  | [] => some l
  | d :: ds => (store l p d).bind fun l' => appends l' (p + d.length) ds

/-- They are one copy. -/
theorem appends_of_le {ds : List (List α)} (h : p + ds.flatten.length ≤ l.length) :
    appends l p ds = some (overwrite l p ds.flatten) := by
  induction ds generalizing l p with
  | nil => rw [appends, List.flatten_nil, overwrite_nil]
  | cons d ds ih =>
    rw [List.flatten_cons, List.length_append] at h
    have hd : p + d.length ≤ l.length := by omega
    rw [appends, store_of_le hd, Option.bind_some, ih (by rw [length_overwrite hd]; omega),
      overwrite_overwrite _ hd, List.flatten_cons]

theorem overwrite_all (h : d.length = l.length) : overwrite l 0 d = d := by
  rw [overwrite, List.take_zero, List.nil_append, Nat.zero_add, h, List.drop_length,
    List.append_nil]

/-! ### Memory -/

/-- A memory after `d` was written from `p` on. -/
def write (f : ℕ → α) (p : ℕ) (d : List α) (q : ℕ) : α :=
  if p ≤ q then (d[q - p]?).getD (f q) else f q

/-- What is not written to stays. -/
theorem write_of_apart (f : ℕ → α) (d : List α) (h : q < p ∨ p + d.length ≤ q) :
    write f p d q = f q := by
  rw [write]
  split_ifs with hle
  · rw [List.getElem?_eq_none (by omega)]
    rfl
  · rfl

theorem slice_write_of_apart (f : ℕ → α) (d : List α) (h : q + n ≤ p ∨ p + d.length ≤ q) :
    slice (write f p d) q n = slice f q n :=
  slice_congr fun _ hi => write_of_apart f d (by omega)

theorem slice_write_self (f : ℕ → α) (p : ℕ) (d : List α) :
    slice (write f p d) p d.length = d := by
  refine slice_eq_of_getElem? rfl fun i hi => ?_
  rw [write, if_pos (Nat.le_add_right p i), Nat.add_sub_cancel_left, List.getElem?_eq_getElem hi]
  rfl

@[simp] theorem write_nil (f : ℕ → α) (p : ℕ) : write f p [] = f :=
  funext fun _ => write_of_apart f [] (by rw [List.length_nil]; omega)

/-! ### C strings -/

/-- The C string at the start of a buffer. -/
def cstr (l : List UInt8) : List UInt8 := l.takeWhile (· ≠ 0)

theorem zero_not_mem_cstr (l : List UInt8) : 0 ∉ cstr l := by
  intro h
  simpa using List.all_eq_true.mp List.all_takeWhile 0 h

theorem length_cstr_le (l : List UInt8) : (cstr l).length ≤ l.length :=
  (List.takeWhile_prefix _).length_le

theorem cstr_of_not_mem {t : List UInt8} (h : 0 ∉ t) : cstr t = t := by
  have hall : ∀ c ∈ t, decide (c ≠ 0) = true := by
    intro c hc
    exact decide_eq_true fun hzero => h (hzero ▸ hc)
  have happ : cstr (t ++ []) = t ++ cstr [] := List.takeWhile_append_of_pos hall
  have hnil : cstr [] = [] := rfl
  rwa [hnil, List.append_nil] at happ

/-- A C string ends at the first zero. -/
theorem cstr_append_zero (t r : List UInt8) : cstr (t ++ 0 :: r) = cstr t := by
  induction t with
  | nil => rfl
  | cons c t ih =>
    by_cases hc : c = 0
    · rw [hc]
      rfl
    · have hpos : decide (c ≠ 0) = true := decide_eq_true hc
      have hcons : ∀ s, cstr (c :: s) = c :: cstr s := by
        intro s
        exact List.takeWhile_cons_of_pos hpos
      rw [List.cons_append, hcons, hcons, ih]

/-! ### Little-endian numbers -/

/-- The number of a little-endian sequence of bytes. -/
def ofLe : List UInt8 → ℕ
  | [] => 0
  | b :: bs => b.toNat + 256 * ofLe bs

/-- The `k` bytes of a number, the lowest first. -/
def toLe : ℕ → ℕ → List UInt8
  | 0, _ => []
  | k + 1, n => UInt8.ofNat n :: toLe k (n / 256)

@[simp] theorem length_toLe (k n : ℕ) : (toLe k n).length = k := by
  induction k generalizing n with
  | zero => rfl
  | succ k ih => rw [toLe, List.length_cons, ih]

theorem ofLe_lt (l : List UInt8) : ofLe l < 256 ^ l.length := by
  induction l with
  | nil => decide
  | cons b bs ih =>
    have hb : b.toNat < 256 := b.toNat_lt
    rw [ofLe, List.length_cons, Nat.pow_succ]
    omega

/-- Numbers that are too large lose their upper bytes. -/
theorem ofLe_toLe_mod (k n : ℕ) : ofLe (toLe k n) = n % 256 ^ k := by
  induction k generalizing n with
  | zero => rw [toLe, ofLe, Nat.pow_zero, Nat.mod_one]
  | succ k ih =>
    have hb : (UInt8.ofNat n).toNat = n % 256 := by simp
    rw [toLe, ofLe, hb, ih, Nat.pow_succ', Nat.mod_mul]

theorem ofLe_toLe {k n : ℕ} (h : n < 256 ^ k) : ofLe (toLe k n) = n := by
  rw [ofLe_toLe_mod, Nat.mod_eq_of_lt h]

theorem toLe_ofLe (l : List UInt8) : toLe l.length (ofLe l) = l := by
  induction l with
  | nil => rfl
  | cons b bs ih =>
    have hb : b.toNat < 256 := b.toNat_lt
    have hlow : UInt8.ofNat (b.toNat + 256 * ofLe bs) = b := by
      refine UInt8.toNat_inj.mp ?_
      rw [UInt8.toNat_ofNat']
      omega
    have hrest : (b.toNat + 256 * ofLe bs) / 256 = ofLe bs := by omega
    rw [List.length_cons, toLe, ofLe, hlow, hrest, ih]

theorem toLe_add (j k n : ℕ) : toLe (j + k) n = toLe j n ++ toLe k (n / 256 ^ j) := by
  induction j generalizing n with
  | zero => rw [Nat.zero_add, Nat.pow_zero, Nat.div_one, toLe, List.nil_append]
  | succ j ih =>
    rw [Nat.add_right_comm, toLe, toLe, ih, List.cons_append, Nat.div_div_eq_div_mul,
      ← Nat.pow_succ']

/-- A field of a list of fields. -/
theorem take_drop_of_append {a b c : List α} (h : l = a ++ (b ++ c)) (ha : a.length = p)
    (hb : b.length = n) : (l.drop p).take n = b := by
  rw [h, List.drop_left' ha, List.take_left' hb]

end Bytes

end OpenPS2Loader
