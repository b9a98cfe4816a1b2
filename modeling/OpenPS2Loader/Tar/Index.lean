import OpenPS2Loader.Tar.Parse

/-!
# The index of an archive

What the loader of `OpenPS2Loader.Tar.Parse` makes of a well-formed archive: members of any type,
one after the other, with blocks of zeros between them. A member has as many bytes of data as its
header says.

Links, devices, directories and FIFOs have no data, whatever the size in their header is. The loader
goes by the size: behind a directory with a size it takes the members that follow for data.

## Main definitions

* `Tar.Member`, `Tar.Item` — what a well-formed archive is made of
* `Tar.BareMember` — a member of a type without data
* `Tar.listing` — the members that can be served, with the offsets of their data
* `Tar.Describes` — an entry is the one of a member

## Main results

* `Tar.parseLoop_archive` — the scan finds exactly the members that can be served
* `Tar.tarRead_eq` — reading an entry gives the data of its member
* `Tar.tarParseFile_describes` — the index lists exactly these members, and each can be read
-/

namespace OpenPS2Loader

namespace Tar

open Bytes

/-! ### Archives -/

/-- The octal digits of a number. -/
def octal : ℕ → ℕ → List UInt8
  | 0, _ => []
  | width + 1, n => octal width (n / 8) ++ [UInt8.ofNat (48 + n % 8)]

/-- A field that says a number: octal digits, and NULs and blanks behind them. -/
def IsNumber (f : List UInt8) (n : ℕ) : Prop :=
  ∃ width term, f = octal width n ++ term ∧ n < 8 ^ width ∧ ∀ c ∈ term, c = 0 ∨ c = 32

/-- A member: its header block, its data, and what fills the last block. The size of the data is in
the header. -/
structure Member where
  header : List UInt8
  data : List UInt8
  pad : List UInt8
  header_length : header.length = 512
  magic : field header 257 5 = [117, 115, 116, 97, 114]
  size : IsNumber (field header 124 12) data.length
  size_lt : data.length < 2 ^ 33
  pad_length : data.length + pad.length = (data.length + 511) / 512 * 512

/-- A member of the types `'1'` to `'6'`, which have no data: a header block, with any size in
it. -/
structure BareMember where
  header : List UInt8
  header_length : header.length = 512
  magic : field header 257 5 = [117, 115, 116, 97, 114]
  type : 49 ≤ typeflag header ∧ typeflag header ≤ 54
  size : ∃ n, IsNumber (field header 124 12) n

/-- The path of a member: the prefix and the name. -/
def Member.path (m : Member) : List UInt8 :=
  joinPath (trimField (field m.header 345 155)) (trimField (field m.header 0 100))

/-- A regular file that is not too large to be served. -/
def Member.served (m : Member) : Bool :=
  (typeflag m.header == 0 || typeflag m.header == 48) && m.data.length ≤ maxFileSize

inductive Item
  | member (m : Member)
  | zeros

def Item.bytes : Item → List UInt8
  | .member m => m.header ++ (m.data ++ m.pad)
  | .zeros => List.replicate 512 0

def archive (items : List Item) : List UInt8 := items.flatMap Item.bytes

/-- The members that can be served, with the offsets of their data, in archive order. -/
def listing : ℕ → List Item → List (ℕ × Member)
  | _, [] => []
  | pos, .zeros :: items => listing (pos + 512) items
  | pos, .member m :: items =>
    if m.served then (pos + 512, m) :: listing (pos + (Item.member m).bytes.length) items
    else listing (pos + (Item.member m).bytes.length) items

/-- There is memory for an index of `n` entries. -/
structure Enough (k : Kind) (alloc : ℕ → Bool) (n : ℕ) : Prop where
  lt : k.entrySize * (n + 64) < 2 ^ 32
  alloc : ∀ m ≤ k.entrySize * (n + 64), alloc m = true

/-! ### Reading a header -/

theorem length_octal (width n : ℕ) : (octal width n).length = width := by
  induction width generalizing n with
  | zero => rfl
  | succ width ih => rw [octal, List.length_append, ih, List.length_singleton]

theorem isOctal_of_mem_octal {width n : ℕ} {c : UInt8} (h : c ∈ octal width n) :
    isOctal c = true := by
  induction width generalizing n with
  | zero => cases h
  | succ width ih =>
    rw [octal] at h
    obtain h | h := List.mem_append.mp h
    · exact ih h
    · obtain rfl := List.mem_singleton.mp h
      have hlt : n % 8 < 8 := Nat.mod_lt n (by decide)
      rw [isOctal, Bool.and_eq_true, decide_eq_true_eq, decide_eq_true_eq, UInt8.le_iff_toNat_le,
        UInt8.le_iff_toNat_le, UInt8.toNat_ofNat']
      change 48 ≤ (48 + n % 8) % 2 ^ 8 ∧ (48 + n % 8) % 2 ^ 8 ≤ 55
      omega

theorem foldl_octal (width n : ℕ) :
    (octal width n).foldl (fun v c => 8 * v + (c.toNat - 48)) 0 = n % 8 ^ width := by
  induction width generalizing n with
  | zero => rw [Nat.pow_zero, Nat.mod_one]; rfl
  | succ width ih =>
    have hdigit : (UInt8.ofNat (48 + n % 8)).toNat - 48 = n % 8 := by
      rw [UInt8.toNat_ofNat']
      omega
    rw [octal, List.foldl_append, ih, List.foldl_cons, List.foldl_nil, hdigit, Nat.pow_succ',
      Nat.mod_mul]
    omega

theorem parseOctal_eq {f : List UInt8} {n : ℕ} (h : IsNumber f n) : parseOctal f = n := by
  obtain ⟨width, term, rfl, hlt, hterm⟩ := h
  have hnone : term.takeWhile isOctal = [] := by
    cases term with
    | nil => rfl
    | cons c term =>
      refine List.takeWhile_cons_of_neg ?_
      obtain rfl | rfl := hterm c List.mem_cons_self <;> decide
  rw [parseOctal, List.takeWhile_append_of_pos fun d hd => isOctal_of_mem_octal hd, hnone,
    List.append_nil, foldl_octal, Nat.mod_eq_of_lt hlt]

/-- The size of a member is read from its header. -/
theorem Member.rawSize_eq (m : Member) : rawSize m.header = m.data.length :=
  parseOctal_eq m.size

theorem Member.paddedSize_eq (m : Member) :
    paddedSize m.header = m.data.length + m.pad.length := by
  rw [paddedSize, m.rawSize_eq, m.pad_length]

theorem Member.length_bytes (m : Member) :
    (Item.member m).bytes.length = 512 + paddedSize m.header := by
  rw [Item.bytes, List.length_append, List.length_append, m.header_length, m.paddedSize_eq]

/-- A header is not a block of zeros. -/
theorem Member.not_isZeroBlock (m : Member) : isZeroBlock m.header = false := by
  have hmem : (117 : UInt8) ∈ m.header := by
    have h : (117 : UInt8) ∈ field m.header 257 5 := by
      rw [m.magic]
      exact List.mem_cons_self
    exact List.mem_of_mem_drop (List.mem_of_mem_take h)
  rw [isZeroBlock, List.all_eq_false]
  exact ⟨117, hmem, by decide⟩

/-! ### The scan -/

theorem newCap_le (cap : ℕ) : newCap cap ≤ cap + 64 := by
  rw [newCap]
  split_ifs <;> omega

theorem exists_grow {k : Kind} {alloc : ℕ → Bool} {n count cap : ℕ} (h : Enough k alloc n)
    (hcap : count ≤ cap) (hn : count ≤ n) :
    ∃ cap', grow k alloc count cap = some cap' ∧ count + 1 ≤ cap' := by
  rw [grow]
  split_ifs with hlt hbig halloc
  · exact ⟨cap, rfl, hlt⟩
  · have hle := Nat.mul_le_mul_left k.entrySize (newCap_le cap)
    have hle' := Nat.mul_le_mul_left k.entrySize (show cap + 64 ≤ n + 64 by omega)
    have := h.lt
    omega
  · refine ⟨newCap cap, rfl, ?_⟩
    rw [newCap]
    split_ifs <;> omega
  · refine absurd (h.alloc _ ?_) halloc
    have hle := Nat.mul_le_mul_left k.entrySize (newCap_le cap)
    have hle' := Nat.mul_le_mul_left k.entrySize (show cap + 64 ≤ n + 64 by omega)
    omega

theorem isZeroBlock_replicate : isZeroBlock (List.replicate 512 0) = true :=
  List.all_eq_true.mpr fun c hc => by rw [List.eq_of_mem_replicate hc]; rfl

/-- The block at the end of what was scanned. -/
theorem field_append {pre h rest : List UInt8} (hh : h.length = 512) :
    field (pre ++ (h ++ rest)) pre.length 512 = h := take_drop_of_append rfl rfl hh

/-- The scan at a header: the member is indexed, or skipped. -/
theorem parseLoop_member {k : Kind} {alloc : ℕ → Bool} {file : List UInt8} {fuel pos cap : ℕ}
    {index : List Entry} {m : Member} (hblock : field file pos 512 = m.header) :
    parseLoop k alloc file (fuel + 1) pos index cap =
      if m.served then
        (grow k alloc index.length cap).bind
          (parseLoop k alloc file fuel (pos + 512 + paddedSize m.header)
            (index ++ [entryOf k m.header (pos + 512)]))
      else parseLoop k alloc file fuel (pos + 512 + paddedSize m.header) index cap := by
  have hnil : m.header ≠ [] := fun h => by
    have := m.header_length
    rw [h] at this
    cases this
  have hserved : m.served = true ↔
      ¬(typeflag m.header ≠ 0 ∧ typeflag m.header ≠ 48) ∧ ¬maxFileSize < m.data.length := by
    rw [Member.served, Bool.and_eq_true, Bool.or_eq_true, beq_iff_eq, beq_iff_eq, decide_eq_true_eq,
      Nat.not_lt, not_and_or, not_not, not_not]
  rw [parseLoop, hblock, if_neg hnil, if_neg (not_not.mpr m.header_length),
    if_neg (by rw [m.not_isZeroBlock]; exact Bool.false_ne_true), m.rawSize_eq]
  by_cases htype : typeflag m.header ≠ 0 ∧ typeflag m.header ≠ 48
  · rw [if_pos htype, if_neg fun h => (hserved.mp h).1 htype]
  · rw [if_neg htype]
    by_cases hsize : maxFileSize < m.data.length
    · rw [if_pos hsize, if_neg fun h => (hserved.mp h).2 hsize]
    · rw [if_neg hsize, if_pos (hserved.mpr ⟨htype, hsize⟩)]

/-- The scan finds the members that can be served, or fails for want of memory. -/
theorem parseLoop_archive {k : Kind} {alloc : ℕ → Bool} {file pre : List UInt8} {items : List Item}
    (hfile : file = pre ++ archive items) {fuel : ℕ} (hfuel : items.length < fuel)
    (index : List Entry) (cap : ℕ) :
    (∀ r, parseLoop k alloc file fuel pre.length index cap = some r →
      r = index ++ (listing pre.length items).map fun q => entryOf k q.2.header q.1) ∧
    ∀ n, Enough k alloc n → index.length ≤ cap →
      index.length + (listing pre.length items).length ≤ n →
      (parseLoop k alloc file fuel pre.length index cap).isSome := by
  induction items generalizing pre fuel index cap with
  | nil =>
    obtain ⟨fuel, rfl⟩ := Nat.exists_eq_succ_of_ne_zero (Nat.ne_of_gt hfuel)
    have hend : field file pre.length 512 = [] := by
      rw [hfile, archive, List.flatMap_nil, List.append_nil, field, List.drop_length, List.take_nil]
    rw [parseLoop, if_pos hend, listing, List.map_nil, List.append_nil]
    exact ⟨fun r hr => (Option.some.inj hr).symm, fun _ _ _ _ => rfl⟩
  | cons item items ih =>
    obtain ⟨fuel, rfl⟩ := Nat.exists_eq_succ_of_ne_zero (Nat.ne_of_gt (Nat.zero_lt_of_lt hfuel))
    have hfuel' : items.length < fuel := Nat.lt_of_succ_lt_succ hfuel
    rw [archive, List.flatMap_cons, ← archive] at hfile
    have hnext : file = (pre ++ item.bytes) ++ archive items := by rw [hfile, List.append_assoc]
    cases item with
    | zeros =>
      have hblock : field file pre.length 512 = List.replicate 512 0 := by
        rw [hfile]
        exact field_append List.length_replicate
      have hlen : (pre ++ Item.zeros.bytes).length = pre.length + 512 := by
        rw [List.length_append, Item.bytes, List.length_replicate]
      rw [listing, ← hlen, parseLoop, hblock, if_neg (by simp), List.length_replicate,
        if_neg (not_not.mpr rfl), if_pos isZeroBlock_replicate, ← hlen]
      exact ih hnext hfuel' index cap
    | member m =>
      have hblock : field file pre.length 512 = m.header := by
        rw [hfile, Item.bytes, List.append_assoc]
        exact field_append m.header_length
      have hlen : (pre ++ (Item.member m).bytes).length =
          pre.length + 512 + paddedSize m.header := by
        rw [List.length_append, m.length_bytes, Nat.add_assoc]
      rw [parseLoop_member hblock, ← hlen, listing, ← List.length_append]
      split_ifs with hserved
      · have hcount : (index ++ [entryOf k m.header (pre.length + 512)]).length =
            index.length + 1 := by
          rw [List.length_append, List.length_singleton]
        have hrest := ih hnext hfuel' (index ++ [entryOf k m.header (pre.length + 512)])
        rw [List.map_cons, List.length_cons]
        constructor
        · intro r hr
          obtain ⟨cap', -, hr⟩ := Option.bind_eq_some_iff.mp hr
          rw [(hrest cap').1 r hr, List.append_assoc, List.singleton_append]
        · intro n hmem hcap hn
          obtain ⟨cap', hgrow, hcap'⟩ := exists_grow hmem hcap (by omega)
          rw [hgrow, Option.bind_some]
          exact (hrest cap').2 n hmem (hcount.trans_le hcap') (by omega)
      · exact ih hnext hfuel' index cap

/-! ### Reading -/

/-- The data of a listed member is where the listing says. -/
theorem field_of_mem_listing {file pre : List UInt8} {items : List Item}
    (hfile : file = pre ++ archive items) {q : ℕ × Member} (hq : q ∈ listing pre.length items) :
    field file q.1 q.2.data.length = q.2.data ∧ q.1 + q.2.data.length ≤ file.length := by
  induction items generalizing pre with
  | nil => cases hq
  | cons item items ih =>
    rw [archive, List.flatMap_cons, ← archive] at hfile
    have hnext : file = (pre ++ item.bytes) ++ archive items := by rw [hfile, List.append_assoc]
    cases item with
    | zeros =>
      rw [listing] at hq
      refine ih hnext ?_
      rwa [List.length_append, Item.bytes, List.length_replicate]
    | member m =>
      rw [listing, ← List.length_append] at hq
      split_ifs at hq
      · obtain rfl | hq := List.mem_cons.mp hq
        · have hsplit : file = (pre ++ m.header) ++ (m.data ++ (m.pad ++ archive items)) := by
            rw [hfile, Item.bytes]
            simp only [List.append_assoc]
          have hlen : (pre ++ m.header).length = pre.length + 512 := by
            rw [List.length_append, m.header_length]
          refine ⟨take_drop_of_append hsplit hlen rfl, ?_⟩
          rw [hsplit, List.length_append, hlen, List.length_append]
          dsimp only
          omega
        · exact ih hnext hq
      · exact ih hnext hq

theorem readLoop_eq {file : List UInt8} {e : Entry} (amount : ℕ → ℕ)
    (hfit : e.offset + e.rawSize ≤ file.length) {fuel t : ℕ} (ht : t ≤ e.rawSize)
    (hfuel : e.rawSize - t < fuel) :
    readLoop file e amount fuel (field file e.offset t) = some (field file e.offset e.rawSize) := by
  induction fuel generalizing t with
  | zero => exact absurd hfuel (Nat.not_lt_zero _)
  | succ fuel ih =>
    have hlen : (field file e.offset t).length = t := length_field (by omega)
    rw [readLoop, hlen]
    split_ifs with hmore hend
    · omega
    · rw [← field_add]
      exact ih (by omega) (by omega)
    · rw [Nat.le_antisymm ht (Nat.le_of_not_lt hmore)]

/-- **An entry is read as it is in the archive**, however many bytes each `read` gives. -/
theorem tarRead_eq {file : List UInt8} {e : Entry} {data : List UInt8} {dstSize : ℕ}
    (hdata : field file e.offset e.rawSize = data) (hfit : e.offset + e.rawSize ≤ file.length)
    (hdst : e.rawSize ≤ dstSize) (amount : ℕ → ℕ) :
    tarRead file e dstSize amount = some data := by
  have h := readLoop_eq amount hfit (Nat.zero_le e.rawSize) (Nat.lt_succ_self _)
  rw [field, List.take_zero, hdata] at h
  rw [tarRead, if_neg (Nat.not_lt.mpr hdst)]
  exact h

/-! ### Names -/

theorem take_stripDot (p : List UInt8) (n : ℕ) (hn : 2 ≤ n) :
    ∃ n' , n - 2 ≤ n' ∧ stripDot (p.take n) = (stripDot p).take n' := by
  rw [stripDot, stripDot, List.take_take, Nat.min_eq_left hn]
  split_ifs
  · exact ⟨n - 2, Nat.le_refl _, List.drop_take⟩
  · exact ⟨n, Nat.sub_le n 2, rfl⟩

theorem take_stripDir (p : List UInt8) (n : ℕ) (hn : 4 ≤ n) :
    ∃ n' , n - 4 ≤ n' ∧ stripDir (p.take n) = (stripDir p).take n' := by
  rw [stripDir, stripDir, List.take_take, Nat.min_eq_left hn]
  split_ifs
  · exact ⟨n - 4, Nat.le_refl _, List.drop_take⟩
  · exact ⟨n, Nat.sub_le n 4, rfl⟩

/-- The name in the index is a leading part of the path. -/
theorem Member.storedName_eq (m : Member) (k : Kind) :
    storedName k m.header = (cleanName m.path).take (k.nameMax - 1) := by
  have hmax : k.nameMax ≤ 47 := by cases k <;> decide
  obtain ⟨n, hn, hdot⟩ := take_stripDot m.path 255 (by decide)
  obtain ⟨n', hn', hdir⟩ := take_stripDir (stripDot m.path) n (by omega)
  rw [storedName, fullPath, ← Member.path, cleanName, hdot, hdir, List.take_take, cleanName,
    Nat.min_eq_left (by omega)]

theorem takeWhile_append_cons_of_neg {p : UInt8 → Bool} {x : UInt8} (hx : p x = false)
    (a b : List UInt8) : (a ++ x :: b).takeWhile p = a.takeWhile p := by
  induction a with
  | nil =>
    rw [List.nil_append, List.takeWhile_cons_of_neg (by rw [hx]; exact Bool.false_ne_true)]
    rfl
  | cons c a ih =>
    rw [List.cons_append, List.takeWhile_cons, List.takeWhile_cons, ih]

/-- The base name is what is behind a `/`. -/
theorem baseName_append_slash (a b : List UInt8) : baseName (a ++ 47 :: b) = baseName b := by
  rw [baseName, baseName, List.rtakeWhile, List.rtakeWhile, List.reverse_append, List.reverse_cons,
    List.append_assoc, List.singleton_append, takeWhile_append_cons_of_neg rfl]

theorem eq_slash_of_toLower {c : UInt8} (h : toLower c = 47) : c = 47 := by
  rw [toLower] at h
  split_ifs at h with hc
  · rw [Bool.and_eq_true, decide_eq_true_eq, UInt8.le_iff_toNat_le] at hc
    have hsum := congrArg UInt8.toNat h
    rw [UInt8.toNat_add] at hsum
    have h65 : 65 ≤ c.toNat := hc.1
    have hlt := c.toNat_lt
    have h32 : (c.toNat + 32) % 2 ^ 8 = 47 := hsum
    omega
  · exact h

theorem baseName_stripDot (p : List UInt8) : baseName (stripDot p) = baseName p := by
  rw [stripDot]
  split_ifs with h
  · have hp : p = [46] ++ 47 :: p.drop 2 := by
      rw [← List.take_append_drop 2 p, h]
      simp
    rw [hp, baseName_append_slash]
    simp
  · rfl

theorem exists_slash_of_map_toLower {l a : List UInt8} (h : l.map toLower = a ++ [47]) :
    ∃ a', l = a' ++ [47] := by
  obtain ⟨l₁, l₂, rfl, -, hlast⟩ := List.map_eq_append_iff.mp h
  obtain ⟨c, l₃, rfl, hc, hnil⟩ := List.map_eq_cons_iff.mp hlast
  rw [List.map_eq_nil_iff.mp hnil, eq_slash_of_toLower hc]
  exact ⟨l₁, rfl⟩

theorem exists_slash_of_dir {l : List UInt8}
    (h : l.map toLower ∈ [[97, 114, 116, 47], [99, 102, 103, 47], [99, 104, 116, 47]]) :
    ∃ a, l = a ++ [47] := by
  simp only [List.mem_cons, List.not_mem_nil, or_false] at h
  obtain h | h | h := h
  · exact exists_slash_of_map_toLower (a := [97, 114, 116]) h
  · exact exists_slash_of_map_toLower (a := [99, 102, 103]) h
  · exact exists_slash_of_map_toLower (a := [99, 104, 116]) h

theorem baseName_stripDir (p : List UInt8) : baseName (stripDir p) = baseName p := by
  rw [stripDir]
  split_ifs with h
  · obtain ⟨a, ha⟩ := exists_slash_of_dir h
    have hp : p = a ++ 47 :: p.drop 4 := by
      rw [← List.singleton_append, ← List.append_assoc, ← ha, List.take_append_drop]
    rw [← baseName_append_slash a, ← hp]
  · rfl

/-- Cleaning a path leaves its base name. -/
theorem baseName_cleanName (p : List UInt8) : baseName (cleanName p) = baseName p := by
  rw [cleanName, baseName_stripDir, baseName_stripDot]

/-! ### The index -/

/-- The entry of a member whose data is at `q.1`: offset and size are right, its name is a leading
part of the path, and the base name is the one of the member when the path fits. -/
structure Describes (k : Kind) (file : List UInt8) (q : ℕ × Member) (e : Entry) : Prop where
  offset : e.offset = q.1
  rawSize : e.rawSize = q.2.data.length
  name : e.name <+: cleanName q.2.path
  base : (cleanName q.2.path).length < k.nameMax → baseName e.name = baseName q.2.path
  read : ∀ dstSize amount, q.2.data.length ≤ dstSize →
    tarRead file e dstSize amount = some q.2.data

theorem describes_entryOf (k : Kind) {items : List Item} {q : ℕ × Member}
    (hq : q ∈ listing 0 items) : Describes k (archive items) q (entryOf k q.2.header q.1) := by
  have hsize : rawSize q.2.header = q.2.data.length := q.2.rawSize_eq
  obtain ⟨hdata, hfit⟩ := field_of_mem_listing (List.nil_append (archive items)).symm hq
  refine ⟨rfl, hsize, ?_, ?_, ?_⟩
  · rw [entryOf, q.2.storedName_eq]
    exact List.take_prefix _ _
  · intro hlen
    rw [entryOf, q.2.storedName_eq, List.take_of_length_le (by omega), baseName_cleanName]
  · intro dstSize amount hdst
    refine tarRead_eq ?_ ?_ ?_ amount
    · rw [entryOf, hsize, hdata]
    · rw [entryOf, hsize]
      exact hfit
    · rw [entryOf, hsize]
      exact hdst

theorem length_le_archive (items : List Item) : items.length ≤ (archive items).length := by
  induction items with
  | nil => exact Nat.le_refl 0
  | cons item items ih =>
    have hpos : 1 ≤ item.bytes.length := by
      cases item with
      | zeros => rw [Item.bytes, List.length_replicate]; decide
      | member m => rw [m.length_bytes]; omega
    rw [archive, List.flatMap_cons, ← archive, List.length_append, List.length_cons]
    omega

/-- The index of an archive. -/
def indexOf (k : Kind) (items : List Item) : List Entry :=
  (listing 0 items).map fun q => entryOf k q.2.header q.1

theorem describes_indexOf (k : Kind) (items : List Item) :
    List.Forall₂ (Describes k (archive items)) (listing 0 items) (indexOf k items) := by
  rw [indexOf, List.forall₂_map_right_iff, List.forall₂_same]
  exact fun q hq => describes_entryOf k hq

/-- The sidecars that earlier calls for the archive can leave. -/
inductive Left (k : Kind) (file : List UInt8) : Option Sidecar → Prop
  | fresh : Left k file none
  | call {alloc : ℕ → Bool} {written : Bool} {s s' : Option Sidecar} {index : List Entry}
      (h : Left k file s) (hcall : tarParseFile k alloc written file s = some (index, s')) :
      Left k file s'

/-- What a call that scans the archive finds. -/
theorem parse_archive {k : Kind} {alloc : ℕ → Bool} {items : List Item} {r : List Entry}
    (h : parseLoop k alloc (archive items) ((archive items).length + 1) 0 [] 0 = some r) :
    r = indexOf k items := by
  have hfuel := Nat.lt_succ_of_le (length_le_archive items)
  exact (parseLoop_archive (List.nil_append (archive items)).symm hfuel [] 0).1 r h

theorem tarReadCache_tarWriteCache {k : Kind} {alloc : ℕ → Bool} {n : ℕ} {index r : List Entry}
    (h : tarReadCache k alloc n (tarWriteCache n index) = some r) : r = index := by
  rw [tarReadCache] at h
  split_ifs at h
  rw [← Option.some.inj h, tarWriteCache, List.take_of_length_le (Nat.le_refl _)]

/-- A sidecar is accepted with every archive of the size it says. -/
theorem tarReadCache_own (k : Kind) (n : ℕ) {index : List Entry}
    (h : ∀ e ∈ index, e.rawSize ≤ maxFileSize) :
    tarReadCache k (fun _ => true) n (tarWriteCache n index) = some index := by
  have hall : index.any (fun e => decide (maxFileSize < e.rawSize)) = false :=
    List.any_eq_false.mpr fun e he => by
      rw [decide_eq_true_eq]
      exact Nat.not_lt.mpr (h e he)
  simp [tarReadCache, tarWriteCache, hall]

/-- What a call gives when the sidecar is one that an earlier call wrote. -/
theorem tarParseFile_eq {k : Kind} {alloc : ℕ → Bool} {written : Bool} {items : List Item}
    {s s' : Option Sidecar} {index : List Entry}
    (hs : s = none ∨ s = some (tarWriteCache (archive items).length (indexOf k items)))
    (h : tarParseFile k alloc written (archive items) s = some (index, s')) :
    index = indexOf k items ∧
      (s' = none ∨ s' = some (tarWriteCache (archive items).length (indexOf k items))) := by
  rw [tarParseFile] at h
  split at h
  next index' hcache =>
    obtain ⟨rfl, rfl⟩ := Prod.mk.inj (Option.some.inj h)
    obtain rfl | rfl := hs
    · cases hcache
    · exact ⟨tarReadCache_tarWriteCache hcache, Or.inr rfl⟩
  next =>
    obtain ⟨index', hparse, hpair⟩ := Option.map_eq_some_iff.mp h
    obtain ⟨rfl, rfl⟩ := Prod.mk.inj hpair
    obtain rfl := parse_archive hparse
    refine ⟨rfl, ?_⟩
    cases written with
    | false => exact Or.inl rfl
    | true => exact Or.inr rfl

theorem Left.eq {k : Kind} {items : List Item} {s : Option Sidecar} (h : Left k (archive items) s) :
    s = none ∨ s = some (tarWriteCache (archive items).length (indexOf k items)) := by
  induction h with
  | fresh => exact Or.inl rfl
  | call h hcall ih => exact (tarParseFile_eq ih hcall).2

/-! ### Looking up -/

theorem slash_not_mem_baseName (p : List UInt8) : 47 ∉ baseName p := by
  intro h
  have hne := List.mem_rtakeWhile_imp h
  cases hne

theorem baseName_of_slash_not_mem {p : List UInt8} (h : 47 ∉ p) : baseName p = p := by
  rw [baseName, List.rtakeWhile_eq_self_iff]
  intro c hc
  rw [bne_iff_ne]
  rintro rfl
  exact h hc

theorem cleanName_of_slash_not_mem {p : List UInt8} (h : 47 ∉ p) : cleanName p = p := by
  have hdot : stripDot p = p := by
    rw [stripDot, if_neg]
    intro htake
    refine h (List.mem_of_mem_take (i := 2) ?_)
    rw [htake]
    decide
  rw [cleanName, hdot, stripDir, if_neg]
  intro hdir
  obtain ⟨a, ha⟩ := exists_slash_of_dir hdir
  refine h (List.mem_of_mem_take (i := 4) ?_)
  rw [ha]
  exact List.mem_append_right a (List.mem_singleton.mpr rfl)

theorem slash_not_mem_of_eqNoCase {a b : List UInt8} (h : eqNoCase a b = true) (hb : 47 ∉ b) :
    47 ∉ a := by
  intro ha
  have hmem : toLower 47 ∈ b.map toLower := by
    rw [← beq_iff_eq.mp h]
    exact List.mem_map_of_mem ha
  obtain ⟨c, hc, hlower⟩ := List.mem_map.mp hmem
  rw [eq_slash_of_toLower (hlower.trans rfl)] at hc
  exact hb hc

/-- A file that is looked up by its base name is found, itself or another one with that base
name. -/
theorem exists_findEntry {index : List Entry} {e : Entry} (he : e ∈ index) {p : List UInt8}
    (hp : baseName e.name = baseName p) :
    ∃ e', findEntry index (baseName p) = some e' ∧
      eqNoCase (baseName e'.name) (baseName p) = true := by
  have hslash := slash_not_mem_baseName p
  have hclean := cleanName_of_slash_not_mem hslash
  have hmatch : nameMatches (baseName p) e = true := by
    rw [nameMatches, hclean, hp, eqNoCase, eqNoCase, beq_self_eq_true, Bool.or_true]
  obtain ⟨e', he'⟩ := Option.isSome_iff_exists.mp (List.find?_isSome.mpr ⟨e, he, hmatch⟩)
  refine ⟨e', he', ?_⟩
  have hfound := List.find?_some he'
  rw [nameMatches, hclean, Bool.or_self, Bool.or_eq_true] at hfound
  obtain hname | hbase := hfound
  · rw [baseName_of_slash_not_mem (slash_not_mem_of_eqNoCase hname hslash)]
    exact hname
  · exact hbase

/-- The loader gives an index when there is memory for it. -/
theorem exists_tarParseFile {k : Kind} {alloc : ℕ → Bool} (written : Bool) (items : List Item)
    (s : Option Sidecar) (hmem : Enough k alloc (listing 0 items).length) :
    ∃ index s', tarParseFile k alloc written (archive items) s = some (index, s') := by
  have hparse : (parseLoop k alloc (archive items) ((archive items).length + 1) 0 [] 0).isSome :=
    (parseLoop_archive (List.nil_append (archive items)).symm
      (Nat.lt_succ_of_le (length_le_archive items)) [] 0).2 _ hmem (Nat.le_refl 0)
      (Nat.le_of_eq (Nat.zero_add _))
  obtain ⟨r, hr⟩ := Option.isSome_iff_exists.mp hparse
  rw [tarParseFile, hr]
  split
  · exact ⟨_, _, rfl⟩
  · exact ⟨_, _, rfl⟩

/-- **The index of an archive.** Whatever members a well-formed archive has, the loader lists
exactly the regular files that are not too large, in their order, each with the offset of its data
and its size; a path that fits keeps its base name, and is found by it; and reading an entry gives
the data of the member. The sidecar, if there is one, is what earlier calls for this archive left,
and there is memory for the index. -/
theorem tarParseFile_describes (k : Kind) (alloc : ℕ → Bool) (written : Bool) (items : List Item)
    (sidecar : Option Sidecar) (hside : Left k (archive items) sidecar)
    (hmem : Enough k alloc (listing 0 items).length) :
    ∃ index sidecar', tarParseFile k alloc written (archive items) sidecar =
        some (index, sidecar') ∧
      List.Forall₂ (Describes k (archive items)) (listing 0 items) index ∧
      ∀ q ∈ listing 0 items, (cleanName q.2.path).length < k.nameMax →
        ∃ e, findEntry index (baseName q.2.path) = some e ∧
          eqNoCase (baseName e.name) (baseName q.2.path) = true := by
  obtain ⟨index, sidecar', hcall⟩ := exists_tarParseFile written items sidecar hmem
  obtain ⟨rfl, -⟩ := tarParseFile_eq hside.eq hcall
  refine ⟨_, sidecar', hcall, describes_indexOf k items, fun q hq hlen => ?_⟩
  refine exists_findEntry (List.mem_map_of_mem hq) ?_
  exact (describes_entryOf k hq).base hlen

/-! ### Archives with one file -/

/-- A header with this name, size and type. -/
def headerOf (name : List UInt8) (size : ℕ) (type : UInt8) : List UInt8 :=
  name ++ List.replicate (124 - name.length) 0 ++ ((octal 11 size ++ [0]) ++
    (List.replicate 20 0 ++ type :: (List.replicate 100 0 ++ ([117, 115, 116, 97, 114] ++
      List.replicate 250 0))))

section headerOf

variable {name : List UInt8} {size : ℕ} {type : UInt8}

theorem length_front (h : name.length ≤ 100) :
    (name ++ List.replicate (124 - name.length) (0 : UInt8)).length = 124 := by
  rw [List.length_append, List.length_replicate]
  omega

theorem length_headerOf (h : name.length ≤ 100) : (headerOf name size type).length = 512 := by
  rw [headerOf, List.length_append, length_front h]
  simp only [List.length_append, List.length_cons, List.length_replicate, length_octal,
    List.length_nil]

theorem magic_headerOf (h : name.length ≤ 100) :
    field (headerOf name size type) 257 5 = [117, 115, 116, 97, 114] := by
  refine take_drop_of_append (a := name ++ List.replicate (124 - name.length) 0 ++
    ((octal 11 size ++ [0]) ++ (List.replicate 20 0 ++ type :: List.replicate 100 0)))
    (c := List.replicate 250 0) ?_ ?_ rfl
  · simp only [headerOf, List.append_assoc, List.cons_append]
  · rw [List.length_append, length_front h]
    simp only [List.length_append, List.length_cons, List.length_replicate, length_octal,
      List.length_nil]

theorem size_headerOf (h : name.length ≤ 100) (hsize : size < 8 ^ 11) :
    IsNumber (field (headerOf name size type) 124 12) size := by
  refine ⟨11, [0], take_drop_of_append rfl (length_front h) ?_, hsize, fun c hc => ?_⟩
  · rw [List.length_append, length_octal]
    rfl
  · exact .inl (List.mem_singleton.mp hc)

end headerOf

/-- A regular file of three bytes. -/
def smallFile (name data : List UInt8) (hname : name.length ≤ 100) (hdata : data.length = 3) :
    Member where
  header := headerOf name 3 48
  data := data
  pad := List.replicate 509 0
  header_length := length_headerOf hname
  magic := magic_headerOf hname
  size := by
    rw [hdata]
    exact size_headerOf hname (by decide)
  size_lt := by
    rw [hdata]
    decide
  pad_length := by
    rw [hdata, List.length_replicate]

/-- `"a.png"` -/
def aFile : Member := smallFile [97, 46, 112, 110, 103] [1, 2, 3] (by decide) rfl

/-- `"b.png"` -/
def bFile : Member := smallFile [98, 46, 112, 110, 103] [4, 5, 6] (by decide) rfl

/-- A file with a name of 60 characters. -/
def longFile : Member := smallFile (List.replicate 60 97) [1, 2, 3] (by decide) rfl

/-- `"ART/"`, a directory with the size of a block. -/
def sizedDir : BareMember where
  header := headerOf [65, 82, 84, 47] 512 53
  header_length := length_headerOf (by decide)
  magic := magic_headerOf (by decide)
  type := by decide
  size := ⟨512, size_headerOf (by decide) (by decide)⟩

theorem tarParseFile_describes_aFile :
    ∃ index sidecar', tarParseFile .art (fun _ => true) true (archive [.member aFile]) none =
        some (index, sidecar') ∧
      List.Forall₂ (Describes .art (archive [.member aFile])) (listing 0 [.member aFile]) index ∧
      ∀ q ∈ listing 0 [.member aFile], (cleanName q.2.path).length < Kind.art.nameMax →
        ∃ e, findEntry index (baseName q.2.path) = some e ∧
          eqNoCase (baseName e.name) (baseName q.2.path) = true :=
  tarParseFile_describes .art (fun _ => true) true [.member aFile] none .fresh
    ⟨by decide, fun _ _ => rfl⟩

theorem length_archive_smallFile (name data : List UInt8) (hname : name.length ≤ 100)
    (hdata : data.length = 3) :
    (archive [.member (smallFile name data hname hdata)]).length = 1024 := by
  have hpad : (smallFile name data hname hdata).pad.length = 509 := List.length_replicate
  have hlen : (smallFile name data hname hdata).data.length = 3 := hdata
  rw [archive, List.flatMap_singleton, Member.length_bytes, Member.paddedSize_eq, hpad, hlen]

/-- A file whose name is too long for the index is listed under another base name, and so is a file
of an archive that has the size of the one the sidecar is of. Behind a directory with a size, a file
is not listed. -/
theorem not_tarParseFile_describes :
    (longFile.served = true ∧
      ∃ index s, tarParseFile .art (fun _ => true) true (archive [.member longFile]) none =
          some (index, s) ∧
        ∀ e ∈ index, eqNoCase (baseName e.name) (baseName longFile.path) = false) ∧
    aFile.served = true ∧
      (∃ index s, tarParseFile .art (fun _ => true) true (archive [.member aFile])
          (some (tarWriteCache (archive [.member bFile]).length (indexOf .art [.member bFile]))) =
          some (index, s) ∧
        ∀ e ∈ index, eqNoCase (baseName e.name) (baseName aFile.path) = false) ∧
      ∃ index s, tarParseFile .art (fun _ => true) true
          (sizedDir.header ++ archive [.member aFile]) none = some (index, s) ∧
        ∀ e ∈ index, eqNoCase (baseName e.name) (baseName aFile.path) = false := by
  refine ⟨⟨by decide, ?_⟩, by decide, ?_, ?_⟩
  · have hmem : Enough .art (fun _ => true) (listing 0 [.member longFile]).length :=
      ⟨by decide, fun _ _ => rfl⟩
    obtain ⟨index, s, hcall⟩ := exists_tarParseFile true [.member longFile] none hmem
    obtain ⟨rfl, -⟩ := tarParseFile_eq (Or.inl rfl) hcall
    exact ⟨_, s, hcall, by decide⟩
  · have hsize : (archive [.member aFile]).length = (archive [.member bFile]).length := by
      rw [aFile, bFile, length_archive_smallFile, length_archive_smallFile]
    have hcache := tarReadCache_own .art (archive [.member bFile]).length
      (show ∀ e ∈ indexOf .art [.member bFile], e.rawSize ≤ maxFileSize by decide)
    refine ⟨indexOf .art [.member bFile], some (tarWriteCache (archive [.member bFile]).length
      (indexOf .art [.member bFile])), ?_, by decide⟩
    rw [tarParseFile, Option.bind_some, hsize, hcache]
  · -- the three bytes of the file are taken for a header
    exact ⟨[⟨1536, 0, 0, [1, 2, 3]⟩], some (tarWriteCache 1536 [⟨1536, 0, 0, [1, 2, 3]⟩]),
      by decide +kernel, by decide⟩

end Tar

end OpenPS2Loader
