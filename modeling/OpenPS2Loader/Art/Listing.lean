import Mathlib.Data.Int.Notation
import Mathlib.Data.List.GetD
import Mathlib.Data.Nat.Notation
import Mathlib.Tactic.SplitIfs

/-!
# The names of an art folder

The parts of `artindex.c` that compute: how a path is cut into its folder and its base name, the
hash of a name, which names of a folder are listed, and the search for a hash among the sorted
ones.

The hash is taken of the name in capitals, so two names that differ only in the case of ASCII
letters have the same hash, and a name whose hash is not listed is not the name of a listed file.

## Main definitions

* `ArtIndex.artIndexHash`, `ArtIndex.artIndexSplit`, `ArtIndex.altDir`, `ArtIndex.ask`
* `ArtIndex.listedHashes` — the hashes a sweep collects
* `ArtIndex.artIndexSearch` — the bisection

## Main results

* `ArtIndex.not_sameName_of_search` — what is not found has no listed name that is the same
-/

namespace OpenPS2Loader

namespace ArtIndex

/-- The bytes of a string, without its terminator. -/
abbrev Name : Type := List UInt8

/-! ### Paths -/

/-- The length of the part in front of the last `c`. -/
def strrchr (c : UInt8) (s : Name) : Option ℕ :=
  (s.reverse.idxOf? c).map fun i => s.length - 1 - i

/-- The folder and the base name for a cut that leaves `dirLen` bytes for the folder. -/
def splitAt (dirMax dirLen baseAt : ℕ) (fullPath : Name) : Option (Name × Name) :=
  if dirLen = 0 ∨ dirMax ≤ dirLen then none
  else if fullPath.drop baseAt = [] then none
  else some (fullPath.take dirLen, fullPath.drop baseAt)

/-- `artIndexSplit`: at the last `/`, or else behind the first `:`. -/
def artIndexSplit (dirMax : ℕ) (fullPath : Name) : Option (Name × Name) :=
  match strrchr 47 fullPath with
  | some slash => splitAt dirMax slash (slash + 1) fullPath
  | none =>
    match fullPath.idxOf? 58 with
    | none => none
    | some colon => splitAt dirMax (colon + 1) (colon + 1) fullPath

/-- `ART_INDEX_DIR_MAX`. -/
def artIndexDirMax : ℕ := 192

/-- The form of a folder with a `/` behind the device, which is tried when the first one cannot be
opened: `mass0:/ART` for `mass0:ART`. -/
def altDir (dir : Name) : Option Name :=
  match dir.idxOf? 58 with
  | none => none
  | some colon =>
    if (dir.drop (colon + 1)).head? = none ∨ (dir.drop (colon + 1)).head? = some 47 then none
    else if dir.length + 1 < artIndexDirMax + 1 then
      some (dir.take (colon + 1) ++ 47 :: dir.drop (colon + 1))
    else none

/-- What `artIndexMayExist` makes of its argument in the thread `thread`, before it looks at the
slots: the folder and the base name, or `none` where it answers 1 at once. -/
def ask (ownerThread thread : ℤ) (fullPath : Option Name) : Option (Name × Name) :=
  match fullPath with
  | none => none
  | some path =>
    if path = [] then none
    else if 92 ∈ path ∨ path.take 3 = [115, 109, 98] then none
    else if ownerThread < 0 ∨ thread ≠ ownerThread then none
    else artIndexSplit artIndexDirMax path

/-! ### Hashes -/

/-- A lower case ASCII letter as a capital. -/
def upper (c : UInt8) : UInt8 := if 97 ≤ c ∧ c ≤ 122 then c - 97 + 65 else c

/-- One byte of FNV-1a. -/
def hashByte (h : UInt32) (c : UInt8) : UInt32 := (h ^^^ (upper c).toUInt32) * 16777619

/-- `artIndexHash`. -/
def artIndexHash (s : Name) : UInt32 := s.foldl hashByte 2166136261

/-- The names are equal up to the case of ASCII letters. -/
def SameName (s t : Name) : Prop := s.map upper = t.map upper

instance (s t : Name) : Decidable (SameName s t) := inferInstanceAs (Decidable (_ = _))

/-- `artIndexCmp`. -/
def artIndexCmp (x y : UInt32) : ℤ := if x < y then -1 else if y < x then 1 else 0

/-- `qsort` by `artIndexCmp`. -/
def sortHashes (hashes : List UInt32) : List UInt32 :=
  hashes.mergeSort fun x y => decide (artIndexCmp x y ≤ 0)

/-! ### The sweep -/

/-- `ART_INDEX_MAX_ENTRIES`. -/
def artIndexMaxEntries : ℕ := 4096

/-- An entry that the sweep passes over. -/
def skipped (name : Name) : Bool := name.head? == none || name.head? == some 46

/-- The hashes of the entries that are not passed over, in their order. -/
def listedHashes (entries : List Name) : List UInt32 :=
  (entries.filter fun e => !skipped e).map artIndexHash

/-- The bisection of `artIndexMayExist` between the positions `lo` and `hi`. -/
def artIndexSearch (hashes : List UInt32) (want : UInt32) (lo hi : ℤ) : Bool :=
  if lo ≤ hi then
    let mid := lo + (hi - lo) / 2
    let got := hashes.getD mid.toNat 0
    if got = want then true
    else if got < want then artIndexSearch hashes want (mid + 1) hi
    else artIndexSearch hashes want lo (mid - 1)
  else false
termination_by (hi - lo + 1).toNat

/-! ### What is not found is not there -/

variable {s t : Name} {hashes : List UInt32} {want : UInt32} {lo hi : ℤ} {k : ℕ}

/-- The hash does not see the case. -/
theorem artIndexHash_congr (h : SameName s t) : artIndexHash s = artIndexHash t := by
  have hfold : ∀ (x : UInt32) (l : Name),
      l.foldl hashByte x = (l.map upper).foldl (fun h c => (h ^^^ c.toUInt32) * 16777619) x := by
    intro x l
    rw [List.foldl_map]
    rfl
  rw [artIndexHash, artIndexHash, hfold, hfold, h]

theorem upper_eq_dot {c : UInt8} (h : upper c = 46) : c = 46 := by
  rw [upper] at h
  split_ifs at h with hc
  · have hle : 65 ≤ c - 97 + 65 := by
      obtain ⟨h₁, h₂⟩ := hc
      rw [UInt8.le_iff_toNat_le] at h₁ h₂ ⊢
      rw [UInt8.toNat_add, UInt8.toNat_sub_of_le _ _ (UInt8.le_iff_toNat_le.mpr h₁)]
      simp at *
      omega
    rw [h] at hle
    exact absurd hle (by decide)
  · exact h

/-- A name that is the same as one without a dot in front is not passed over. -/
theorem not_skipped_of_sameName (h : SameName s t) (ht : t ≠ []) (hdot : t.head? ≠ some 46) :
    skipped s = false := by
  rcases t with _ | ⟨d, t⟩
  · exact absurd rfl ht
  rcases s with _ | ⟨c, s⟩
  · simp [SameName] at h
  have hupper : upper c = upper d := by
    rw [SameName, List.map_cons, List.map_cons] at h
    exact (List.cons_eq_cons.mp h).1
  have hne : c ≠ 46 := by
    rintro rfl
    exact hdot (congrArg some (upper_eq_dot (hupper.symm.trans (by decide))))
  simp [skipped, hne]

theorem artIndexCmp_le_zero {x y : UInt32} : artIndexCmp x y ≤ 0 ↔ x ≤ y := by
  rw [artIndexCmp, ← UInt32.not_lt (a := y)]
  split_ifs with h₁ h₂
  · simpa using UInt32.lt_asymm h₁
  · simpa using h₂
  · simpa using h₂

theorem pairwise_sortHashes (hashes : List UInt32) : (sortHashes hashes).Pairwise (· ≤ ·) := by
  refine (List.pairwise_mergeSort (fun a b c hab hbc => ?_) (fun a b => ?_) hashes).imp
    fun hab => ?_
  · rw [decide_eq_true_eq, artIndexCmp_le_zero] at hab hbc ⊢
    exact UInt32.le_trans hab hbc
  · rw [Bool.or_eq_true, decide_eq_true_eq, decide_eq_true_eq, artIndexCmp_le_zero,
      artIndexCmp_le_zero]
    exact UInt32.le_total a b
  · rwa [decide_eq_true_eq, artIndexCmp_le_zero] at hab

/-- **The bisection** finds what is there. -/
theorem artIndexSearch_of_getElem (hsorted : hashes.Pairwise (· ≤ ·)) (hk : k < hashes.length)
    (hwant : hashes[k] = want) (hlo : 0 ≤ lo) (hlok : lo ≤ k) (hkhi : k ≤ hi)
    (hhi : hi < hashes.length) : artIndexSearch hashes want lo hi = true := by
  have hle : ∀ (i j : ℕ) (hi : i < hashes.length) (hj : j < hashes.length), i ≤ j →
      hashes[i] ≤ hashes[j] := by
    intro i j hi hj hij
    rcases Nat.lt_or_eq_of_le hij with hlt | rfl
    · exact List.pairwise_iff_getElem.mp hsorted i j hi hj hlt
    · exact UInt32.le_refl _
  fun_induction artIndexSearch hashes want lo hi with
  | case1 => rfl
  | case2 lo hi hlohi mid got hne hlt ih =>
    have hmid : mid.toNat < hashes.length := by omega
    have hgot : got = hashes[mid.toNat] := List.getD_eq_getElem _ _ hmid
    -- the wanted one is larger than the one in the middle, so it is behind it
    have hbehind : mid.toNat < k := Nat.lt_of_not_le fun hnot => by
      have hge := hle k mid.toNat hk hmid hnot
      rw [hwant, ← hgot] at hge
      exact absurd hlt (UInt32.not_lt.mpr hge)
    exact ih (by omega) (by omega) hkhi hhi
  | case3 lo hi hlohi mid got hne hnlt ih =>
    have hmid : mid.toNat < hashes.length := by omega
    have hgot : got = hashes[mid.toNat] := List.getD_eq_getElem _ _ hmid
    have hfront : k < mid.toNat := Nat.lt_of_not_le fun hnot => by
      have hle' := hle mid.toNat k hmid hk hnot
      rw [hwant, ← hgot] at hle'
      exact hne (UInt32.le_antisymm hle' (UInt32.not_lt.mp hnlt))
    exact ih hlo hlok (by omega) (by omega)
  | case4 lo hi hnot => exact absurd (Int.le_trans hlok hkhi) hnot

/-- What is not found among the hashes of a folder is not the name of an entry, but for the case
and but for a dot in front. -/
theorem not_sameName_of_search {entries : List Name}
    (h : artIndexSearch (sortHashes (listedHashes entries)) (artIndexHash t) 0
      ((listedHashes entries).length - 1) = false) (ht : t ≠ []) (hdot : t.head? ≠ some 46) :
    ∀ e ∈ entries, ¬ SameName e t := by
  intro e he hsame
  have hmem : artIndexHash t ∈ sortHashes (listedHashes entries) := by
    rw [sortHashes, List.mem_mergeSort, ← artIndexHash_congr hsame]
    exact List.mem_map_of_mem
      (List.mem_filter.mpr ⟨he, by rw [not_skipped_of_sameName hsame ht hdot]; rfl⟩)
  obtain ⟨k, hk, hget⟩ := List.mem_iff_getElem.mp hmem
  have hlen : (sortHashes (listedHashes entries)).length = (listedHashes entries).length :=
    List.length_mergeSort _
  rw [artIndexSearch_of_getElem (pairwise_sortHashes _) hk hget (Int.le_refl 0) (by omega)
    (by omega) (by omega)] at h
  exact Bool.noConfusion h

end ArtIndex

end OpenPS2Loader
