import Mathlib.Data.List.GetD
import Mathlib.Tactic.SplitIfs
import OpenPS2Loader.Lib.Bytes

/-!
# Request paths

`httpNormalizeBasePath` brings the base path of a server into a form with a `/` at its start and
none at its end, and `httpBuildPath` makes the path of a request from it and the path of an image,
in which every byte that is not unreserved is written as `%XX`.

A string is the list of its bytes without the terminator. A path of an image is read up to its first
NUL. The buffers are there: `out` and `path` are not null.

## Main definitions

* `HttpPath.httpNormalizeBasePath`, `HttpPath.httpBuildPath`
* `HttpPath.Normalized` — a base path in its form
* `HttpPath.percentDecode` — what a server reads

## Main results

* `HttpPath.httpBuildPath_eq` — the path that is built, when it fits
* `HttpPath.httpBuildPath_decodes`
-/

namespace OpenPS2Loader

namespace HttpPath

/-! ### The base path -/

/-- `HTTP_BASE_PATH_MAX` -/
def httpBasePathMax : ℕ := 64

/-- `snprintf` of one string into a buffer of `size` bytes. -/
def snprintf (size : ℕ) (s : List UInt8) : List UInt8 := s.take (size - 1)

/-- The loop that takes the last slashes away, with `len`. -/
def stripLoop : ℕ → List UInt8 → List UInt8
  | 0, path => path
  | len + 1, path =>
    if 1 < len + 1 ∧ path[len]? = some 47 then stripLoop len (path.take len) else path

/-- `httpNormalizeBasePath` -/
def httpNormalizeBasePath (path : List UInt8) (size : ℕ) : List UInt8 :=
  if size = 0 then path
  else if path = [] then snprintf size [47]
  else
    let path :=
      if path.head? ≠ some 47 then snprintf size (snprintf httpBasePathMax (47 :: path)) else path
    stripLoop path.length path

/-! ### The request -/

/-- `httpIsUnreserved` -/
def httpIsUnreserved (c : UInt8) : Bool :=
  (65 ≤ c && c ≤ 90) || (97 ≤ c && c ≤ 122) || (48 ≤ c && c ≤ 57) ||
    c == 45 || c == 95 || c == 46 || c == 126

/-- `hex` -/
def hex : List UInt8 := [48, 49, 50, 51, 52, 53, 54, 55, 56, 57, 65, 66, 67, 68, 69, 70]

/-- The loop of `httpBuildPath`, with what is in `out`. -/
def buildLoop (outSize : ℕ) : List UInt8 → List UInt8 → Option (List UInt8)
  | [], out => some out
  | c :: p, out =>
    if c = 0 then some out
    else if c = 47 then
      if out.length + 1 ≥ outSize then none else buildLoop outSize p (out ++ [47])
    else if httpIsUnreserved c then
      if out.length + 1 ≥ outSize then none else buildLoop outSize p (out ++ [c])
    else if out.length + 3 ≥ outSize then none
    else
      buildLoop outSize p
        (out ++ [37, hex.getD (c.toNat / 16 % 16) 0, hex.getD (c.toNat % 16) 0])

/-- `httpBuildPath`: the string in `out`, or `none` for the result 0. -/
def httpBuildPath (base relative : List UInt8) (outSize : ℕ) : Option (List UInt8) :=
  if outSize = 0 then none
  else if base.length ≥ outSize then none
  else if 0 < base.length ∧ base.getLast? ≠ some 47 then
    if base.length + 1 ≥ outSize then none else buildLoop outSize relative (base ++ [47])
  else buildLoop outSize relative base

/-! ### What they are for -/

/-- A base path in its form. -/
structure Normalized (base : List UInt8) : Prop where
  head : base.head? = some 47
  last : base.getLast? = some 47 → base = [47]

/-- The base and one slash behind it, which is the base itself when it is `/`. -/
def withSlash (base : List UInt8) : List UInt8 := if base = [47] then [47] else base ++ [47]

/-- The value of a hexadecimal digit, in capitals or not. -/
def hexValue (c : UInt8) : Option ℕ :=
  if 48 ≤ c ∧ c ≤ 57 then some (c.toNat - 48)
  else if 65 ≤ c ∧ c ≤ 70 then some (c.toNat - 55)
  else if 97 ≤ c ∧ c ≤ 102 then some (c.toNat - 87)
  else none

/-- What a server reads in a text of unreserved characters, slashes and `%XX`. Other texts are
refused. -/
def percentDecode : List UInt8 → Option (List UInt8)
  | [] => some []
  | c :: s =>
    if c = 37 then
      match s with
      | h :: l :: s => (hexValue h).bind fun h => (hexValue l).bind fun l =>
          (percentDecode s).map fun t => UInt8.ofNat (16 * h + l) :: t
      | _ => none
    else if httpIsUnreserved c || c == 47 then (percentDecode s).map fun t => c :: t
    else none

/-- The bytes that stand for one byte of a path. -/
def encodeByte (c : UInt8) : List UInt8 :=
  if c = 47 then [47]
  else if httpIsUnreserved c then [c]
  else [37, hex.getD (c.toNat / 16 % 16) 0, hex.getD (c.toNat % 16) 0]

/-- The bytes that stand for a path. -/
def encode (s : List UInt8) : List UInt8 := s.flatMap encodeByte

/-! ### Normalising -/

section Normalize

variable {base path : List UInt8} {size : ℕ}

theorem stripLoop_of_normalized (h : Normalized base) : stripLoop base.length base = base := by
  cases hlen : base.length with
  | zero => rfl
  | succ len =>
    rw [stripLoop]
    refine if_neg ?_
    rintro ⟨hone, hlast⟩
    have hbase := h.last (by rw [List.getLast?_eq_getElem?, hlen]; exact hlast)
    rw [hbase] at hlen
    cases hlen
    exact absurd hone (by decide)

/-- The slashes at the end are taken away, and the one at the start stays. -/
theorem normalized_stripLoop (h : path.head? = some 47) :
    Normalized (stripLoop path.length path) := by
  generalize hlen : path.length = len
  induction len generalizing path with
  | zero =>
    rw [List.length_eq_zero_iff.mp hlen] at h
    cases h
  | succ len ih =>
    rw [stripLoop]
    split_ifs with hstrip
    · refine ih ?_ (by rw [List.length_take]; omega)
      rw [List.head?_take, if_neg (by omega), h]
    · refine ⟨h, fun hlast => ?_⟩
      rw [List.getLast?_eq_getElem?, hlen, Nat.add_sub_cancel] at hlast
      have hone : len = 0 := by
        by_contra hne
        exact hstrip ⟨by omega, hlast⟩
      obtain ⟨c, rfl⟩ := List.length_eq_one_iff.mp (hlen.trans (by rw [hone]))
      obtain rfl := Option.some.inj h
      rfl

/-- What is normalised is in its form, when a slash fits. -/
theorem normalized_httpNormalizeBasePath (path : List UInt8) (h : 2 ≤ size) :
    Normalized (httpNormalizeBasePath path size) := by
  obtain ⟨k, rfl⟩ := Nat.exists_eq_add_of_le' h
  have hone : snprintf (k + 2) [47] = [47] := List.take_of_length_le (by simp)
  rw [httpNormalizeBasePath, if_neg (by omega)]
  split_ifs with hnil hhead
  · rw [hone]
    exact ⟨rfl, fun _ => rfl⟩
  · exact normalized_stripLoop rfl
  · exact normalized_stripLoop (not_not.mp hhead)

theorem httpNormalizeBasePath_of_normalized (h : Normalized base) (size : ℕ) :
    httpNormalizeBasePath base size = base := by
  have hne : base ≠ [] := by
    rintro rfl
    cases h.head
  rw [httpNormalizeBasePath, if_neg hne, if_neg (not_not.mpr h.head)]
  split_ifs
  · rfl
  · exact stripLoop_of_normalized h

/-- Normalising once more changes nothing. -/
theorem httpNormalizeBasePath_idempotent (path : List UInt8) (size : ℕ) :
    httpNormalizeBasePath (httpNormalizeBasePath path size) size =
      httpNormalizeBasePath path size := by
  obtain rfl | rfl | hsize : size = 0 ∨ size = 1 ∨ 2 ≤ size := by omega
  · rfl
  · have hnil : httpNormalizeBasePath [] 1 = [] := rfl
    by_cases hempty : path = []
    · rw [hempty, hnil, hnil]
    by_cases hhead : path.head? = some 47
    · refine httpNormalizeBasePath_of_normalized ?_ 1
      rw [httpNormalizeBasePath, if_neg Nat.one_ne_zero, if_neg hempty,
        if_neg (not_not.mpr hhead)]
      exact normalized_stripLoop hhead
    · have hcut : httpNormalizeBasePath path 1 = [] := by
        rw [httpNormalizeBasePath, if_neg Nat.one_ne_zero, if_neg hempty, if_pos hhead]
        rfl
      rw [hcut, hnil]
  · exact httpNormalizeBasePath_of_normalized (normalized_httpNormalizeBasePath path hsize) size

end Normalize

/-! ### Encoding -/

section Encode

variable {s t out base relative : List UInt8} {c : UInt8} {outSize : ℕ}

theorem hexValue_hex (n : ℕ) (h : n < 16) : hexValue (hex.getD n 0) = some n := by
  have hall : ∀ k < 16, hexValue (hex.getD k 0) = some k := by decide
  exact hall n h

theorem percentDecode_cons_of_ne (h : c ≠ 37) (s : List UInt8) :
    percentDecode (c :: s) = if httpIsUnreserved c || c == 47 then
      (percentDecode s).map fun t => c :: t else none := by
  match s with
  | [] => simp [percentDecode, h]
  | [_] => simp [percentDecode, h]
  | _ :: _ :: _ => rw [percentDecode, if_neg h]

/-- What a byte is encoded as is decoded to it. -/
theorem percentDecode_encodeByte (c : UInt8) (s : List UInt8) :
    percentDecode (encodeByte c ++ s) = (percentDecode s).map fun t => c :: t := by
  rw [encodeByte]
  split_ifs with hslash hplain
  · subst hslash
    exact percentDecode_cons_of_ne (by decide) s
  · have hne : c ≠ 37 := by
      rintro rfl
      exact absurd hplain (by decide)
    rw [List.singleton_append, percentDecode_cons_of_ne hne, hplain]
    rfl
  · have hlt := c.toNat_lt
    rw [List.cons_append, List.cons_append, List.cons_append, List.nil_append, percentDecode,
      if_pos rfl, hexValue_hex _ (by omega),
      hexValue_hex _ (by omega), Option.bind_some, Option.bind_some,
      show 16 * (c.toNat / 16 % 16) + c.toNat % 16 = c.toNat by omega, UInt8.ofNat_toNat]

/-- **Decoding** gives the path back. -/
theorem percentDecode_encode (s : List UInt8) : percentDecode (encode s) = some s := by
  induction s with
  | nil => rfl
  | cons c s ih =>
    rw [encode, List.flatMap_cons, percentDecode_encodeByte, ← encode, ih]
    rfl

/-- No other bytes stand in an encoded path. -/
theorem mem_encode (h : c ∈ encode s) : httpIsUnreserved c = true ∨ c = 47 ∨ c = 37 := by
  obtain ⟨d, -, hd⟩ := List.mem_flatMap.mp h
  rw [encodeByte] at hd
  have hhex : ∀ k < 16, httpIsUnreserved (hex.getD k 0) = true := by decide
  have hlt := d.toNat_lt
  split_ifs at hd with hslash hplain
  · exact .inr (.inl (List.mem_singleton.mp hd))
  · obtain rfl := List.mem_singleton.mp hd
    exact .inl hplain
  · simp only [List.mem_cons, List.not_mem_nil, or_false] at hd
    obtain rfl | rfl | rfl := hd
    · exact .inr (.inr rfl)
    · exact .inl (hhex _ (by omega))
    · exact .inl (hhex _ (by omega))

/-- **The space that is asked for is the space that is used.** -/
theorem buildLoop_eq (hout : out.length < outSize) :
    buildLoop outSize relative out =
      if out.length + (encode (Bytes.cstr relative)).length < outSize then
        some (out ++ encode (Bytes.cstr relative))
      else none := by
  induction relative generalizing out with
  | nil => simp [buildLoop, Bytes.cstr, encode, hout]
  | cons c p ih =>
    by_cases hzero : c = 0
    · subst hzero
      simp [buildLoop, Bytes.cstr, encode, hout]
    · have hcstr : Bytes.cstr (c :: p) = c :: Bytes.cstr p :=
        List.takeWhile_cons_of_pos (decide_eq_true hzero)
      have hstep : buildLoop outSize (c :: p) out =
          if out.length + (encodeByte c).length ≥ outSize then none
          else buildLoop outSize p (out ++ encodeByte c) := by
        rw [buildLoop, if_neg hzero, encodeByte]
        split_ifs <;> first | rfl | (simp at *; omega)
      rw [hstep, hcstr, encode, List.flatMap_cons, ← encode, List.length_append]
      by_cases hfull : out.length + (encodeByte c).length ≥ outSize
      · rw [if_pos hfull, if_neg (by omega)]
      · rw [if_neg hfull, ih (by rw [List.length_append]; omega), List.length_append,
          List.append_assoc, Nat.add_assoc]

/-- The path that is built, when it fits with its terminator. -/
theorem httpBuildPath_eq (h : Normalized base) (relative : List UInt8) (outSize : ℕ) :
    httpBuildPath base relative outSize =
      if (withSlash base ++ encode (Bytes.cstr relative)).length + 1 ≤ outSize then
        some (withSlash base ++ encode (Bytes.cstr relative))
      else none := by
  have hpos : 0 < base.length := by
    obtain ⟨c, s, rfl⟩ := List.exists_cons_of_ne_nil (l := base) (by
      rintro rfl
      cases h.head)
    exact Nat.succ_pos _
  rw [httpBuildPath, List.length_append, withSlash]
  by_cases hshort : base.length ≥ outSize
  · have hlong : base.length ≤ (if base = [47] then [47] else base ++ [47]).length := by
      split
      next heq => rw [heq]
      next => rw [List.length_append]; exact Nat.le_add_right _ _
    rw [if_pos hshort, ite_self, if_neg (by omega)]
  rw [if_neg (by omega), if_neg hshort]
  by_cases hroot : base = [47]
  · subst hroot
    rw [if_pos rfl, if_neg fun hlast => hlast.2 rfl, buildLoop_eq (not_le.mp hshort)]
    rfl
  · have hlast : base.getLast? ≠ some 47 := fun hlast => hroot (h.last hlast)
    rw [if_neg hroot, if_pos ⟨hpos, hlast⟩, List.length_append, List.length_singleton]
    by_cases hfull : base.length + 1 ≥ outSize
    · rw [if_pos hfull, if_neg (by omega)]
    · rw [if_neg hfull, buildLoop_eq (by rw [List.length_append]; exact not_le.mp hfull),
        List.length_append]
      rfl

end Encode

/-! ### Requests -/

/-- **The path of a request** is the base, one slash, and a text of unreserved characters, slashes
and `%XX` that is decoded to the path of the image, so that two images have two requests and none of
the characters that end or cut a request line stands in it. It is built if and only if it fits with
its terminator. Normalising a base path twice is normalising it once. -/
theorem httpBuildPath_decodes (base relative : List UInt8) (outSize : ℕ)
    (hbase : httpNormalizeBasePath base httpBasePathMax = base) :
    (∀ out, httpBuildPath base relative outSize = some out →
      (∃ suffix, out = withSlash base ++ suffix ∧
        percentDecode suffix = some (Bytes.cstr relative) ∧
        (∀ c ∈ suffix, httpIsUnreserved c = true ∨ c = 47 ∨ c = 37) ∧
        ∀ c ∈ suffix, c ∉ [13, 10, 32, 63, 35]) ∧
      ∀ relative', httpBuildPath base relative' outSize = some out →
        Bytes.cstr relative' = Bytes.cstr relative) ∧
    (httpBuildPath base relative outSize = none ↔
      ¬ (withSlash base ++ encode (Bytes.cstr relative)).length + 1 ≤ outSize) ∧
    ∀ path size, httpNormalizeBasePath (httpNormalizeBasePath path size) size =
      httpNormalizeBasePath path size := by
  have hnorm : Normalized base := by
    rw [← hbase]
    exact normalized_httpNormalizeBasePath base (by decide)
  have hbuilt : ∀ relative out, httpBuildPath base relative outSize = some out →
      out = withSlash base ++ encode (Bytes.cstr relative) := by
    intro relative out hout
    rw [httpBuildPath_eq hnorm] at hout
    split_ifs at hout
    exact (Option.some.inj hout).symm
  refine ⟨fun out hout => ⟨⟨encode (Bytes.cstr relative), hbuilt relative out hout,
    percentDecode_encode _, fun c => mem_encode, ?_⟩, ?_⟩, ?_,
    httpNormalizeBasePath_idempotent⟩
  · intro c hc
    have hcut : ∀ d ∈ [13, 10, 32, 63, 35],
        ¬ (httpIsUnreserved d = true ∨ d = 47 ∨ d = 37) := by decide +kernel
    exact fun hmem => hcut c hmem (mem_encode hc)
  · intro relative' hout'
    have heq := (hbuilt relative' out hout').symm.trans (hbuilt relative out hout)
    have hdecode := congrArg percentDecode (List.append_cancel_left heq)
    rw [percentDecode_encode, percentDecode_encode] at hdecode
    exact Option.some.inj hdecode
  · rw [httpBuildPath_eq hnorm]
    split_ifs with hfits
    · exact ⟨False.elim, fun hnot => absurd hfits hnot⟩
    · exact ⟨fun _ => hfits, fun _ => rfl⟩

/-- The request for `a b.iso` on a server with the base path `/ps2`. -/
theorem httpBuildPath_decodes_space :
    ∃ suffix, httpBuildPath [47, 112, 115, 50] [97, 32, 98, 46, 105, 115, 111] 15 =
        some ([47, 112, 115, 50, 47] ++ suffix) ∧
      percentDecode suffix = some [97, 32, 98, 46, 105, 115, 111] := by
  obtain ⟨suffix, hout, hdecode, -⟩ :=
    ((httpBuildPath_decodes [47, 112, 115, 50] [97, 32, 98, 46, 105, 115, 111] 15 (by decide)).1
      [47, 112, 115, 50, 47, 97, 37, 50, 48, 98, 46, 105, 115, 111] (by decide)).1
  refine ⟨suffix, ?_, hdecode⟩
  rw [show [47, 112, 115, 50, 47] ++ suffix = _ from hout.symm]
  decide

end HttpPath

end OpenPS2Loader
