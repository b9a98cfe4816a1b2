import Mathlib.Data.List.Sublists
import Mathlib.Logic.Function.Basic
import OpenPS2Loader.Lib.CString
import OpenPS2Loader.Lib.Words

/-!
# Launch arguments of Neutrino

The picker takes the arguments apart, `neutrinoArgsParse`, and puts them together again,
`neutrinoArgsAssemble`. Every value has an array of 64 characters, and so have all the other tokens
together.

The characters of a string are those in front of its NUL. Its tokens are those of `strtok`.

## Main definitions

* `Neutrino.neutrinoArgsParse`, `Neutrino.neutrinoArgsAssemble`
* `Neutrino.ArgsSurvive` — what is asked of them
* `Neutrino.ArgsFit` — the arguments for which they do what is asked

## Main results

* `Neutrino.parseTokens_eq` — what is kept of the tokens
* `Neutrino.assemble_eq` — how it is put together
* `Neutrino.argsSurvive_iff`
-/

namespace OpenPS2Loader

namespace Neutrino

open Words

/-! ### The functions -/

/-- `" \t"`. -/
def isSep (c : Char) : Bool := c == ' ' || c == '\t'

/-- `"--b"`. -/
def breakToken : Text := "--b".toList

/-- The flags, in the order of `neutrino_args_t`. -/
inductive Flag
  | qb
  | dbc
  | logo
  deriving DecidableEq

/-- The token of a flag. -/
def Flag.text : Flag → Text
  | .qb => "-qb".toList
  | .dbc => "-dbc".toList
  | .logo => "-logo".toList

/-- All flags, as they are tested and put together. -/
def Flag.all : List Flag := [.qb, .dbc, .logo]

/-- The keys with a value, in the order of `neutrino_args_t`. -/
inductive Key
  | cwd
  | cfg
  | elf
  | ata0
  | ata0id
  | ata1
  deriving DecidableEq

/-- What stands in front of the value. -/
def Key.text : Key → Text
  | .cwd => "-cwd=".toList
  | .cfg => "-cfg=".toList
  | .elf => "-elf=".toList
  | .ata0 => "-ata0=".toList
  | .ata0id => "-ata0id=".toList
  | .ata1 => "-ata1=".toList

/-- All keys, as they are put together. -/
def Key.all : List Key := [.cwd, .cfg, .elf, .ata0, .ata0id, .ata1]

/-- `neutrino_args_t`. -/
@[ext]
structure NeutrinoArgs where
  flag : Flag → Bool
  value : Key → Text
  extra : Text

/-- The arguments after `memset`. -/
def noArgs : NeutrinoArgs := ⟨fun _ => false, fun _ => [], []⟩

/-- `naAppend`. -/
def naAppend (outSize : ℕ) (out tok : Text) : Text :=
  if outSize - 1 ≤ out.length then out
  else if out = [] then tok.take (outSize - 1)
  else out ++ ' ' :: tok.take (outSize - (out.length + 1) - 1)

/-- `naAppendKV`. -/
def naAppendKV (outSize : ℕ) (out key val : Text) : Text :=
  naAppend outSize out ((key ++ val).take (96 - 1))

/-- The flag that a token is. -/
def flagOf (tok : Text) : Option Flag := Flag.all.find? fun f => tok == f.text

/-- The key that a token starts with, and its value. The keys are tested in this order. -/
def keyOf (tok : Text) : Option (Key × Text) :=
  [Key.cwd, .cfg, .elf, .ata0id, .ata0, .ata1].findSome? fun k =>
    if k.text <+: tok then some (k, tok.drop k.text.length) else none

/-- A pass of the loop of `neutrinoArgsParse`, with `breakSeen`. -/
def parseToken (st : Bool × NeutrinoArgs) (tok : Text) : Bool × NeutrinoArgs :=
  let na := st.2
  if st.1 ∨ tok = breakToken then (true, { na with extra := naAppend 64 na.extra tok })
  else match flagOf tok with
    | some f => (false, { na with flag := Function.update na.flag f true })
    | none => match keyOf tok with
      | some (k, val) =>
        (false, { na with value := Function.update na.value k (val.take (64 - 1)) })
      | none => (false, { na with extra := naAppend 64 na.extra tok })

/-- The loop of `neutrinoArgsParse`. -/
def parseTokens (toks : List Text) : NeutrinoArgs := (toks.foldl parseToken (false, noArgs)).2

/-- `neutrinoArgsParse`. -/
def neutrinoArgsParse : Option Text → NeutrinoArgs
  | none => noArgs
  | some s => parseTokens (tokens isSep (s.take (256 - 1)))

/-- `neutrinoArgsAssemble`. -/
def neutrinoArgsAssemble (na : NeutrinoArgs) (outSize : ℕ) : Text :=
  let out := Flag.all.foldl (fun out f => if na.flag f then naAppend outSize out f.text else out) []
  let out := Key.all.foldl
    (fun out k => if na.value k ≠ [] then naAppendKV outSize out k.text (na.value k) else out) out
  if na.extra ≠ [] then naAppend outSize out na.extra else out

/-! ### What is asked of them -/

/-- The tokens in front of the break. -/
def front (toks : List Text) : List Text := toks.takeWhile (· ≠ breakToken)

/-- The break, and the tokens behind it. -/
def rest (toks : List Text) : List Text := toks.dropWhile (· ≠ breakToken)

/-- The value of a token for a key. -/
def valueOf (k : Key) (tok : Text) : Option Text :=
  (keyOf tok).bind fun kv => if kv.1 = k then some kv.2 else none

/-- The last value of a key in some tokens. -/
def lastValue (k : Key) (toks : List Text) : Option Text := (toks.filterMap (valueOf k)).getLast?

/-- The token is unknown. -/
def isFree (tok : Text) : Bool := (flagOf tok).isNone && (keyOf tok).isNone

/-- The tokens that are kept as they are. -/
def freeTokens (toks : List Text) : List Text := (front toks).filter isFree ++ rest toks

/-- The flags that are there. -/
def flagTokens (toks : List Text) : List Text :=
  (Flag.all.filter fun f => f.text ∈ front toks).map Flag.text

/-- The keys that are there, with their last value. -/
def keyTokens (toks : List Text) : List Text :=
  Key.all.filterMap fun k => (lastValue k (front toks)).map (k.text ++ ·)

/-- The tokens of the result. -/
def expected (toks : List Text) : List Text :=
  flagTokens toks ++ keyTokens toks ++ freeTokens toks

/-- The tokens are in the string `out`: the break and what is behind it at its end, and in front of
them every flag, the last value of every key, and the unknown tokens in their order. -/
def Contained (toks : List Text) (out : Text) : Prop :=
  ∃ head, tokens isSep out = head ++ rest toks ∧
    (∀ f : Flag, f.text ∈ front toks → f.text ∈ head) ∧
    (∀ k v, lastValue k (front toks) = some v → k.text ++ v ∈ head) ∧
    ((front toks).filter isFree).Sublist head

/-- Whenever the result fits the output buffer, it has all tokens in it, and is taken apart into the
same arguments. -/
def ArgsSurvive (s : Text) : Prop :=
  ∀ outSize, (joined ' ' (expected (tokens isSep s))).length < outSize →
    Contained (tokens isSep s) (neutrinoArgsAssemble (neutrinoArgsParse (some s)) outSize) ∧
      neutrinoArgsParse (some (neutrinoArgsAssemble (neutrinoArgsParse (some s)) outSize)) =
        neutrinoArgsParse (some s)

/-- The last value of every key is there and fits its array, and so do all the other tokens
together. -/
structure ArgsFit (s : Text) : Prop where
  value : ∀ k v, lastValue k (front (tokens isSep s)) = some v → v ≠ [] ∧ v.length ≤ 63
  extra : (joined ' ' (freeTokens (tokens isSep s))).length ≤ 63

/-! ### Tokens -/

theorem isSep_blank : isSep ' ' = true := rfl

theorem isWord_flag (f : Flag) : IsWord isSep f.text := by
  cases f <;> exact ⟨by decide, by decide⟩

theorem flagOf_text (f : Flag) : flagOf f.text = some f := by
  cases f <;> decide

theorem flagOf_eq_some {tok : Text} {f : Flag} : flagOf tok = some f ↔ tok = f.text := by
  constructor
  · intro h
    simpa using List.find?_some h
  · rintro rfl
    exact flagOf_text f

/-- No key is the beginning of another one. -/
theorem eq_of_text_isPrefixOf {k k' : Key} (h : k.text <+: k'.text) : k = k' := by
  revert h
  cases k <;> cases k' <;> decide

theorem text_prefix_append {k k' : Key} {v : Text} : k.text <+: k'.text ++ v ↔ k = k' := by
  constructor
  · intro h
    rcases List.prefix_or_prefix_of_prefix h (List.prefix_append k'.text v) with h | h
    · exact eq_of_text_isPrefixOf h
    · exact (eq_of_text_isPrefixOf h).symm
  · rintro rfl
    exact List.prefix_append _ v

theorem keyOf_text_append (k : Key) (v : Text) : keyOf (k.text ++ v) = some (k, v) := by
  simp only [keyOf, List.findSome?_cons, List.findSome?_nil, text_prefix_append]
  cases k <;> simp

theorem keyOf_eq_some {tok v : Text} {k : Key} : keyOf tok = some (k, v) ↔ tok = k.text ++ v := by
  constructor
  · intro h
    obtain ⟨k', -, hk'⟩ := List.exists_of_findSome?_eq_some h
    split_ifs at hk' with hprefix
    obtain ⟨rfl, rfl⟩ := Prod.mk.inj (Option.some.inj hk')
    exact (List.prefix_iff_eq_append.mp hprefix).symm
  · rintro rfl
    exact keyOf_text_append k v

theorem flagOf_key (k : Key) (v : Text) : flagOf (k.text ++ v) = none := by
  refine List.find?_eq_none.mpr fun f _ heq => ?_
  have hprefix : k.text <+: f.text := ⟨v, by simpa using heq⟩
  revert hprefix
  cases k <;> cases f <;> decide

theorem keyOf_flag (f : Flag) : keyOf f.text = none := by
  cases f <;> decide

theorem valueOf_eq_some {k : Key} {tok v : Text} : valueOf k tok = some v ↔ tok = k.text ++ v := by
  rw [valueOf, Option.bind_eq_some_iff]
  constructor
  · rintro ⟨⟨k', v'⟩, hkey, hv⟩
    split_ifs at hv with hk
    obtain rfl := Option.some.inj hv
    rw [← keyOf_eq_some, hkey, ← hk]
  · rintro rfl
    exact ⟨(k, v), keyOf_text_append k v, if_pos rfl⟩

theorem isFree_iff {tok : Text} : isFree tok = true ↔ flagOf tok = none ∧ keyOf tok = none := by
  rw [isFree, Bool.and_eq_true, Option.isNone_iff_eq_none, Option.isNone_iff_eq_none]

/-! ### Taking apart -/

theorem lastValue_cons (k : Key) (tok : Text) (toks : List Text) :
    lastValue k (tok :: toks) = (lastValue k toks).or (valueOf k tok) := by
  rw [lastValue, lastValue, List.filterMap_cons]
  rcases valueOf k tok with _ | v
  · rw [Option.or_none]
  · dsimp only
    rw [List.getLast?_cons]
    rcases (toks.filterMap (valueOf k)).getLast? with _ | w <;> rfl

/-- The arguments after tokens without a break. -/
def withFront (na : NeutrinoArgs) (toks : List Text) : NeutrinoArgs where
  flag f := na.flag f || decide (f.text ∈ toks)
  value k := ((lastValue k toks).map (·.take 63)).getD (na.value k)
  extra := (toks.filter isFree).foldl (naAppend 64) na.extra

theorem withFront_nil (na : NeutrinoArgs) : withFront na [] = na := by
  refine NeutrinoArgs.ext (funext fun f => ?_) (funext fun k => ?_) rfl <;>
    simp [withFront, lastValue]

theorem withFront_cons (na : NeutrinoArgs) (tok : Text) (toks : List Text) :
    withFront na (tok :: toks) = withFront (withFront na [tok]) toks := by
  refine NeutrinoArgs.ext (funext fun f => ?_) (funext fun k => ?_) ?_
  · simp [withFront, Bool.or_assoc]
  · have hlast : lastValue k [tok] = valueOf k tok := lastValue_cons k tok []
    simp only [withFront, lastValue_cons k tok toks, hlast]
    rcases lastValue k toks with _ | v <;> rfl
  · simp only [withFront]
    rw [← List.foldl_append, ← List.filter_append, List.singleton_append]

theorem text_inj {f f' : Flag} : f'.text = f.text ↔ f' = f := by
  rw [← flagOf_eq_some, flagOf_text, Option.some_inj, eq_comm]

theorem withFront_flag (na : NeutrinoArgs) (f : Flag) :
    withFront na [f.text] = { na with flag := Function.update na.flag f true } := by
  have hfree : isFree f.text = false := by simp [isFree, flagOf_text]
  refine NeutrinoArgs.ext (funext fun f' => ?_) (funext fun k => ?_) ?_
  · by_cases hf : f' = f
    · subst hf
      simp [withFront]
    · simp [withFront, text_inj, hf]
  · have hlast : lastValue k [f.text] = none := by
      rw [lastValue_cons, valueOf, keyOf_flag]
      rfl
    simp [withFront, hlast]
  · simp [withFront, hfree]

theorem withFront_key (na : NeutrinoArgs) (k : Key) (v : Text) :
    withFront na [k.text ++ v] =
      { na with value := Function.update na.value k (v.take (64 - 1)) } := by
  have hfree : isFree (k.text ++ v) = false := by simp [isFree, keyOf_text_append]
  refine NeutrinoArgs.ext (funext fun f => ?_) (funext fun k' => ?_) ?_
  · have hne : f.text ≠ k.text ++ v := by
      intro heq
      have hflag := flagOf_key k v
      rw [← heq, flagOf_text] at hflag
      cases hflag
    simp [withFront, hne]
  · have hlast : lastValue k' [k.text ++ v] = if k = k' then some v else none := by
      rw [lastValue_cons, valueOf, keyOf_text_append]
      rfl
    by_cases hk : k' = k
    · subst hk
      simp [withFront, hlast]
    · simp [withFront, hlast, hk, Ne.symm hk]
  · simp [withFront, hfree]

theorem withFront_free (na : NeutrinoArgs) {tok : Text} (hflag : flagOf tok = none)
    (hkey : keyOf tok = none) :
    withFront na [tok] = { na with extra := naAppend 64 na.extra tok } := by
  have hfree : isFree tok = true := isFree_iff.mpr ⟨hflag, hkey⟩
  refine NeutrinoArgs.ext (funext fun f => ?_) (funext fun k => ?_) ?_
  · have hne : f.text ≠ tok := by
      rintro rfl
      rw [flagOf_text] at hflag
      cases hflag
    simp [withFront, hne]
  · have hlast : lastValue k [tok] = none := by
      rw [lastValue_cons, valueOf, hkey]
      rfl
    simp [withFront, hlast]
  · simp [withFront, hfree]

theorem parseToken_front {na : NeutrinoArgs} {tok : Text} (h : tok ≠ breakToken) :
    parseToken (false, na) tok = (false, withFront na [tok]) := by
  rw [parseToken, if_neg (by simp [h])]
  rcases hflag : flagOf tok with _ | f
  · rcases hkey : keyOf tok with _ | ⟨k, v⟩
    · rw [withFront_free na hflag hkey]
    · obtain rfl := keyOf_eq_some.mp hkey
      rw [withFront_key]
  · obtain rfl := flagOf_eq_some.mp hflag
    rw [withFront_flag]

/-- The tokens in front of the break. -/
theorem foldl_parseToken_front {toks : List Text} (h : ∀ tok ∈ toks, tok ≠ breakToken)
    (na : NeutrinoArgs) :
    toks.foldl parseToken (false, na) = (false, withFront na toks) := by
  induction toks generalizing na with
  | nil => rw [List.foldl_nil, withFront_nil]
  | cons tok toks ih =>
    rw [List.foldl_cons, parseToken_front (h tok List.mem_cons_self),
      ih fun t ht => h t (List.mem_cons_of_mem tok ht), ← withFront_cons]

/-- The tokens behind the break. -/
theorem foldl_parseToken_true (toks : List Text) (na : NeutrinoArgs) :
    toks.foldl parseToken (true, na) =
      (true, { na with extra := toks.foldl (naAppend 64) na.extra }) := by
  induction toks generalizing na with
  | nil => rfl
  | cons tok toks ih =>
    rw [List.foldl_cons, List.foldl_cons, parseToken, if_pos (.inl rfl), ih]

theorem rest_eq_nil_or (toks : List Text) : rest toks = [] ∨ ∃ r, rest toks = breakToken :: r := by
  rcases h : rest toks with _ | ⟨tok, r⟩
  · exact .inl rfl
  · have heq : toks.dropWhile (· ≠ breakToken) = tok :: r := h
    have hne : toks.dropWhile (· ≠ breakToken) ≠ [] := by
      rw [heq]
      exact List.cons_ne_nil tok r
    have hhead := List.head_dropWhile_not (· ≠ breakToken) hne
    simp only [heq] at hhead
    rw [← not_not.mp (of_decide_eq_false hhead)]
    exact .inr ⟨r, rfl⟩

theorem front_append_rest (toks : List Text) : front toks ++ rest toks = toks :=
  List.takeWhile_append_dropWhile

theorem ne_of_mem_front {toks : List Text} : ∀ tok ∈ front toks, tok ≠ breakToken := by
  intro tok h
  simpa using List.mem_takeWhile_imp h

/-- What is kept of the tokens. -/
theorem parseTokens_eq (toks : List Text) :
    parseTokens toks =
      { withFront noArgs (front toks) with
        extra := (freeTokens toks).foldl (naAppend 64) [] } := by
  have hextra : (withFront noArgs (front toks)).extra =
      ((front toks).filter isFree).foldl (naAppend 64) [] := rfl
  rw [freeTokens, List.foldl_append, ← hextra, parseTokens]
  conv_lhs => rw [← front_append_rest toks]
  rw [List.foldl_append, foldl_parseToken_front ne_of_mem_front]
  rcases rest_eq_nil_or toks with h | ⟨r, h⟩
  · rw [h]
    rfl
  · have hbreak : parseToken (false, withFront noArgs (front toks)) breakToken =
        parseToken (true, withFront noArgs (front toks)) breakToken := by
      rw [parseToken, parseToken, if_pos (.inr rfl), if_pos (.inl rfl)]
    rw [h, List.foldl_cons, hbreak, ← List.foldl_cons, foldl_parseToken_true]

/-! ### Putting together -/

/-- A token behind a string that was cut already. -/
theorem naAppend_take {n : ℕ} {x : Text} (hx : x ≠ []) (tok : Text) :
    naAppend n (x.take (n - 1)) tok = (x ++ ' ' :: tok).take (n - 1) := by
  rw [naAppend]
  by_cases hfull : n - 1 ≤ x.length
  · rw [if_pos (by rw [List.length_take]; omega), List.take_append_of_le_length hfull]
  · have htake : x.take (n - 1) = x := List.take_of_length_le (by omega)
    have hcons : n - 1 - x.length = n - (x.length + 1) - 1 + 1 := by omega
    rw [htake, if_neg hfull, if_neg hx, List.take_append, htake, hcons, List.take_succ_cons]

theorem joined_merge (x t : Text) (ts : List Text) :
    joined ' ' ((x ++ ' ' :: t) :: ts) = joined ' ' (x :: t :: ts) := by
  cases ts with
  | nil => rfl
  | cons u ts =>
    rw [joined_cons (List.cons_ne_nil u ts), joined_cons (List.cons_ne_nil t _),
      joined_cons (List.cons_ne_nil u ts), List.append_assoc]
    rfl

/-- Tokens put one behind the other are joined, and cut at the end of the array. -/
theorem foldl_naAppend {n : ℕ} {ts : List Text} (h : ∀ t ∈ ts, t ≠ []) :
    ts.foldl (naAppend n) [] = (joined ' ' ts).take (n - 1) := by
  have hbehind (x : Text) (ts : List Text) (hx : x ≠ []) :
      ts.foldl (naAppend n) (x.take (n - 1)) = (joined ' ' (x :: ts)).take (n - 1) := by
    induction ts generalizing x with
    | nil => rfl
    | cons t ts ih =>
      have hne : x ++ ' ' :: t ≠ [] := List.append_ne_nil_of_left_ne_nil hx _
      rw [List.foldl_cons, naAppend_take hx, ih _ hne, joined_merge]
  cases ts with
  | nil => simp [joined]
  | cons t ts =>
    have hfirst : naAppend n [] t = t.take (n - 1) := by
      rw [naAppend]
      by_cases hn : n - 1 = 0
      · simp [hn]
      · rw [if_neg (by rw [List.length_nil]; omega), if_pos rfl]
    rw [List.foldl_cons, hfirst, hbehind t ts (h t List.mem_cons_self)]

/-- The strings that are put together. -/
def pieces (na : NeutrinoArgs) : List Text :=
  (Flag.all.filter na.flag).map Flag.text ++
    (Key.all.filter fun k => na.value k ≠ []).map (fun k => (k.text ++ na.value k).take (96 - 1)) ++
    if na.extra = [] then [] else [na.extra]

theorem pieces_ne_nil {na : NeutrinoArgs} : ∀ t ∈ pieces na, t ≠ [] := by
  intro t ht
  rw [pieces, List.mem_append, List.mem_append, List.mem_map, List.mem_map] at ht
  rcases ht with (⟨f, -, rfl⟩ | ⟨k, -, rfl⟩) | ht
  · exact (isWord_flag f).ne_nil
  · have hpos : 0 < k.text.length := by cases k <;> decide
    refine List.ne_nil_of_length_pos ?_
    rw [List.length_take, List.length_append]
    omega
  · split_ifs at ht with hextra
    · cases ht
    · rw [List.mem_singleton] at ht
      rwa [ht]

theorem assemble_eq (na : NeutrinoArgs) (outSize : ℕ) :
    neutrinoArgsAssemble na outSize = (joined ' ' (pieces na)).take (outSize - 1) := by
  rw [← foldl_naAppend pieces_ne_nil, pieces, List.foldl_append, List.foldl_append,
    List.foldl_map, List.foldl_filter, List.foldl_map, List.foldl_filter, neutrinoArgsAssemble]
  simp only [decide_eq_true_eq]
  by_cases hextra : na.extra = []
  · rw [if_neg (not_not.mpr hextra), if_pos hextra]
    rfl
  · rw [if_pos hextra, if_neg hextra]
    rfl

/-! ### What is kept -/

/-- What is kept of the last value of a key. -/
def keptValue (toks : List Text) (k : Key) : Text :=
  ((lastValue k (front toks)).map (·.take 63)).getD []

/-- The tokens of the values that are kept. -/
def keptTokens (toks : List Text) : List Text :=
  (Key.all.filter fun k => keptValue toks k ≠ []).map fun k => k.text ++ keptValue toks k

/-- What is kept of the other tokens. -/
def keptExtra (toks : List Text) : Text := (joined ' ' (freeTokens toks)).take 63

section Kept

variable {toks : List Text}

theorem mem_of_lastValue {k : Key} {v : Text} (h : lastValue k toks = some v) :
    k.text ++ v ∈ toks := by
  obtain ⟨tok, htok, hv⟩ := List.mem_filterMap.mp (List.mem_of_getLast? h)
  rwa [← valueOf_eq_some.mp hv]

theorem length_keptValue_le (toks : List Text) (k : Key) : (keptValue toks k).length ≤ 63 := by
  rw [keptValue]
  rcases lastValue k (front toks) with _ | v
  · exact Nat.zero_le _
  · exact List.length_take_le 63 v

theorem subset_front : front toks ⊆ toks := (List.takeWhile_prefix _).sublist.subset

theorem freeTokens_sublist : (freeTokens toks).Sublist toks := by
  conv_rhs => rw [← front_append_rest toks]
  exact List.filter_sublist.append (List.Sublist.refl _)

theorem parseTokens_kept (h : ∀ t ∈ toks, IsWord isSep t) :
    parseTokens toks =
      ⟨fun f => decide (f.text ∈ front toks), keptValue toks, keptExtra toks⟩ := by
  have hne : ∀ t ∈ freeTokens toks, t ≠ [] := fun t ht =>
    (h t (freeTokens_sublist.subset ht)).ne_nil
  rw [parseTokens_eq, foldl_naAppend hne]
  refine NeutrinoArgs.ext (funext fun f => ?_) rfl rfl
  simp [withFront, noArgs]

theorem isWord_keptTokens (h : ∀ t ∈ toks, IsWord isSep t) :
    ∀ t ∈ keptTokens toks, IsWord isSep t := by
  intro t ht
  obtain ⟨k, -, rfl⟩ := List.mem_map.mp ht
  have htext : k.text ≠ [] ∧ ∀ c ∈ k.text, isSep c = false := by cases k <;> decide
  refine ⟨List.append_ne_nil_of_left_ne_nil htext.1 _, fun c hc => ?_⟩
  rcases List.mem_append.mp hc with hc | hc
  · exact htext.2 c hc
  · rw [keptValue] at hc
    rcases hv : lastValue k (front toks) with _ | v
    · rw [hv] at hc
      cases hc
    · rw [hv] at hc
      have hword := h _ (subset_front (mem_of_lastValue hv))
      exact hword.not_sep c (List.mem_append_right _ (List.mem_of_mem_take hc))

theorem pieces_parseTokens (h : ∀ t ∈ toks, IsWord isSep t) :
    pieces (parseTokens toks) =
      flagTokens toks ++ keptTokens toks ++
        if keptExtra toks = [] then [] else [keptExtra toks] := by
  have hcut (k : Key) :
      (k.text ++ keptValue toks k).take (96 - 1) = k.text ++ keptValue toks k := by
    have hlen : k.text.length ≤ 8 := by cases k <;> decide
    have := length_keptValue_le toks k
    rw [List.take_of_length_le]
    rw [List.length_append]
    omega
  rw [parseTokens_kept h, pieces, flagTokens, keptTokens]
  simp only [hcut]

theorem weight_keptTokens_le (toks : List Text) :
    weight (keptTokens toks) ≤ weight (keyTokens toks) := by
  rw [keptTokens, keyTokens]
  induction Key.all with
  | nil => exact Nat.le_refl _
  | cons k ks ih =>
    rw [List.filter_cons, List.filterMap_cons]
    rcases hv : lastValue k (front toks) with _ | v
    · have hnil : keptValue toks k = [] := by rw [keptValue, hv]; rfl
      simpa [hnil] using ih
    · have hkept : keptValue toks k = v.take 63 := by rw [keptValue, hv]; rfl
      have hlen : (v.take 63).length ≤ v.length := List.length_take_le' 63 v
      rw [Option.map_some]
      dsimp only
      rw [weight_cons, List.length_append]
      split_ifs
      · rw [List.map_cons, weight_cons, List.length_append, hkept]
        omega
      · omega

theorem weight_pieces_le (h : ∀ t ∈ toks, IsWord isSep t) :
    weight (pieces (parseTokens toks)) ≤ weight (expected toks) := by
  have hkept := weight_keptTokens_le toks
  have hextra : weight (if keptExtra toks = [] then [] else [keptExtra toks]) ≤
      weight (freeTokens toks) := by
    split_ifs with hnil
    · exact Nat.zero_le _
    · have hne : freeTokens toks ≠ [] := by
        intro hfree
        rw [keptExtra, hfree] at hnil
        exact hnil rfl
      have hlen : (keptExtra toks).length ≤ (joined ' ' (freeTokens toks)).length :=
        List.length_take_le' 63 _
      rw [weight_cons, weight_nil, ← length_joined ' ' hne]
      omega
  rw [pieces_parseTokens h, expected, weight_append, weight_append, weight_append, weight_append]
  omega

/-- The result, when it fits the output buffer. -/
theorem assemble_of_fits (h : ∀ t ∈ toks, IsWord isSep t) {outSize : ℕ}
    (hfits : (joined ' ' (expected toks)).length < outSize) :
    neutrinoArgsAssemble (parseTokens toks) outSize =
      joined ' ' (pieces (parseTokens toks)) := by
  have hexpected := length_joined_le_iff.mp (Nat.le_sub_one_of_lt hfits)
  have hlen : (joined ' ' (pieces (parseTokens toks))).length ≤ outSize - 1 :=
    length_joined_le_iff.mpr ((weight_pieces_le h).trans hexpected)
  rw [assemble_eq, List.take_of_length_le hlen]

theorem tokens_pieces (h : ∀ t ∈ toks, IsWord isSep t) :
    tokens isSep (joined ' ' (pieces (parseTokens toks))) =
      flagTokens toks ++ keptTokens toks ++ tokens isSep (keptExtra toks) := by
  have hword : ∀ t ∈ flagTokens toks ++ keptTokens toks, IsWord isSep t := by
    intro t ht
    rcases List.mem_append.mp ht with ht | ht
    · obtain ⟨f, -, rfl⟩ := List.mem_map.mp ht
      exact isWord_flag f
    · exact isWord_keptTokens h t ht
  have hself (ts : List Text) (hts : ∀ t ∈ ts, IsWord isSep t) :
      ts.flatMap (tokens isSep) = ts := by
    rw [← tokens_joined_flatMap isSep_blank, tokens_joined isSep_blank hts]
  rw [tokens_joined_flatMap isSep_blank, pieces_parseTokens h, List.flatMap_append, hself _ hword]
  congr 1
  split_ifs with hnil
  · rw [hnil]
    rfl
  · rw [List.flatMap_cons, List.flatMap_nil, List.append_nil]

/-! ### Everything is there -/

theorem isFree_text_append (k : Key) (v : Text) : isFree (k.text ++ v) = false := by
  rw [isFree, keyOf_text_append, Option.isNone_some, Bool.and_false]

theorem isFree_flag (f : Flag) : isFree f.text = false := by
  rw [isFree, flagOf_text, Option.isNone_some, Bool.false_and]

theorem isFree_flagTokens : ∀ t ∈ flagTokens toks, isFree t = false := by
  intro t ht
  obtain ⟨f, -, rfl⟩ := List.mem_map.mp ht
  exact isFree_flag f

theorem isFree_keptTokens : ∀ t ∈ keptTokens toks, isFree t = false := by
  intro t ht
  obtain ⟨k, -, rfl⟩ := List.mem_map.mp ht
  exact isFree_text_append k _

theorem isFree_keyTokens : ∀ t ∈ keyTokens toks, isFree t = false := by
  intro t ht
  obtain ⟨k, -, hk⟩ := List.mem_filterMap.mp ht
  obtain ⟨v, -, rfl⟩ := Option.map_eq_some_iff.mp hk
  exact isFree_text_append k v

theorem filter_isFree_eq_nil {ts : List Text} (h : ∀ t ∈ ts, isFree t = false) :
    ts.filter isFree = [] := by
  rw [List.filter_eq_nil_iff]
  exact fun t ht => by rw [h t ht]; exact Bool.false_ne_true

/-- The tokens behind the flags and values, when the break ends all of them. -/
theorem exists_of_append_eq {as bs hs : List Text} (has : ∀ t ∈ as, isFree t = false)
    (h : as ++ bs = hs ++ rest toks) : ∃ cs, hs = as ++ cs ∧ bs = cs ++ rest toks := by
  rcases List.append_eq_append_iff.mp h with ⟨cs, hhs, hbs⟩ | ⟨cs, has', hrest⟩
  · exact ⟨cs, hhs, hbs⟩
  · cases cs with
    | nil => exact ⟨[], by simpa using has'.symm, by simpa using hrest.symm⟩
    | cons t cs =>
      -- the break is none of them
      obtain hnil | ⟨r, hr⟩ := rest_eq_nil_or toks
      · rw [hnil] at hrest
        cases hrest
      · rw [hr] at hrest
        obtain rfl : breakToken = t := (List.cons.inj hrest).1
        exact absurd (has breakToken (by rw [has']; simp)) (by decide)

/-- The free tokens of a list are among those that are free. -/
theorem sublist_of_append {as bs fs : List Text} (has : ∀ t ∈ as, isFree t = false)
    (hfs : ∀ t ∈ fs, isFree t = true) (h : fs.Sublist (as ++ bs)) : fs.Sublist bs := by
  have hfilter := h.filter isFree
  rw [List.filter_append, filter_isFree_eq_nil has, List.nil_append,
    List.filter_eq_self.mpr hfs] at hfilter
  exact hfilter.trans List.filter_sublist

theorem argsFit_of_contained (h : ∀ t ∈ toks, IsWord isSep t)
    (hcont : Contained toks (joined ' ' (pieces (parseTokens toks)))) :
    (∀ k v, lastValue k (front toks) = some v → v ≠ [] ∧ v.length ≤ 63) ∧
      (joined ' ' (freeTokens toks)).length ≤ 63 := by
  obtain ⟨hs, heq, -, hvalues, hfree⟩ := hcont
  have has : ∀ t ∈ flagTokens toks ++ keptTokens toks, isFree t = false := by
    intro t ht
    rcases List.mem_append.mp ht with ht | ht
    · exact isFree_flagTokens t ht
    · exact isFree_keptTokens t ht
  have hfs : ∀ t ∈ (front toks).filter isFree, isFree t = true := fun t ht =>
    (List.mem_filter.mp ht).2
  rw [tokens_pieces h] at heq
  obtain ⟨cs, rfl, hextra⟩ := exists_of_append_eq has heq
  have hsub := (sublist_of_append has hfs hfree).append (List.Sublist.refl (rest toks))
  rw [← freeTokens, ← hextra] at hsub
  have hlen : (joined ' ' (freeTokens toks)).length ≤ 63 := by
    refine length_joined_le_iff.mpr ?_
    calc weight (freeTokens toks) ≤ weight (tokens isSep (keptExtra toks)) :=
          weight_le_of_subperm hsub.subperm
      _ ≤ (keptExtra toks).length + 1 := weight_tokens_le _
      _ ≤ 63 + 1 := Nat.succ_le_succ (List.length_take_le 63 _)
  refine ⟨fun k v hv => ?_, hlen⟩
  have hcs : cs = (front toks).filter isFree := by
    have hword : ∀ t ∈ freeTokens toks, IsWord isSep t := fun t ht =>
      h t (freeTokens_sublist.subset ht)
    rw [keptExtra, List.take_of_length_le hlen, tokens_joined isSep_blank hword,
      freeTokens] at hextra
    exact (List.append_cancel_right hextra).symm
  rcases List.mem_append.mp (hvalues k v hv) with hmem | hmem
  · rcases List.mem_append.mp hmem with hmem | hmem
    · obtain ⟨f, -, hf⟩ := List.mem_map.mp hmem
      have hflag := flagOf_key k v
      rw [← hf, flagOf_text] at hflag
      cases hflag
    · obtain ⟨k', hk', hkv⟩ := List.mem_map.mp hmem
      have hsame := keyOf_text_append k' (keptValue toks k')
      rw [hkv, keyOf_text_append] at hsame
      obtain ⟨rfl, hv'⟩ := Prod.mk.inj (Option.some.inj hsame)
      rw [hv']
      have hne : keptValue toks k ≠ [] := by simpa using (List.mem_filter.mp hk').2
      exact ⟨hne, length_keptValue_le toks k⟩
  · rw [hcs] at hmem
    have := hfs _ hmem
    rw [isFree_text_append] at this
    cases this

theorem keptTokens_eq
    (hfit : ∀ k v, lastValue k (front toks) = some v → v ≠ [] ∧ v.length ≤ 63) :
    keptTokens toks = keyTokens toks := by
  rw [keptTokens, keyTokens]
  induction Key.all with
  | nil => rfl
  | cons k ks ih =>
    rw [List.filter_cons, List.filterMap_cons]
    rcases hv : lastValue k (front toks) with _ | v
    · have hnil : keptValue toks k = [] := by rw [keptValue, hv]; rfl
      simpa [hnil] using ih
    · obtain ⟨hne, hlen⟩ := hfit k v hv
      have hkept : keptValue toks k = v := by
        rw [keptValue, hv, Option.map_some, List.take_of_length_le hlen, Option.getD_some]
      simpa [hkept, hne] using ih

/-! ### The result is taken apart again -/

theorem front_expected : front (expected toks) =
    flagTokens toks ++ keyTokens toks ++ (front toks).filter isFree := by
  have hne : ∀ t ∈ flagTokens toks ++ keyTokens toks ++ (front toks).filter isFree,
      decide (t ≠ breakToken) = true := by
    intro t ht
    rw [decide_eq_true_eq]
    rcases List.mem_append.mp ht with ht | ht
    · have hfree : isFree t = false := by
        rcases List.mem_append.mp ht with ht | ht
        · exact isFree_flagTokens t ht
        · exact isFree_keyTokens t ht
      rintro rfl
      exact absurd hfree (by decide)
    · exact ne_of_mem_front t (List.mem_filter.mp ht).1
  rw [expected, freeTokens, ← List.append_assoc, front, List.takeWhile_append_of_pos hne]
  obtain h | ⟨r, h⟩ := rest_eq_nil_or toks
  · rw [h, List.takeWhile_nil, List.append_nil]
  · rw [h, List.takeWhile_cons_of_neg (by simp), List.append_nil]

theorem rest_expected : rest (expected toks) = rest toks := by
  have hsplit : expected toks =
      flagTokens toks ++ keyTokens toks ++ (front toks).filter isFree ++ rest toks := by
    rw [expected, freeTokens, ← List.append_assoc]
  have happ := front_append_rest (expected toks)
  rw [front_expected] at happ
  exact List.append_cancel_left (happ.trans hsplit)

theorem freeTokens_expected : freeTokens (expected toks) = freeTokens toks := by
  rw [freeTokens, rest_expected, front_expected, List.filter_append, List.filter_append,
    filter_isFree_eq_nil isFree_flagTokens, filter_isFree_eq_nil isFree_keyTokens,
    List.nil_append, List.nil_append, List.filter_filter, freeTokens]
  simp only [Bool.and_self]

theorem mem_front_expected (f : Flag) : f.text ∈ front (expected toks) ↔ f.text ∈ front toks := by
  rw [front_expected, List.mem_append, List.mem_append]
  constructor
  · rintro ((h | h) | h)
    · obtain ⟨f', hf', heq⟩ := List.mem_map.mp h
      rw [text_inj] at heq
      subst heq
      simpa using (List.mem_filter.mp hf').2
    · obtain ⟨k, -, hk⟩ := List.mem_filterMap.mp h
      obtain ⟨v, -, heq⟩ := Option.map_eq_some_iff.mp hk
      have hflag := flagOf_key k v
      rw [heq, flagOf_text] at hflag
      cases hflag
    · exact (List.mem_filter.mp h).1
  · intro h
    refine .inl (.inl (List.mem_map.mpr ⟨f, ?_, rfl⟩))
    rw [List.mem_filter]
    exact ⟨by cases f <;> decide, by simpa using h⟩

theorem filterMap_valueOf_of_isFree {k : Key} {ts : List Text}
    (h : ∀ t ∈ ts, keyOf t = none) : ts.filterMap (valueOf k) = [] := by
  rw [List.filterMap_eq_nil_iff]
  intro t ht
  rw [valueOf, h t ht]
  rfl

theorem filterMap_valueOf_keyTokens (k : Key) :
    (keyTokens toks).filterMap (valueOf k) = (lastValue k (front toks)).toList := by
  have hvalue : (fun k' => (((lastValue k' (front toks)).map (k'.text ++ ·)).bind (valueOf k))) =
      fun k' => if k' = k then lastValue k' (front toks) else none := by
    funext k'
    rcases lastValue k' (front toks) with _ | v
    · rw [ite_self]
      rfl
    · rw [Option.map_some, Option.bind_some, valueOf, keyOf_text_append]
      rfl
  rw [keyTokens, List.filterMap_filterMap, hvalue]
  cases k <;> simp [Key.all, List.filterMap_cons, Option.toList] <;> split <;> simp_all

theorem lastValue_expected (k : Key) :
    lastValue k (front (expected toks)) = lastValue k (front toks) := by
  have hflags : ∀ t ∈ flagTokens toks, keyOf t = none := by
    intro t ht
    obtain ⟨f, -, rfl⟩ := List.mem_map.mp ht
    exact keyOf_flag f
  have hfree : ∀ t ∈ (front toks).filter isFree, keyOf t = none := fun t ht =>
    (isFree_iff.mp (List.mem_filter.mp ht).2).2
  rw [lastValue, front_expected, List.filterMap_append, List.filterMap_append,
    filterMap_valueOf_of_isFree hflags, filterMap_valueOf_of_isFree hfree,
    filterMap_valueOf_keyTokens, List.nil_append, List.append_nil]
  rcases lastValue k (front toks) with _ | v <;> rfl

theorem parseTokens_expected : parseTokens (expected toks) = parseTokens toks := by
  rw [parseTokens_eq, parseTokens_eq, freeTokens_expected]
  refine NeutrinoArgs.ext (funext fun f => ?_) (funext fun k => ?_) rfl
  · simp only [withFront, mem_front_expected]
  · simp only [withFront, lastValue_expected]

/-! ### The length of the result -/

theorem nodup_flag_append_key : (flagTokens toks ++ keyTokens toks).Nodup := by
  rw [List.nodup_append]
  refine ⟨?_, ?_, ?_⟩
  · have hall : Flag.all.Nodup := by decide
    exact (hall.filter _).map fun f f' h => text_inj.mp h
  · have hall : Key.all.Nodup := by decide
    refine hall.filterMap fun k k' t hk hk' => ?_
    obtain ⟨v, -, rfl⟩ := Option.map_eq_some_iff.mp hk
    obtain ⟨v', -, heq⟩ := Option.map_eq_some_iff.mp hk'
    have hsame := keyOf_text_append k' v'
    rw [heq, keyOf_text_append] at hsame
    exact congrArg Prod.fst (Option.some.inj hsame)
  · intro t ht u hu heq
    obtain ⟨f, -, rfl⟩ := List.mem_map.mp ht
    obtain ⟨k, -, hk⟩ := List.mem_filterMap.mp hu
    obtain ⟨v, -, rfl⟩ := Option.map_eq_some_iff.mp hk
    have hflag := flagOf_key k v
    rw [← heq, flagOf_text] at hflag
    cases hflag

/-- The result has no other tokens than the string. -/
theorem expected_subperm : (expected toks).Subperm toks := by
  have hsubset : flagTokens toks ++ keyTokens toks ⊆ (front toks).filter fun t => !isFree t := by
    intro t ht
    rw [List.mem_filter]
    rcases List.mem_append.mp ht with ht | ht
    · refine ⟨?_, by rw [isFree_flagTokens t ht]; rfl⟩
      obtain ⟨f, hf, rfl⟩ := List.mem_map.mp ht
      simpa using (List.mem_filter.mp hf).2
    · refine ⟨?_, by rw [isFree_keyTokens t ht]; rfl⟩
      obtain ⟨k, -, hk⟩ := List.mem_filterMap.mp ht
      obtain ⟨v, hv, rfl⟩ := Option.map_eq_some_iff.mp hk
      exact mem_of_lastValue hv
  have hfront : (flagTokens toks ++ keyTokens toks ++ (front toks).filter isFree).Subperm
      (front toks) := by
    refine ((List.subperm_of_subset nodup_flag_append_key hsubset).append
      (List.Subperm.refl _)).trans ?_
    exact (List.perm_append_comm.trans (List.filter_append_perm isFree (front toks))).subperm
  have hall := hfront.append (List.Subperm.refl (rest toks))
  rwa [front_append_rest, List.append_assoc, ← freeTokens, ← expected] at hall

end Kept

/-! ### Strings of at most 255 characters -/

section Survive

variable {s : Text}

theorem neutrinoArgsParse_of_length_le (h : s.length ≤ 255) :
    neutrinoArgsParse (some s) = parseTokens (tokens isSep s) := by
  rw [neutrinoArgsParse, List.take_of_length_le h]

theorem isWord_tokens : ∀ t ∈ tokens isSep s, IsWord isSep t := fun _ => isWord_of_mem_tokens

theorem argsFit_of_argsSurvive (h : s.length ≤ 255) (hsurvive : ArgsSurvive s) : ArgsFit s := by
  have hcont := (hsurvive _ (Nat.lt_succ_self _)).1
  rw [neutrinoArgsParse_of_length_le h,
    assemble_of_fits isWord_tokens (Nat.lt_succ_self _)] at hcont
  obtain ⟨hvalue, hextra⟩ := argsFit_of_contained isWord_tokens hcont
  exact ⟨hvalue, hextra⟩

theorem argsSurvive_of_argsFit (h : s.length ≤ 255) (hfit : ArgsFit s) : ArgsSurvive s := by
  intro outSize hfits
  have hword : ∀ t ∈ freeTokens (tokens isSep s), IsWord isSep t := fun t ht =>
    isWord_tokens t (freeTokens_sublist.subset ht)
  -- nothing is cut, and the result has the expected tokens
  have htokens : tokens isSep (joined ' ' (pieces (parseTokens (tokens isSep s)))) =
      expected (tokens isSep s) := by
    rw [tokens_pieces isWord_tokens, keptTokens_eq hfit.value, keptExtra,
      List.take_of_length_le hfit.extra, tokens_joined isSep_blank hword, expected]
  have hlen : (joined ' ' (pieces (parseTokens (tokens isSep s)))).length ≤ 255 := by
    refine length_joined_le_iff.mpr ?_
    calc weight (pieces (parseTokens (tokens isSep s)))
        ≤ weight (expected (tokens isSep s)) := weight_pieces_le isWord_tokens
      _ ≤ weight (tokens isSep s) := weight_le_of_subperm expected_subperm
      _ ≤ s.length + 1 := weight_tokens_le s
      _ ≤ 255 + 1 := Nat.succ_le_succ h
  rw [neutrinoArgsParse_of_length_le h, assemble_of_fits isWord_tokens hfits]
  constructor
  · refine ⟨flagTokens (tokens isSep s) ++ keyTokens (tokens isSep s) ++
      (front (tokens isSep s)).filter isFree, ?_, fun f hf => ?_, fun k v hv => ?_, ?_⟩
    · rw [htokens, expected, freeTokens, List.append_assoc, List.append_assoc, List.append_assoc]
    · rwa [← front_expected, mem_front_expected]
    · have hmem : k.text ++ v ∈ keyTokens (tokens isSep s) :=
        List.mem_filterMap.mpr ⟨k, by cases k <;> decide, by rw [hv, Option.map_some]⟩
      exact List.mem_append_left _ (List.mem_append_right _ hmem)
    · exact List.sublist_append_right _ _
  · rw [neutrinoArgsParse_of_length_le hlen, htokens, parseTokens_expected]

end Survive

/-- **Launch arguments survive** exactly when every key that is there has a value at last, of at
most 63 characters, and the tokens that are neither flags nor keys have 63 together. -/
theorem argsSurvive_iff (s : CharBuf 255) : ArgsSurvive s.text ↔ ArgsFit s.text :=
  ⟨argsFit_of_argsSurvive s.length_le, argsSurvive_of_argsFit s.length_le⟩

/-- A path that is too long for its array. -/
def longPath : Text := "-cfg=".toList ++ List.replicate 64 'a'

theorem not_argsSurvive : ¬ ArgsSurvive longPath := by
  intro h
  have hvalue := (argsFit_of_argsSurvive (by decide) h).value .cfg (List.replicate 64 'a')
    (by decide)
  revert hvalue
  decide

end Neutrino

end OpenPS2Loader
