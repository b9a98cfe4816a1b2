import OpenPS2Loader.Lib.Text

/-!
# C strings, character arrays and lines

A byte sequence read through a `char *` ends at its first NUL. Here are the few string functions of
C that the modelled code calls, the contents of a character array that `strncpy` fills and whose
last byte is set to NUL, and the lines of a file.

## Main definitions

* `cstr`, `strchr` — the string at an address, and the search for a character in it
* `poke` — a character is written to a buffer
* `isspace`, `isgraph` — two classes of characters
* `CharBuf n` — the text a `char[n + 1]` can hold, with its bound and its freedom of NUL
* `CharBuf.strncpy` — copying into it
* `strncmpEq` — `strncmp(..) == 0`
* `splitLines`, `joinLines`, `subLines` — the lines of a text, each ended by a line feed

## Main results

* `strncmpEq_charBuf` — comparing one byte more than an array can hold is comparing the strings
* `joinLines_subLines` — a text and its lines
-/

namespace OpenPS2Loader

/-! ### Strings that end at NUL -/

/-- The terminator. -/
abbrev nul : Char := '\x00'

/-- The C string that starts with the bytes `t`. -/
def cstr (t : Text) : Text := t.takeWhile (· ≠ nul)

theorem nul_not_mem_cstr (t : Text) : nul ∉ cstr t := by
  intro h
  have := List.mem_takeWhile_imp h
  simp at this

theorem cstr_of_nul_not_mem {t : Text} (h : nul ∉ t) : cstr t = t := by
  rw [cstr, List.takeWhile_eq_self_iff]
  intro c hc
  have hne : c ≠ nul := fun he => h (he ▸ hc)
  simpa using hne

theorem cstr_append {s : Text} (h : nul ∉ s) (t : Text) : cstr (s ++ t) = s ++ cstr t := by
  rw [cstr, cstr, List.takeWhile_append_of_pos]
  intro c hc
  rw [decide_eq_true_eq]
  rintro rfl
  exact h hc

/-- The character `c` is written to the buffer. -/
def poke (buf : Text) (i : ℕ) (c : Char) : Option Text :=
  if i < buf.length then some (buf.set i c) else none

/-- `isspace`. -/
def isspace (c : Char) : Bool := c == ' ' || ('\t' ≤ c && c ≤ '\r')

/-- `isgraph`. -/
def isgraph (c : Char) : Bool := '!' ≤ c && c ≤ '~'

/-- `strchr(t, c) - t`, for a character other than the terminator. -/
def strchr (c : Char) : Text → Option ℕ
  | [] => none
  | x :: t => if x = c then some 0 else if x = nul then none else (strchr c t).map (· + 1)

theorem strchr_append {c : Char} {s : Text} (hc : c ∉ s) (hn : nul ∉ s) (r : Text) :
    strchr c (s ++ c :: r) = some s.length := by
  induction s with
  | nil => simp [strchr]
  | cons x s ih =>
    rw [List.mem_cons, not_or] at hc hn
    rw [List.cons_append, strchr, if_neg (Ne.symm hc.1), if_neg (Ne.symm hn.1), ih hc.2 hn.2]
    rfl

theorem strchr_of_not_mem {c : Char} {s : Text} (h : c ∉ s) : strchr c s = none := by
  induction s with
  | nil => rfl
  | cons x s ih =>
    rw [List.mem_cons, not_or] at h
    rw [strchr, if_neg (Ne.symm h.1), ih h.2]
    simp

/-! ### Character arrays -/

/-- What a `char[n + 1]` holds once a string was copied into it and its last byte was set to
NUL. -/
@[ext]
structure CharBuf (n : ℕ) where
  /-- The string, terminator excluded. -/
  text : Text
  length_le : text.length ≤ n
  nul_not_mem : nul ∉ text
  deriving DecidableEq

/-- `strncpy(buf, t, n + 1); buf[n] = '\0'`. -/
def CharBuf.strncpy {n : ℕ} (t : Text) : CharBuf n where
  text := (cstr t).take n
  length_le := List.length_take_le n _
  nul_not_mem h := nul_not_mem_cstr t (List.mem_of_mem_take h)

@[simp] theorem CharBuf.strncpy_text {n : ℕ} (t : Text) :
    (CharBuf.strncpy t : CharBuf n).text = (cstr t).take n := rfl

@[simp] theorem CharBuf.cstr_text {n : ℕ} (b : CharBuf n) : cstr b.text = b.text :=
  cstr_of_nul_not_mem b.nul_not_mem

@[simp] theorem CharBuf.strncpy_self {n : ℕ} (b : CharBuf n) : CharBuf.strncpy b.text = b := by
  ext1
  rw [strncpy_text, cstr_text, List.take_of_length_le b.length_le]

/-- `strncmp(s, t, n) == 0`. -/
def strncmpEq (n : ℕ) (s t : Text) : Prop := (cstr s).take n = (cstr t).take n

instance (n : ℕ) (s t : Text) : Decidable (strncmpEq n s t) :=
  inferInstanceAs (Decidable (_ = _))

/-- One byte more than the array can hold is compared, so the strings are compared in full. -/
theorem strncmpEq_charBuf {n : ℕ} {b : CharBuf n} {t : Text} :
    strncmpEq (n + 1) b.text t ↔ b.text = cstr t := by
  rw [strncmpEq, CharBuf.cstr_text, List.take_of_length_le (Nat.le_succ_of_le b.length_le)]
  constructor
  · intro h
    have hlen : ((cstr t).take (n + 1)).length ≤ n := h ▸ b.length_le
    rw [List.length_take] at hlen
    rw [h, List.take_of_length_le (by omega)]
  · intro h
    rw [h, List.take_of_length_le]
    exact Nat.le_succ_of_le (h ▸ b.length_le)

/-! ### Lines -/

/-- The lines of a text, without their line feeds. What stands behind the last line feed is a line
unless it is empty. -/
def splitLines : Text → List Text
  | [] => []
  | c :: t =>
    if c = '\n' then [] :: splitLines t
    else match splitLines t with
      | [] => [[c]]
      | l :: ls => (c :: l) :: ls

/-- The lines `ls`, each ended by a line feed. -/
def joinLines (ls : List Text) : Text := ls.flatMap (· ++ ['\n'])

@[simp] theorem joinLines_nil : joinLines [] = [] := rfl

@[simp] theorem joinLines_cons (l : Text) (ls : List Text) :
    joinLines (l :: ls) = l ++ '\n' :: joinLines ls := by
  simp [joinLines]

theorem splitLines_line {l : Text} (h : '\n' ∉ l) (r : Text) :
    splitLines (l ++ '\n' :: r) = l :: splitLines r := by
  induction l with
  | nil => simp [splitLines]
  | cons c l ih =>
    rw [List.mem_cons, not_or] at h
    rw [List.cons_append, splitLines, if_neg (Ne.symm h.1), ih h.2]

/-- A line has no line feed, is no longer than the text and has its characters. -/
theorem mem_splitLines {t l : Text} (h : l ∈ splitLines t) :
    '\n' ∉ l ∧ l.length ≤ t.length ∧ ∀ c ∈ l, c ∈ t := by
  induction t generalizing l with
  | nil => simp [splitLines] at h
  | cons c t ih =>
    rw [splitLines] at h
    split_ifs at h with hc
    · rcases List.mem_cons.mp h with rfl | h
      · simp
      · obtain ⟨h₁, h₂, h₃⟩ := ih h
        exact ⟨h₁, Nat.le_succ_of_le h₂, fun x hx => List.mem_cons_of_mem c (h₃ x hx)⟩
    · rcases hs : splitLines t with _ | ⟨m, ls⟩
      · rw [hs] at h
        obtain rfl := List.mem_singleton.mp h
        simp [Ne.symm hc]
      · rw [hs] at h
        rcases List.mem_cons.mp h with rfl | h
        · obtain ⟨h₁, h₂, h₃⟩ := ih (hs ▸ List.mem_cons_self)
          refine ⟨?_, Nat.succ_le_succ h₂, ?_⟩
          · rw [List.mem_cons, not_or]
            exact ⟨Ne.symm hc, h₁⟩
          · intro x hx
            rcases List.mem_cons.mp hx with rfl | hx
            · exact List.mem_cons_self
            · exact List.mem_cons_of_mem c (h₃ x hx)
        · obtain ⟨h₁, h₂, h₃⟩ := ih (hs ▸ List.mem_cons_of_mem m h)
          exact ⟨h₁, Nat.le_succ_of_le h₂, fun x hx => List.mem_cons_of_mem c (h₃ x hx)⟩

/-- A text that ends with a line feed is made of its lines. -/
theorem joinLines_splitLines (t : Text) :
    joinLines (splitLines (t ++ ['\n'])) = t ++ ['\n'] := by
  induction t with
  | nil => rfl
  | cons c t ih =>
    rw [List.cons_append, splitLines]
    split_ifs with hc
    · rw [joinLines_cons, ih, hc, List.nil_append]
    · rcases h : splitLines (t ++ ['\n']) with _ | ⟨l, ls⟩
      · rw [h] at ih
        simp at ih
      · rw [h, joinLines_cons] at ih
        rw [joinLines_cons, List.cons_append, ih]

theorem joinLines_append (ls ms : List Text) :
    joinLines (ls ++ ms) = joinLines ls ++ joinLines ms :=
  List.flatMap_append

/-- The lines of a text that is given by pieces, each of which ends a line and may have line feeds
inside. -/
def subLines (ps : List Text) : List Text := ps.flatMap fun p => splitLines (p ++ ['\n'])

theorem joinLines_subLines (ps : List Text) : joinLines (subLines ps) = joinLines ps := by
  induction ps with
  | nil => rfl
  | cons p ps ih =>
    rw [subLines, List.flatMap_cons, ← subLines, joinLines_append, joinLines_splitLines, ih,
      joinLines_cons, List.append_assoc, List.singleton_append]

theorem subLines_eq_self {ps : List Text} (h : ∀ p ∈ ps, '\n' ∉ p) : subLines ps = ps := by
  induction ps with
  | nil => rfl
  | cons p ps ih =>
    rw [subLines, List.flatMap_cons, ← subLines, ih fun q hq => h q (List.mem_cons_of_mem p hq),
      splitLines_line (h p List.mem_cons_self)]
    rfl

end OpenPS2Loader
