import Mathlib.Data.List.Chain
import OpenPS2Loader.Cheats.Flatten
import OpenPS2Loader.EeCore.CheatRuns

/-!
# The lists of the cheat engine

`cheat_api.c`: `SetupCheats` divides `gCheatList`, which the loader has filled, into the hook list
and the code list of the engine. A line that looks like a hook is none behind a line of type 3 or 4,
which may have a second line with any value. A line of zeros is the end of the list.

## Main definitions

* `CheatEngine.setupCheats`
* `Program.Loadable` — no line of the program looks like a hook, or like the end

## Main results

* `CheatEngine.setupCheats_program` — from `gCheatList` to what the codes do
-/

namespace OpenPS2Loader

namespace CheatEngine

open WordFields

variable {s : State} {k n t : ℕ} {p : Program} {f g : ℕ → Line} {m : Mem}

/-! ### `SetupCheats` -/

/-- `MAX_HOOKS` -/
def maxHooks : ℕ := 5

/-- A line of this address is a hook. -/
def IsHook (addr : UInt32) : Prop := addr &&& 0xfe000000 = 0x90000000

instance (addr : UInt32) : Decidable (IsHook addr) := inferInstanceAs (Decidable (_ = _))

/-- The line behind it is no hook: "Discard any false positives from being possible hooks". -/
def BlocksHook (addr : UInt32) : Prop :=
  addr &&& 0xf0000000 = 0x40000000 ∨ addr &&& 0xf0000000 = 0x30000000

instance (addr : UInt32) : Decidable (BlocksHook addr) := inferInstanceAs (Decidable (_ ∨ _))

/-- `hooklist`, `codelist` and `nextCodeCanBeHook`. -/
structure Setup where
  hooklist : List Line
  codelist : List Line
  nextCodeCanBeHook : Bool

/-- The loop of `SetupCheats`, over the words that are left. -/
def setupLoop : List UInt32 → Setup → Setup
  | addr :: val :: rest, st =>
    if addr = 0 ∧ val = 0 then st
    else if IsHook addr ∧ st.nextCodeCanBeHook = true then
      if 2 * st.hooklist.length + 2 > maxHooks * 2 then st
      else
        setupLoop rest { st with
          hooklist := st.hooklist ++ [(addr &&& 0x01FFFFFC, val)]
          nextCodeCanBeHook := !decide (BlocksHook addr) }
    else
      if 2 * st.codelist.length + 2 > Cheats.maxCodes * 2 then st
      else
        setupLoop rest { st with
          codelist := st.codelist ++ [(addr, val)]
          nextCodeCanBeHook := !decide (BlocksHook addr) }
  | _, st => st

/-- `SetupCheats` -/
def setupCheats (gCheatList : List UInt32) : Setup := setupLoop gCheatList ⟨[], [], true⟩

/-- `numcodes` -/
def Setup.numcodes (st : Setup) : ℕ := st.codelist.length

/-- The code list of the engine, with zeros behind what was set. -/
def Setup.lineAt (st : Setup) (k : ℕ) : Line := st.codelist.getD k (0, 0)

/-- The words of a code. -/
def lineOf (c : Cheats.Code) : Line := (c.addr, c.val)

/-- The words of a hook. -/
def hookOf (c : Cheats.Code) : Line := (c.addr &&& 0x01FFFFFC, c.val)

/-! ### Hooks and codes -/

theorem IsHook.type {addr : UInt32} (h : IsHook addr) : (addr >>> 28).toNat = 9 := by
  have hshift : (addr >>> 28) &&& 0xf = 9 := by
    have hmask : (addr &&& 0xfe000000) >>> 28 = (0x90000000 : UInt32) >>> 28 := by rw [h]
    rw [UInt32.shiftRight_and] at hmask
    exact hmask
  have hlt : (addr >>> 28).toNat < 2 ^ 4 := by
    have := addr.toNat_lt
    rw [UInt32.toNat_shiftRight, Nat.shiftRight_eq_div_pow]
    exact Nat.div_lt_of_lt_mul this
  have hnat := congrArg UInt32.toNat hshift
  rw [UInt32.toNat_and] at hnat
  have hlow : (addr >>> 28).toNat &&& 15 = (addr >>> 28).toNat % 2 ^ 4 :=
    Nat.and_two_pow_sub_one_eq_mod _ 4
  rw [show (0xf : UInt32).toNat = 15 from rfl, hlow, Nat.mod_eq_of_lt hlt] at hnat
  exact hnat

theorem IsHook.not_blocks {addr : UInt32} (h : IsHook addr) : ¬BlocksHook addr := by
  have hmask : addr &&& 0xf0000000 = 0x90000000 := by
    have hand : addr &&& 0xfe000000 &&& 0xf0000000 = (0x90000000 : UInt32) &&& 0xf0000000 := by
      rw [h]
    rw [UInt32.and_assoc] at hand
    exact hand
  intro hb
  rcases hb with hb | hb <;> rw [hmask] at hb <;> exact absurd hb (by decide)

theorem IsHook.ne_zero {addr : UInt32} (h : IsHook addr) : addr ≠ 0 := by
  rintro rfl
  exact absurd h (by decide)

theorem first_not_hook (ht : t < 16) (hp : n < 2 ^ 28) (h : t ≠ 9) : ¬IsHook (first t n) := by
  intro hhook
  have h9 := hhook.type
  rw [first_type ht hp] at h9
  exact h h9

/-- A line of type 3 or 4 guards the line behind it. -/
theorem first_blocks (ht : t = 3 ∨ t = 4) (hp : n < 2 ^ 28) : BlocksHook (first t n) := by
  have hor : first t n = UInt32.ofNat n ||| UInt32.ofNat (t * 2 ^ 28) :=
    (ofNat_or (by omega) hp).symm
  have hlow : UInt32.ofNat n &&& 0xf0000000 = 0 := by
    have hkeep : UInt32.ofNat n &&& UInt32.ofNat (2 ^ 28 - 1) = UInt32.ofNat n := by
      rw [ofNat_and (by omega) (by decide), Nat.mod_eq_of_lt hp]
    rw [← hkeep, UInt32.and_assoc]
    exact UInt32.and_zero
  have hdistrib (x y z : UInt32) : (x ||| y) &&& z = x &&& z ||| y &&& z :=
    UInt32.toBitVec_inj.mp BitVec.and_or_distrib_right
  have hmask : first t n &&& 0xf0000000 = UInt32.ofNat (t * 2 ^ 28) &&& 0xf0000000 := by
    rw [hor, hdistrib, hlow, UInt32.zero_or]
  rcases ht with rfl | rfl
  · exact .inr hmask
  · exact .inl hmask

/-! ### What the loop does -/

/-- The hooks that stand in front go to the hook list. -/
theorem setupLoop_hooks (hooks : List Cheats.Code) (rest : List UInt32) {st : Setup}
    (hh : ∀ c ∈ hooks, IsHook c.addr) (hst : st.nextCodeCanBeHook = true)
    (hroom : st.hooklist.length + hooks.length ≤ maxHooks) :
    setupLoop (Cheats.words hooks ++ rest) st =
      setupLoop rest { st with hooklist := st.hooklist ++ hooks.map hookOf } := by
  induction hooks generalizing st with
  | nil => simp [Cheats.words]
  | cons c hooks ih =>
    have hc := hh c List.mem_cons_self
    rw [List.length_cons] at hroom
    have hwords : Cheats.words (c :: hooks) ++ rest =
        c.addr :: c.val :: (Cheats.words hooks ++ rest) := rfl
    rw [hwords, setupLoop, if_neg fun h0 => hc.ne_zero h0.1, if_pos ⟨hc, hst⟩,
      if_neg (by rw [maxHooks] at *; omega), ih (fun d hd => hh d (List.mem_cons_of_mem c hd))]
    · simp [hookOf, hst, hc.not_blocks]
    · simp [hc.not_blocks]
    · simp
      omega

/-- The codes go to the code list, until the end of `gCheatList`. -/
theorem setupLoop_codes (codes : List Cheats.Code) (zeros : ℕ) {st : Setup}
    (hne : ∀ c ∈ codes, lineOf c ≠ (0, 0))
    (hchain : codes.IsChain fun c d => IsHook d.addr → BlocksHook c.addr)
    (hst : st.nextCodeCanBeHook = true → ∀ c ∈ codes.head?, ¬IsHook c.addr)
    (hroom : st.codelist.length + codes.length ≤ Cheats.maxCodes) :
    (setupLoop (Cheats.words codes ++ List.replicate zeros 0) st).hooklist = st.hooklist ∧
      (setupLoop (Cheats.words codes ++ List.replicate zeros 0) st).codelist =
        st.codelist ++ codes.map lineOf := by
  induction codes generalizing st with
  | nil =>
    match zeros with
    | 0 => simp [Cheats.words, setupLoop]
    | 1 => simp [Cheats.words, setupLoop]
    | zeros + 2 => simp [Cheats.words, setupLoop, List.replicate_succ]
  | cons c codes ih =>
    rw [List.length_cons] at hroom
    have hwords : Cheats.words (c :: codes) ++ List.replicate zeros 0 =
        c.addr :: c.val :: (Cheats.words codes ++ List.replicate zeros 0) := rfl
    have hc : ¬(c.addr = 0 ∧ c.val = 0) := fun h0 =>
      hne c List.mem_cons_self (Prod.ext h0.1 h0.2)
    have hhook : ¬(IsHook c.addr ∧ st.nextCodeCanBeHook = true) := fun h => hst h.2 c rfl h.1
    rw [hwords, setupLoop, if_neg hc, if_neg hhook, if_neg (by omega)]
    obtain ⟨hhead, htail⟩ := List.isChain_cons.mp hchain
    have hguard : (!decide (BlocksHook c.addr)) = true → ∀ d ∈ codes.head?, ¬IsHook d.addr :=
      fun hb d hd hhook => by simp [hhead d hd hhook] at hb
    obtain ⟨hhooks, hcodes⟩ :
        (setupLoop (Cheats.words codes ++ List.replicate zeros 0)
            ⟨st.hooklist, st.codelist ++ [lineOf c], !decide (BlocksHook c.addr)⟩).hooklist =
          st.hooklist ∧
        (setupLoop (Cheats.words codes ++ List.replicate zeros 0)
            ⟨st.hooklist, st.codelist ++ [lineOf c], !decide (BlocksHook c.addr)⟩).codelist =
          st.codelist ++ [lineOf c] ++ codes.map lineOf :=
      ih (fun d hd => hne d (List.mem_cons_of_mem c hd)) htail hguard (by simp; omega)
    refine ⟨hhooks, hcodes.trans ?_⟩
    simp [lineOf]

/-- Each line goes to its list. -/
theorem setupCheats_lists {hooks codes : List Cheats.Code} (hhooks : hooks.length ≤ maxHooks)
    (hh : ∀ c ∈ hooks, IsHook c.addr) (hcodes : codes.length ≤ Cheats.maxCodes)
    (hne : ∀ c ∈ codes, lineOf c ≠ (0, 0))
    (hchain : codes.IsChain fun c d => IsHook d.addr → BlocksHook c.addr)
    (hhead : ∀ c ∈ codes.head?, ¬IsHook c.addr) :
    (setupCheats (Cheats.listOf (hooks ++ codes))).hooklist = hooks.map hookOf ∧
      (setupCheats (Cheats.listOf (hooks ++ codes))).codelist = codes.map lineOf := by
  rw [setupCheats, Cheats.listOf, Cheats.words_append, List.append_assoc,
    setupLoop_hooks hooks _ hh rfl (by simpa using hhooks)]
  exact setupLoop_codes codes _ hne hchain (fun _ => hhead) (by simpa using hcodes)

/-! ### Programs -/

/-- A code whose lines do not look like a hook, or like the end of the list. -/
def Code.Loadable : Code → Prop
  | .addWord v _ _ => v ≠ 0
  | .serial _ _ _ v i => v ≠ 0 ∨ i ≠ 0
  | .copy _ _ d => d ≠ 0 ∧ ¬IsHook d
  | .pointer w _ _ i => w ≠ .byte ∨ i ≠ 0
  | .nothing l => l ≠ (0, 0) ∧ ¬IsHook l.1
  | _ => True

def Program.Loadable : Program → Prop
  | .nil => True
  | .code c rest => c.Loadable ∧ rest.Loadable
  | .only _ _ rest => rest.Loadable
  | .cond _ _ _ body rest => body.Loadable ∧ rest.Loadable

/-- Line `j` is not the end, and no hook, or one behind a line from `k` on that says so. -/
def Loads (f : ℕ → Line) (k j : ℕ) : Prop :=
  f j ≠ (0, 0) ∧ (IsHook (f j).1 → k < j ∧ BlocksHook (f (j - 1)).1)

theorem Loads.mono {j i : ℕ} (h : Loads f k j) (hi : i ≤ k) : Loads f i j :=
  ⟨h.1, fun hhook => ⟨Nat.lt_of_le_of_lt hi (h.2 hhook).1, (h.2 hhook).2⟩⟩

theorem loads_first {v : UInt32} (h : f k = (first t n, v)) (ht : t < 16) (hn : n < 2 ^ 28)
    (h9 : t ≠ 9) (hne : t ≠ 0 ∨ n ≠ 0) : Loads f k k := by
  refine ⟨fun h0 => first_ne_zero ht hn hne ?_, fun hhook => absurd hhook ?_⟩
  · rw [h] at h0
    exact congrArg Prod.fst h0
  · rw [h]
    exact first_not_hook ht hn h9

/-- A second line. -/
theorem loads_second {x y v : UInt32} (h : f k = (first t n, v)) (h' : f (k + 1) = (x, y))
    (hn : n < 2 ^ 28) (hne : x ≠ 0 ∨ y ≠ 0) (hhook : IsHook x → t = 3 ∨ t = 4) :
    Loads f k (k + 1) := by
  refine ⟨fun h0 => ?_, fun hx => ⟨k.lt_succ_self, ?_⟩⟩
  · rw [h', Prod.mk.injEq] at h0
    rcases hne with hx | hy
    · exact hx h0.1
    · exact hy h0.2
  · rw [h'] at hx
    rw [Nat.add_sub_cancel, h]
    exact first_blocks (hhook hx) hn

/-- One line, or two. -/
theorem loads_one {j : ℕ} (h : Loads f k k) (hj : k ≤ j) (hlt : j < k + 1) : Loads f k j := by
  obtain rfl : j = k := by omega
  exact h

theorem loads_pair {j : ℕ} (h₀ : Loads f k k) (h₁ : Loads f k (k + 1)) (hj : k ≤ j)
    (hlt : j < k + 2) : Loads f k j := by
  obtain rfl | rfl : j = k ∨ j = k + 1 := by omega
  · exact h₀
  · exact h₁

theorem Code.loads {c : Code} (hw : c.Writable) (hl : c.Loadable) (h : Stands f k c.lines) :
    ∀ j, k ≤ j → j < k + c.lines.length → Loads f k j := by
  intro j hj hlt
  cases c with
  | write w a v =>
    have ha := a.isLt
    have htype : w.code < 16 ∧ w.code ≠ 9 := by cases w <;> decide
    exact loads_one (loads_first h.1 htype.1 (by omega) htype.2 (write_ne_zero hw)) hj hlt
  | add o dec a =>
    have hv := o.val_lt
    have hq := add_code_lt o dec
    exact loads_one (loads_first h.1 (by decide) (by omega) (by decide) (.inl (by decide))) hj hlt
  | addWord v dec a =>
    have hq := addWord_code_lt dec
    exact loads_pair (loads_first h.1 (by decide) (by omega) (by decide) (.inl (by decide)))
      (loads_second h.1 h.2.1 (by omega) (.inl hl) fun _ => .inl rfl) hj hlt
  | serial a n₀ s₀ v i =>
    have ha := a.isLt
    exact loads_pair (loads_first h.1 (by decide) (by omega) (by decide) (.inl (by decide)))
      (loads_second h.1 h.2.1 (by omega) hl fun _ => .inr rfl) hj hlt
  | copy a n₀ d =>
    have ha := a.isLt
    exact loads_pair (loads_first h.1 (by decide) (by omega) (by decide) (.inl (by decide)))
      (loads_second h.1 h.2.1 (by omega) (.inl hl.1) fun hd => absurd hd hl.2) hj hlt
  | pointer w a v i =>
    have ha := a.isLt
    have hne : UInt32.ofNat (w.code * 2 ^ 16) ≠ 0 ∨ i ≠ 0 := by
      refine hl.imp_left fun hw' => ?_
      cases w with
      | byte => exact absurd rfl hw'
      | half => decide
      | word => decide
    have hhook : ¬IsHook (UInt32.ofNat (w.code * 2 ^ 16)) := by cases w <;> decide
    exact loads_pair (loads_first h.1 (by decide) (by omega) (by decide) (.inl (by decide)))
      (loads_second h.1 h.2.1 (by omega) hne fun hx => absurd hx hhook) hj hlt
  | bool op o a =>
    have ha := a.isLt
    exact loads_one (loads_first h.1 (by decide) (by omega) (by decide) (.inl (by decide))) hj hlt
  | nothing l =>
    obtain ⟨rfl, -⟩ := h
    have hload : Loads f k k := ⟨hl.1, fun hhook => absurd hhook hl.2⟩
    exact loads_one hload hj hlt

theorem loads_cond {t : Test} {o : Operand} {a : Addr} (h : IsCond (f k) t o a n)
    (hn : n < 2 ^ 8) : Loads f k k := by
  obtain ⟨nn, hcount, hline⟩ := h
  have ha := a.isLt
  have hb := o.testCode_lt
  have hv := o.val_lt
  rcases hline with hline | hline
  · exact loads_first hline (by decide) (by omega) (by decide) (.inl (by decide))
  · exact loads_first hline (by decide) (by omega) (by decide) (.inl (by decide))

theorem Program.loads (hw : p.Writable) (hl : p.Loadable) (h : Holds f k p) :
    ∀ j, k ≤ j → j < k + p.lines → Loads f k j := by
  induction p generalizing k with
  | nil =>
    intro j hj hlt
    rw [Program.lines] at hlt
    omega
  | code c rest ih =>
    intro j hj hlt
    rw [Program.lines] at hlt
    by_cases hc : j < k + c.lines.length
    · exact c.loads hw.1 hl.1 h.1 j hj hc
    · exact (ih hw.2 hl.2 h.2 j (by omega) (by omega)).mono (by omega)
  | only a v rest ih =>
    intro j hj hlt
    rw [Program.lines] at hlt
    have ha := a.isLt
    rcases hj.eq_or_lt with rfl | hj
    · exact loads_first h.1 (by decide) (by omega) (by decide) (.inl (by decide))
    · exact (ih hw hl h.2 j (by omega) (by omega)).mono (by omega)
  | cond t o a body rest ihBody ihRest =>
    intro j hj hlt
    obtain ⟨hline, hbody, hrest⟩ := h
    obtain ⟨-, hsize, hwb, hwr⟩ := hw
    rw [Program.lines] at hlt
    rcases hj.eq_or_lt with rfl | hj
    · exact loads_cond hline hsize
    · by_cases hb : j < k + 1 + body.lines
      · exact (ihBody hwb hl.1 hbody j (by omega) hb).mono (by omega)
      · exact (ihRest hwr hl.2 hrest j (by omega) (by omega)).mono (by omega)

/-- The codes as lines of a code list. -/
def listing (codes : List Cheats.Code) (k : ℕ) : Line := (codes.map lineOf).getD k (0, 0)

theorem listing_getElem {codes : List Cheats.Code} (hk : k < codes.length) :
    listing codes k = lineOf codes[k] := by
  simp [listing, hk]

/-- **`SetupCheats` loads what `CodeHandler` does.** Hooks stand in front, and then the lines of a
program. -/
theorem setupCheats_program {hooks codes : List Cheats.Code} (hhooks : hooks.length ≤ maxHooks)
    (hh : ∀ c ∈ hooks, IsHook c.addr) (hcodes : codes.length ≤ Cheats.maxCodes)
    (hw : p.Writable) (hl : p.Loadable) (hp : Holds (listing codes) 0 p)
    (hlen : p.lines = codes.length) (m : Mem) (games : List (Mem → Mem)) :
    (setupCheats (Cheats.listOf (hooks ++ codes))).hooklist = hooks.map hookOf ∧
      (frames (setupCheats (Cheats.listOf (hooks ++ codes))).numcodes
          ⟨(setupCheats (Cheats.listOf (hooks ++ codes))).lineAt, m⟩ games).map State.mem =
        games.foldlM (fun m game => (p.exec (game m)).map Prod.fst) m := by
  have hloads : ∀ j (hj : j < codes.length), Loads (listing codes) 0 j := fun j hj =>
    p.loads hw hl hp j (by omega) (by omega)
  have hne : ∀ c ∈ codes, lineOf c ≠ (0, 0) := by
    intro c hc
    obtain ⟨j, hj, rfl⟩ := List.mem_iff_getElem.mp hc
    rw [← listing_getElem hj]
    exact (hloads j hj).1
  have hchain : codes.IsChain fun c d => IsHook d.addr → BlocksHook c.addr := by
    rw [List.isChain_iff_getElem]
    intro j hj hhook
    have hline := (hloads (j + 1) hj).2
    rw [listing_getElem hj, Nat.add_sub_cancel, listing_getElem (by omega)] at hline
    exact (hline hhook).2
  have hhead : ∀ c ∈ codes.head?, ¬IsHook c.addr := by
    intro c hc hhook
    cases codes with
    | nil => cases hc
    | cons d codes =>
      cases hc
      exact absurd ((hloads 0 (by simp)).2 hhook).1 (by omega)
  obtain ⟨hsetHooks, hsetCodes⟩ := setupCheats_lists hhooks hh hcodes hne hchain hhead
  have hnum : (setupCheats (Cheats.listOf (hooks ++ codes))).numcodes = p.lines := by
    rw [Setup.numcodes, hsetCodes, List.length_map, hlen]
  have hline : (setupCheats (Cheats.listOf (hooks ++ codes))).lineAt = listing codes := by
    funext k
    rw [Setup.lineAt, hsetCodes, listing]
  refine ⟨hsetHooks, ?_⟩
  rw [hnum, hline]
  exact frames_mem (s := ⟨listing codes, m⟩) hw hp games

/-- The lines of `sampleList`, as codes. -/
def sampleCodes : List Cheats.Code :=
  [⟨0xe1010005, 0x00000100⟩, ⟨0x00000200, 0x00000077⟩, ⟨0x40000400, 0x00030001⟩, ⟨1, 2⟩]

theorem sample_loadable : sampleProgram.Loadable :=
  ⟨⟨trivial, trivial⟩, .inl (by decide), trivial⟩

theorem sample_listed : Holds (listing sampleCodes) 0 sampleProgram := sample_holds

theorem setupCheats_program_sample :
    ((frames (setupCheats (Cheats.listOf ([⟨0x90123458, 7⟩] ++ sampleCodes))).numcodes
        ⟨(setupCheats (Cheats.listOf ([⟨0x90123458, 7⟩] ++ sampleCodes))).lineAt, sampleMem⟩
        [id, id]).map State.mem).map (fun m => (m 0x200, m 0x408)) = some (0x77, 5) := by
  rw [(setupCheats_program (by decide) (by decide) (by decide) sample_writable sample_loadable
    sample_listed rfl sampleMem [id, id]).2]
  decide

end CheatEngine

end OpenPS2Loader
