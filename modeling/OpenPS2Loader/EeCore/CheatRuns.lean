import OpenPS2Loader.EeCore.CheatTurns

/-!
# Runs of the cheat engine

`CodeHandler` on a code list in which a program stands: it does what the program means, call after
call, whatever the game does to its memory in between. The list changes only where a condition of
type E becomes one of type D, and the program still stands in it.

## Main definitions

* `CheatEngine.Kept` — what is left of the code list
* `CheatEngine.frames` — the calls, and the game between them

## Main results

* `CheatEngine.chLoop_program` — the lines of a program, in any place of the list
* `CheatEngine.frames_program`
-/

namespace OpenPS2Loader

namespace CheatEngine

variable {s : State} {k n numcodes fuel fuel' : ℕ} {p : Program} {f g : ℕ → Line} {m : Mem}
  {r : Option (Mem × Bool)}

/-! ### The code list -/

theorem Stands.congr {l : List Line} (h : Stands f k l)
    (hfg : ∀ j, k ≤ j → j < k + l.length → g j = f j) : Stands g k l := by
  induction l generalizing k with
  | nil => trivial
  | cons x l ih =>
    rw [List.length_cons] at hfg
    refine ⟨?_, ih h.2 fun j hj hlt => hfg j (by omega) (by omega)⟩
    rw [hfg k le_rfl (by omega)]
    exact h.1

/-- A program stands in the list as long as its lines do. -/
theorem Holds.congr (h : Holds f k p) (hfg : ∀ j, k ≤ j → j < k + p.lines → g j = f j) :
    Holds g k p := by
  induction p generalizing k with
  | nil => trivial
  | code c rest ih =>
    rw [Program.lines] at hfg
    exact ⟨h.1.congr fun j hj hlt => hfg j hj (by omega),
      ih h.2 fun j hj hlt => hfg j (by omega) (by omega)⟩
  | only a v rest ih =>
    rw [Program.lines] at hfg
    refine ⟨?_, ih h.2 fun j hj hlt => hfg j (by omega) (by omega)⟩
    rw [hfg k le_rfl (by omega)]
    exact h.1
  | cond t o a body rest ihBody ihRest =>
    rw [Program.lines] at hfg
    obtain ⟨hline, hbody, hrest⟩ := h
    refine ⟨?_, ihBody hbody fun j hj hlt => hfg j (by omega) (by omega),
      ihRest hrest fun j hj hlt => hfg j (by omega) (by omega)⟩
    rw [hfg k le_rfl (by omega)]
    exact hline

/-! ### The loop -/

theorem chLoop_none (hk : k < numcodes) (h : turn s k = none) :
    chLoop numcodes fuel s k = none := by
  cases fuel with
  | zero => rw [chLoop, if_pos hk]
  | succ fuel => rw [chLoop, if_pos hk, h]

theorem chLoop_ret {s' : State} (hk : k < numcodes) (hfuel : numcodes ≤ k + fuel)
    (h : turn s k = some (s', .chRet)) : chLoop numcodes fuel s k = some s' := by
  cases fuel with
  | zero => omega
  | succ fuel => rw [chLoop, if_pos hk, h]

theorem chLoop_next {s' : State} {j : ℕ} (hk : k < numcodes) (hfuel : numcodes ≤ k + fuel)
    (h : turn s k = some (s', .next j)) :
    ∃ fuel', numcodes ≤ k + 1 + fuel' ∧
      chLoop numcodes fuel s k = chLoop numcodes fuel' s' (j + 1) := by
  cases fuel with
  | zero => omega
  | succ fuel =>
    refine ⟨fuel, by omega, ?_⟩
    rw [chLoop, if_pos hk, h]

theorem chLoop_end (h : numcodes ≤ k) : chLoop numcodes fuel s k = some s := by
  cases fuel <;> rw [chLoop, if_neg (by omega)]

/-- The program still stands there, and the rest of the list is as it was. -/
structure Kept (f : ℕ → Line) (k : ℕ) (p : Program) (g : ℕ → Line) : Prop where
  holds : Holds g k p
  same : ∀ j, j < k ∨ k + p.lines ≤ j → g j = f j

/-- What the loop makes of the lines of a program whose meaning is `r`. -/
def Does (numcodes fuel : ℕ) (s : State) (k : ℕ) (p : Program) : Option (Mem × Bool) → Prop
  | none => chLoop numcodes fuel s k = none
  | some (m, false) => ∃ f, Kept s.codelist k p f ∧ chLoop numcodes fuel s k = some ⟨f, m⟩
  | some (m, true) => ∃ f fuel', Kept s.codelist k p f ∧ numcodes ≤ k + p.lines + fuel' ∧
      chLoop numcodes fuel s k = chLoop numcodes fuel' ⟨f, m⟩ (k + p.lines)

/-- The lines that are left decide. -/
theorem Does.of_rest {s' : State} {j : ℕ} {q : Program} (h : Does numcodes fuel' s' j q r)
    (hloop : chLoop numcodes fuel s k = chLoop numcodes fuel' s' j)
    (hend : j + q.lines = k + p.lines)
    (hkept : ∀ g, Kept s'.codelist j q g → Kept s.codelist k p g) :
    Does numcodes fuel s k p r := by
  match r, h with
  | none, h => exact hloop.trans h
  | some (m, false), ⟨f, hf, h⟩ => exact ⟨f, hkept f hf, hloop.trans h⟩
  | some (m, true), ⟨f, fuel₂, hf, hfuel, h⟩ =>
    rw [hend] at hfuel h
    exact ⟨f, fuel₂, hkept f hf, hfuel, hloop.trans h⟩

theorem Code.lines_pos (c : Code) : 0 < c.lines.length := by
  cases c <;> simp [Code.lines]

theorem Kept.refl (h : Holds f k p) : Kept f k p f := ⟨h, fun _ _ => rfl⟩

theorem Holds.update {j : ℕ} (h : Holds f j p) (hk : k < j) (l : Line) :
    Holds (Function.update f k l) j p :=
  h.congr fun i hi _ => Function.update_of_ne (by omega) _ _

theorem Holds.after {j : ℕ} {q : Program} (h : Holds f j q) (hp : Kept f k p g)
    (hj : k + p.lines ≤ j) : Holds g j q :=
  h.congr fun i hi _ => hp.same i (.inr (hj.trans hi))

theorem Kept.code {c : Code} {rest : Program} (hcode : Stands f k c.lines)
    (hg : Kept f (k + c.lines.length) rest g) : Kept f k (.code c rest) g where
  holds := ⟨hcode.congr fun j _ hlt => hg.same j (.inl hlt), hg.holds⟩
  same j hj := by
    rw [Program.lines] at hj
    exact hg.same j (by omega)

theorem Kept.only {a : Addr} {v : UInt32} {rest : Program} (hline : f k = onlyLine a v)
    (hg : Kept f (k + 1) rest g) : Kept f k (.only a v rest) g where
  holds := ⟨(hg.same k (.inl (by omega))).trans hline, hg.holds⟩
  same j hj := by
    rw [Program.lines] at hj
    exact hg.same j (by omega)

/-- The line of the condition was written anew, and then the body and the rest were done. -/
theorem Kept.cond {t : Test} {o : Operand} {a : Addr} {body rest : Program} {l : Line}
    {f' : ℕ → Line} (hl : IsCond l t o a body.lines)
    (hbody : Kept (Function.update f k l) (k + 1) body f')
    (hg : Kept f' (k + 1 + body.lines) rest g) : Kept f k (.cond t o a body rest) g where
  holds := by
    refine ⟨?_, hbody.holds.congr fun j _ hlt => hg.same j (.inl hlt), hg.holds⟩
    rw [hg.same k (.inl (by omega)), hbody.same k (.inl (by omega)), Function.update_self]
    exact hl
  same j hj := by
    rw [Program.lines] at hj
    rw [hg.same j (by omega), hbody.same j (by omega), Function.update_of_ne (by omega)]

/-- The condition held: the body is done, and then the rest. -/
theorem Does.of_body {t : Test} {o : Operand} {a : Addr} {body rest : Program} {l : Line}
    (h : Does numcodes fuel' ⟨Function.update s.codelist k l, s.mem⟩ (k + 1) body r)
    (hl : IsCond l t o a body.lines) (hrest : Holds s.codelist (k + 1 + body.lines) rest)
    (hloop : chLoop numcodes fuel s k =
      chLoop numcodes fuel' ⟨Function.update s.codelist k l, s.mem⟩ (k + 1))
    (hdoes : ∀ {s' : State} {fuel₂ : ℕ}, Holds s'.codelist (k + 1 + body.lines) rest →
      numcodes ≤ k + 1 + body.lines + fuel₂ →
      Does numcodes fuel₂ s' (k + 1 + body.lines) rest (rest.exec s'.mem)) :
    Does numcodes fuel s k (.cond t o a body rest)
      (r.bind fun y => if y.2 then rest.exec y.1 else some (y.1, false)) := by
  have hrest' : Holds (Function.update s.codelist k l) (k + 1 + body.lines) rest :=
    hrest.update (by omega) l
  cases r with
  | none => exact hloop.trans h
  | some y =>
    obtain ⟨m, go⟩ := y
    cases go with
    | false =>
      -- A line of type C in the body ended the codes: the rest is not done.
      obtain ⟨f', hf', hstop⟩ := h
      exact ⟨f', .cond hl hf' (.refl (hrest'.after hf' le_rfl)), hloop.trans hstop⟩
    | true =>
      obtain ⟨f', fuel₂, hf', hfuel₂, hloop₂⟩ := h
      have hdoes₂ : Does numcodes fuel₂ ⟨f', m⟩ (k + 1 + body.lines) rest (rest.exec m) :=
        hdoes (hrest'.after hf' le_rfl) hfuel₂
      exact hdoes₂.of_rest (hloop.trans hloop₂) (by rw [Program.lines]; omega)
        fun _ => .cond hl hf'

/-- **The loop does what the program means.** -/
theorem chLoop_program (hw : p.Writable) (h : Holds s.codelist k p)
    (hn : k + p.lines ≤ numcodes) (hfuel : numcodes ≤ k + fuel) :
    Does numcodes fuel s k p (p.exec s.mem) := by
  induction p generalizing s k fuel with
  | nil => exact ⟨s.codelist, fuel, ⟨trivial, fun _ _ => rfl⟩, hfuel, rfl⟩
  | code c rest ih =>
    obtain ⟨hcode, hrest⟩ := h
    obtain ⟨hwc, hwr⟩ := hw
    have hpos := c.lines_pos
    rw [Program.lines] at hn
    have hturn := turn_code hcode hwc
    rw [Program.exec]
    cases hrun : c.run s.mem with
    | none =>
      rw [hrun] at hturn
      exact chLoop_none (by omega) hturn
    | some m =>
      rw [hrun] at hturn
      obtain ⟨fuel', hfuel', hloop⟩ := chLoop_next (by omega) hfuel hturn
      rw [show k + (c.lines.length - 1) + 1 = k + c.lines.length by omega] at hloop
      have hdoes : Does numcodes fuel' ⟨s.codelist, m⟩ (k + c.lines.length) rest (rest.exec m) :=
        ih hwr hrest (by omega) (by omega)
      exact hdoes.of_rest hloop (by rw [Program.lines]; omega) fun _ => .code hcode
  | only a v rest ih =>
    obtain ⟨hline, hrest⟩ := h
    rw [Program.lines] at hn
    have hturn := turn_only hline
    rw [Program.exec]
    cases hload : lw s.mem a.word with
    | none =>
      rw [hload] at hturn
      exact chLoop_none (by omega) hturn
    | some x =>
      rw [hload, Option.map_some] at hturn
      rw [Option.bind_some]
      split_ifs with hx
      · rw [if_pos hx] at hturn
        obtain ⟨fuel', hfuel', hloop⟩ := chLoop_next (by omega) hfuel hturn
        have hdoes : Does numcodes fuel' s (k + 1) rest (rest.exec s.mem) :=
          ih hw hrest (by omega) (by omega)
        exact hdoes.of_rest hloop (by rw [Program.lines]; omega) fun _ => .only hline
      · rw [if_neg hx] at hturn
        exact ⟨s.codelist, .refl ⟨hline, hrest⟩, chLoop_ret (by omega) hfuel hturn⟩
  | cond t o a body rest ihBody ihRest =>
    obtain ⟨hline, hbody, hrest⟩ := h
    obtain ⟨hpos, hsize, hwb, hwr⟩ := hw
    rw [Program.lines] at hn
    obtain ⟨l, hl, hturn⟩ := turn_cond hline hsize hpos
    have hbody' : Holds (Function.update s.codelist k l) (k + 1) body :=
      hbody.update (by omega) l
    rw [Program.exec]
    cases hload : o.load s.mem a.word with
    | none =>
      rw [hload] at hturn
      exact chLoop_none (by omega) hturn
    | some x =>
      rw [hload, Option.map_some] at hturn
      rw [Option.bind_some]
      split_ifs with htest
      · rw [if_pos htest] at hturn
        obtain ⟨fuel₁, hfuel₁, hloop₁⟩ := chLoop_next (by omega) hfuel hturn
        have hdoes : Does numcodes fuel₁ ⟨Function.update s.codelist k l, s.mem⟩ (k + 1) body
            (body.exec s.mem) := ihBody hwb hbody' (by omega) hfuel₁
        exact hdoes.of_body hl hrest hloop₁ fun hr hfuel₂ => ihRest hwr hr (by omega) hfuel₂
      · -- The lines of the body are gone over; they stand as they did.
        rw [if_neg htest] at hturn
        obtain ⟨fuel₁, hfuel₁, hloop₁⟩ := chLoop_next (by omega) hfuel hturn
        rw [show k + body.lines + 1 = k + 1 + body.lines by omega] at hloop₁
        have hdoes : Does numcodes fuel₁ ⟨Function.update s.codelist k l, s.mem⟩
            (k + 1 + body.lines) rest (rest.exec s.mem) :=
          ihRest hwr (hrest.update (by omega) l) (by omega) (by omega)
        exact hdoes.of_rest hloop₁ (by rw [Program.lines]; omega)
          fun _ => .cond hl (.refl hbody')

/-! ### Calls -/

/-- **A call does what the program means.** -/
theorem codeHandler_program (hw : p.Writable) (h : Holds s.codelist 0 p) :
    (codeHandler p.lines s).map State.mem = (p.exec s.mem).map Prod.fst ∧
      ∀ s' ∈ codeHandler p.lines s, Kept s.codelist 0 p s'.codelist := by
  have hdoes : Does p.lines p.lines s 0 p (p.exec s.mem) :=
    chLoop_program hw h (by omega) (by omega)
  rw [codeHandler]
  cases hexec : p.exec s.mem with
  | none =>
    rw [hexec] at hdoes
    have hnone : chLoop p.lines p.lines s 0 = none := hdoes
    simp [hnone]
  | some y =>
    obtain ⟨m, go⟩ := y
    rw [hexec] at hdoes
    have hsome : ∃ f, Kept s.codelist 0 p f ∧ chLoop p.lines p.lines s 0 = some ⟨f, m⟩ := by
      cases go with
      | false => exact hdoes
      | true =>
        obtain ⟨f, fuel, hf, -, hloop⟩ := hdoes
        exact ⟨f, hf, hloop.trans (chLoop_end (by omega))⟩
    obtain ⟨f, hf, hloop⟩ := hsome
    simp [hloop, hf]

/-- `CodeHandler` is called many times a second, and between the calls the game runs. -/
def frames (numcodes : ℕ) (s : State) (games : List (Mem → Mem)) : Option State :=
  games.foldlM (fun s game => codeHandler numcodes { s with mem := game s.mem }) s

theorem Kept.trans {f' : ℕ → Line} (h : Kept f k p g) (h' : Kept g k p f') : Kept f k p f' where
  holds := h'.holds
  same j hj := (h'.same j hj).trans (h.same j hj)

theorem frames_cons (n : ℕ) (s : State) (game : Mem → Mem) (games : List (Mem → Mem)) :
    frames n s (game :: games) =
      (codeHandler n { s with mem := game s.mem }).bind fun s' => frames n s' games := by
  rw [frames, List.foldlM_cons]
  rfl

theorem frames_kept (hw : p.Writable) (h : Holds s.codelist 0 p) (games : List (Mem → Mem)) :
    ∀ s' ∈ frames p.lines s games, Kept s.codelist 0 p s'.codelist := by
  induction games generalizing s with
  | nil => simp [frames, Kept.refl h]
  | cons game games ih =>
    intro s' hs'
    rw [frames_cons] at hs'
    obtain ⟨s₁, hcall, hrun⟩ := Option.bind_eq_some_iff.mp hs'
    have hkept : Kept s.codelist 0 p s₁.codelist :=
      (codeHandler_program (s := { s with mem := game s.mem }) hw h).2 s₁ hcall
    exact hkept.trans (ih hkept.holds s' hrun)

theorem frames_mem (hw : p.Writable) (h : Holds s.codelist 0 p) (games : List (Mem → Mem)) :
    (frames p.lines s games).map State.mem =
      games.foldlM (fun m game => (p.exec (game m)).map Prod.fst) s.mem := by
  induction games generalizing s with
  | nil => rfl
  | cons game games ih =>
    obtain ⟨hmem, hkept⟩ := codeHandler_program (s := { s with mem := game s.mem }) hw h
    rw [frames_cons, List.foldlM_cons, ← hmem]
    cases hcall : codeHandler p.lines { s with mem := game s.mem } with
    | none => rfl
    | some s₁ => exact ih (hkept s₁ hcall).holds

/-- **In every frame the codes are done as they are meant.** -/
theorem frames_program (hw : p.Writable) (h : Holds s.codelist 0 p) (games : List (Mem → Mem)) :
    (frames p.lines s games).map State.mem =
        games.foldlM (fun m game => (p.exec (game m)).map Prod.fst) s.mem ∧
      ∀ s' ∈ frames p.lines s games, Kept s.codelist 0 p s'.codelist :=
  ⟨frames_mem hw h games, frames_kept hw h games⟩

/-- If the byte at `0x100` is 5, a byte is written; then three words are. -/
def sampleProgram : Program :=
  .cond .equal (.byte 5) 0x100 (.code (.write .byte 0x200 0x77) .nil)
    (.code (.serial 0x400 3 1 1 2) .nil)

/-- Its lines. The condition has the form of type E. -/
def sampleList : List Line :=
  [(0xe1010005, 0x00000100), (0x00000200, 0x00000077), (0x40000400, 0x00030001), (1, 2)]

theorem sample_holds : Holds (fun k => sampleList.getD k (0, 0)) 0 sampleProgram :=
  ⟨⟨1, .inl rfl, .inr (by decide)⟩, ⟨⟨by decide, trivial⟩, trivial⟩,
    ⟨by decide, by decide, trivial⟩, trivial⟩

theorem sample_writable : sampleProgram.Writable :=
  ⟨by decide, by decide, ⟨by simp [Code.Writable], trivial⟩, trivial, trivial⟩

/-- The game keeps 5 at `0x100`. -/
def sampleMem : Mem := fun a => if a = 0x100 then 5 else 0

theorem frames_program_sample :
    ((frames 4 ⟨fun k => sampleList.getD k (0, 0), sampleMem⟩ [id, id]).map State.mem).map
      (fun m => (m 0x200, m 0x408)) = some (0x77, 5) := by
  have hframes := (frames_program (s := ⟨fun k => sampleList.getD k (0, 0), sampleMem⟩)
    sample_writable sample_holds [id, id]).1
  have hlines : sampleProgram.lines = 4 := rfl
  rw [hlines] at hframes
  rw [hframes]
  decide

end CheatEngine

end OpenPS2Loader
