import Mathlib.Data.List.OfFn
import Mathlib.Tactic.SplitIfs
import OpenPS2Loader.Http.Stream
import OpenPS2Loader.Lib.Bytes
import OpenPS2Loader.Lib.CString

/-!
# Responses to compatibility requests

`modules/network/httpclient/httpclient.c`: `HttpGetResponse` receives a response through a window of
256 bytes on the stack. Every round of its loop receives behind what is left of the window, looks
for line ends with `strstr`, and moves an unfinished line to the front.

Nothing terminates what was received: behind it stands what the stack or an earlier round left, and
the search goes on into it up to the first NUL. And the blank line is only looked for right behind a
line end, in the window as it is then. So the outcome can depend on how the network cuts the
response up.

## Main definitions

* `httpParseEntityLine`, `scanLines`, `round`, `headerLoop` — the header
* `httpGetResponse` — the whole call
* `Response` — a response that is within the limits
* `RoundOk` — a round whose received bytes decide where its lines end
* `Sound` — what a caller may rely on

## Main results

* `round_spec`, `headerLoop_spec` — a round, and the loop
* `httpGetResponse_sound` — a call all of whose rounds are of that kind is sound
-/

namespace OpenPS2Loader

namespace HttpLegacy

open HttpStream (Conn recvBounded)

/-- The end of a line. -/
def crlf : Text := ['\r', '\n']

/-- `GetData`. A receive that delivers less than was asked for ends its loop, so it makes one. -/
def getData (conn : Conn) (length : ℤ) : Text × Conn :=
  if length ≤ 0 then ([], conn) else recvBounded conn length.toNat

/-! ### Header lines -/

/-- `HTTP_CMODE_*`. -/
inductive Mode
  | closed
  | persistent
  deriving DecidableEq, Repr

/-- What the header lines leave: `ContentLength`, `StatusCode`, `HeaderLineNumber`,
`ConnectionMode`. -/
structure Entity where
  contentLength : ℤ
  statusCode : ℤ
  lineNumber : ℕ
  mode : Mode
  deriving DecidableEq, Repr

/-- The loop that lowers the letters behind the first colon. What it does to a letter is up to the
character table of the system. -/
def lowerValue (lower : Char → Char) : Text → Text
  | [] => []
  | c :: t => if c = ':' then c :: t.map lower else c :: lowerValue lower t

/-- The value of the digits at the start of a text, in front of which `v` was read. -/
def digits (v : ℕ) : Text → ℕ
  | [] => v
  | c :: t => if c.isDigit then digits (v * 10 + (c.toNat - 48)) t else v

/-- The sign of a number, and what follows it. -/
def sign : Text → Bool × Text
  | '-' :: t => (true, t)
  | '+' :: t => (false, t)
  | t => (false, t)

/-- `strtoul(t, NULL, 10)`. -/
def strtoul (t : Text) : ℕ :=
  let (negative, t) := sign (t.dropWhile isspace)
  let v := digits 0 t
  if 2 ^ 32 ≤ v then 2 ^ 32 - 1 else if negative then (2 ^ 32 - v) % 2 ^ 32 else v

/-- `HttpParseEntityLine`. -/
def httpParseEntityLine (lower : Char → Char) (e : Entity) (line : Text) : Entity :=
  let line := lowerValue lower line
  { statusCode :=
      if e.lineNumber = 0 ∧ line.take 9 = "HTTP/1.1 ".toList then
        (strtoul (line.drop 9) : ℤ).bmod (2 ^ 16)
      else e.statusCode
    contentLength :=
      if line.take 16 = "Content-Length: ".toList then
        (strtoul (line.drop 15) : ℤ).bmod (2 ^ 32)
      else e.contentLength
    mode := if line = "Connection: close".toList then .closed else e.mode
    lineNumber := (e.lineNumber + 1) % 2 ^ 16 }

/-! ### The window -/

/-- The variables of the header loop. -/
structure Work where
  mem : Text
  ptr : ℕ
  avail : ℤ
  entity : Entity
  /-- the lines handed to `HttpParseEntityLine` -/
  parsed : List Text
  deriving DecidableEq

/-- The lines of the window, and whether the blank line was found. -/
def scanLines (lower : Char → Char) : ℕ → Work → Work × Bool
  | 0, w => (w, false)
  | fuel + 1, w =>
    match Text.find crlf (cstr (w.mem.drop w.ptr)) with
    | none => (w, false)
    | some k =>
      let line := (w.mem.drop w.ptr).take k
      let w :=
        { mem := Bytes.overwrite w.mem w.ptr (lowerValue lower line ++ [nul])
          ptr := w.ptr + (k + 2)
          avail := w.avail - (k + 2 : ℕ)
          entity := httpParseEntityLine lower w.entity line
          parsed := w.parsed ++ [line] }
      if (cstr (w.mem.drop w.ptr)).take 2 = crlf then
        ({ w with ptr := w.ptr + 2, avail := w.avail - 2 }, true)
      else scanLines lower fuel w

/-- The unfinished line is moved to the front: `none` when that leaves the array. -/
def shift (w : Work) : Option Work :=
  if 0 < w.avail then
    if w.mem.length < w.ptr + w.avail.toNat then none
    else do
      let mem ← Bytes.store w.mem 0 (Bytes.field w.mem w.ptr w.avail.toNat)
      let mem ← Bytes.store mem w.avail.toNat [nul]
      some { w with mem, ptr := w.avail.toNat }
  else some { w with ptr := 0 }

/-- How a round of the header loop ends: no data, the blank line, or neither. -/
inductive Round
  | lost (conn : Conn) (w : Work)
  | ended (conn : Conn) (w : Work)
  | again (conn : Conn) (w : Work)

/-- A round of the header loop: `none` when a write leaves the array. -/
def round (lower : Char → Char) (conn : Conn) (w : Work) : Option Round :=
  let (data, conn) := getData conn (256 - w.avail)
  if data = [] then some (.lost conn w)
  else do
    let mem ← Bytes.store w.mem w.ptr data
    let (w, endOfEntity) := scanLines lower mem.length
      { w with mem, ptr := 0, avail := w.avail + data.length }
    if endOfEntity then some (.ended conn w) else some (.again conn (← shift w))

/-- The header loop. Every round but the last one receives something, so the bytes the connection
still has bound the rounds. -/
def headerLoop (lower : Char → Char) : ℕ → Conn → Work → Option (Conn × Work)
  | 0, _, _ => none
  | fuel + 1, conn, w =>
    match round lower conn w with
    | none => none
    | some (.lost conn w) => some (conn, w)
    | some (.ended conn w) => some (conn, w)
    | some (.again conn w) => headerLoop lower fuel conn w

/-! ### The call -/

/-- What `HttpGetResponse` leaves: its result, `*mode`, the buffer and `*length`. -/
structure Result where
  result : ℤ
  mode : Mode
  buffer : Text
  length : ℕ
  /-- the lines handed to `HttpParseEntityLine` -/
  parsed : List Text

/-- The variables of the header loop before the first round; `stale` is what the stack holds. -/
def start (stale : Fin 256 → Char) (mode : Mode) : Work :=
  { mem := List.ofFn stale ++ [nul], ptr := 0, avail := 0,
    entity := { contentLength := -1, statusCode := -1, lineNumber := 0, mode }, parsed := [] }

/-- Left-over data is moved into the output buffer. -/
def leftOver (w : Work) (buffer : Text) : Option Text :=
  if 0 < w.avail then
    if w.mem.length < w.ptr + w.avail.toNat then none
    else do
      let buffer ← Bytes.store buffer 0 (Bytes.field w.mem w.ptr w.avail.toNat)
      Bytes.store buffer w.avail.toNat [nul]
  else some buffer

/-- `HttpGetResponse` behind the header loop. -/
def receiveBody (conn : Conn) (w : Work) (buffer : Text) (length : ℕ) : Option Result := do
  let buffer ← leftOver w buffer
  let payload := w.avail.toNat
  let contentLength := w.entity.contentLength
  if contentLength < 0 ∨ (payload : ℤ) < contentLength then
    let contentLength := if (length : ℤ) < contentLength then (length : ℤ) else contentLength
    let data := (getData conn (contentLength - payload)).1
    let buffer ← Bytes.store buffer payload data
    let received : ℕ := (payload + data.length) % 2 ^ 16
    some
      { result := if 0 < contentLength ∧ (received : ℤ) < contentLength then -32
          else w.entity.statusCode
        mode := w.entity.mode, buffer, length := received, parsed := w.parsed }
  else
    let received : ℕ := payload % 2 ^ 16
    some
      { result := if 0 < contentLength ∧ (received : ℤ) < contentLength then -32
          else w.entity.statusCode
        mode := w.entity.mode, buffer, length := received, parsed := w.parsed }

/-- `HttpGetResponse`, with what the stack holds where the window is: `none` when a write leaves an
array. -/
def httpGetResponse (lower : Char → Char) (stale : Fin 256 → Char) (conn : Conn) (mode : Mode)
    (buffer : Text) (length : ℕ) : Option Result := do
  let (conn, w) ← headerLoop lower (conn.rest.length + 1) conn (start stale mode)
  receiveBody conn w buffer length

variable {lower : Char → Char}

/-! ### Line ends -/

/-- The lines `ls`, each ended. -/
def joinCrlf (ls : List Text) : Text := ls.flatMap (· ++ crlf)

theorem joinCrlf_cons (l : Text) (ls : List Text) :
    joinCrlf (l :: ls) = l ++ '\r' :: '\n' :: joinCrlf ls := by
  simp [joinCrlf, crlf]

theorem joinCrlf_append (ls ms : List Text) : joinCrlf (ls ++ ms) = joinCrlf ls ++ joinCrlf ms :=
  List.flatMap_append

/-- A header line: it has no line end in it and is not empty. -/
structure IsLine (l : Text) : Prop where
  ne_nil : l ≠ []
  find_eq_none : Text.find crlf l = none
  nul_not_mem : nul ∉ l

theorem crlf_prefix_cons_cons {c d : Char} {t : Text} :
    crlf <+: c :: d :: t ↔ c = '\r' ∧ d = '\n' := by
  simp [crlf, List.cons_prefix_cons, eq_comm]

/-- The first line end of a text is the end of its first line. -/
theorem find_line {l : Text} (h : Text.find crlf l = none) (t : Text) :
    Text.find crlf (l ++ '\r' :: '\n' :: t) = some l.length := by
  induction l with
  | nil => simp [Text.find, crlf]
  | cons c l ih =>
    rw [Text.find] at h
    split_ifs at h with hp
    have hpre : ¬ crlf <+: c :: (l ++ '\r' :: '\n' :: t) := by
      rcases l with _ | ⟨d, l⟩
      · rw [List.nil_append, crlf_prefix_cons_cons]
        rintro ⟨-, hd⟩
        exact absurd hd (by decide)
      · rw [List.cons_append, crlf_prefix_cons_cons]
        rwa [crlf_prefix_cons_cons] at hp
    rw [List.cons_append, Text.find, if_neg hpre, ih (Option.map_eq_none_iff.mp h)]
    rfl

theorem find_cstr_line {l : Text} (hl : IsLine l) (t : Text) :
    Text.find crlf (cstr (l ++ '\r' :: '\n' :: t)) = some l.length := by
  have hsplit : l ++ '\r' :: '\n' :: t = l ++ ['\r', '\n'] ++ t := by simp
  have hnul : nul ∉ l ++ ['\r', '\n'] := by
    simp only [List.mem_append, not_or]
    exact ⟨hl.nul_not_mem, by decide⟩
  rw [hsplit, cstr_append hnul, List.append_assoc]
  exact find_line hl.find_eq_none _

theorem find_of_take_eq {t : Text} (h : t.take 2 = crlf) : Text.find crlf t = some 0 := by
  have hp : crlf <+: t := h ▸ List.take_prefix 2 t
  rcases t with _ | ⟨c, t⟩
  · cases h
  · rw [Text.find, if_pos hp]

/-- The blank line is not taken for a line. -/
theorem take_two_of_line {l : Text} (hl : IsLine l) (t : Text) :
    (cstr (l ++ '\r' :: '\n' :: t)).take 2 ≠ crlf := by
  intro h
  have := find_of_take_eq h
  rw [find_cstr_line hl, Option.some.injEq, List.length_eq_zero_iff] at this
  exact hl.ne_nil this

theorem length_lowerValue (l : Text) : (lowerValue lower l).length = l.length := by
  induction l with
  | nil => rfl
  | cons c l ih =>
    rw [lowerValue]
    split_ifs
    · rw [List.length_cons, List.length_map, List.length_cons]
    · rw [List.length_cons, ih, List.length_cons]

/-! ### The lines of the window -/

/-- The window behind the line `l`. -/
def afterLine (lower : Char → Char) (w : Work) (l : Text) : Work :=
  { mem := Bytes.overwrite w.mem w.ptr (lowerValue lower l ++ [nul])
    ptr := w.ptr + (l.length + 2)
    avail := w.avail - (l.length + 2 : ℕ)
    entity := httpParseEntityLine lower w.entity l
    parsed := w.parsed ++ [l] }

theorem mem_afterLine {w : Work} {l t : Text} (h : w.mem.drop w.ptr = l ++ '\r' :: '\n' :: t) :
    (afterLine lower w l).mem.drop (afterLine lower w l).ptr = t ∧
      (afterLine lower w l).mem.length = w.mem.length := by
  have hlen := congrArg List.length h
  simp only [List.length_drop, List.length_append, List.length_cons] at hlen
  have hline : (lowerValue lower l ++ [nul]).length = l.length + 1 := by
    rw [List.length_append, length_lowerValue, List.length_singleton]
  constructor
  · rw [afterLine]
    dsimp only
    rw [Bytes.drop_overwrite (by omega) (by omega), ← List.drop_drop, h]
    rw [show l ++ '\r' :: '\n' :: t = l ++ ['\r', '\n'] ++ t by simp]
    exact List.drop_left' (by simp)
  · exact Bytes.length_overwrite (by omega)

/-- A round of `scanLines` on a line. -/
theorem scanLines_line {fuel : ℕ} {w : Work} {l t : Text} (hl : IsLine l)
    (h : w.mem.drop w.ptr = l ++ '\r' :: '\n' :: t) :
    scanLines lower (fuel + 1) w =
      if (cstr t).take 2 = crlf then
        ({ afterLine lower w l with ptr := (afterLine lower w l).ptr + 2,
                                    avail := (afterLine lower w l).avail - 2 }, true)
      else scanLines lower fuel (afterLine lower w l) := by
  have htake : (w.mem.drop w.ptr).take l.length = l := by rw [h, List.take_left]
  rw [scanLines, h, find_cstr_line hl]
  dsimp only
  rw [← h, htake]
  have := (@mem_afterLine lower w l t h).1
  simp only [afterLine] at this ⊢
  rw [this]

/-- The window behind the lines `ls`. -/
def afterLines (lower : Char → Char) (w : Work) (ls : List Text) : Work :=
  ls.foldl (afterLine lower) w

theorem mem_afterLines {w : Work} {ls : List Text} {t : Text}
    (h : w.mem.drop w.ptr = joinCrlf ls ++ t) :
    (afterLines lower w ls).mem.drop (afterLines lower w ls).ptr = t ∧
      (afterLines lower w ls).mem.length = w.mem.length := by
  induction ls generalizing w with
  | nil => exact ⟨h, rfl⟩
  | cons l ls ih =>
    rw [joinCrlf_cons, List.append_assoc, List.cons_append, List.cons_append] at h
    obtain ⟨hdrop, hlen⟩ := @mem_afterLine lower w l _ h
    obtain ⟨hdrop', hlen'⟩ := ih hdrop
    exact ⟨hdrop', hlen'.trans hlen⟩

theorem afterLines_vars (w : Work) (ls : List Text) :
    (afterLines lower w ls).ptr = w.ptr + (joinCrlf ls).length ∧
      (afterLines lower w ls).avail = w.avail - (joinCrlf ls).length ∧
      (afterLines lower w ls).entity = ls.foldl (httpParseEntityLine lower) w.entity ∧
      (afterLines lower w ls).parsed = w.parsed ++ ls := by
  induction ls generalizing w with
  | nil => simp [afterLines, joinCrlf]
  | cons l ls ih =>
    obtain ⟨hptr, havail, hentity, hparsed⟩ := ih (afterLine lower w l)
    have hlen : (joinCrlf (l :: ls)).length = l.length + 2 + (joinCrlf ls).length := by
      rw [joinCrlf_cons]
      simp only [List.length_append, List.length_cons]
      omega
    refine ⟨hptr.trans ?_, havail.trans ?_, hentity, hparsed.trans ?_⟩
    · show w.ptr + (l.length + 2) + (joinCrlf ls).length = _
      omega
    · show w.avail - (l.length + 2 : ℕ) - (joinCrlf ls).length = _
      omega
    · simp [afterLine]

/-- **A window without the blank line.** The lines that are complete are parsed, when what stands
behind them up to the first NUL has no line end. -/
theorem scanLines_of_partial {fuel : ℕ} {w : Work} {ls : List Text} {t : Text}
    (hls : ∀ l ∈ ls, IsLine l) (h : w.mem.drop w.ptr = joinCrlf ls ++ t)
    (hclean : Text.find crlf (cstr t) = none) (hfuel : ls.length < fuel) :
    scanLines lower fuel w = (afterLines lower w ls, false) := by
  induction ls generalizing fuel w with
  | nil =>
    obtain ⟨f, rfl⟩ := Nat.exists_eq_succ_of_ne_zero (Nat.ne_zero_of_lt hfuel)
    rw [scanLines, h, show joinCrlf [] ++ t = t from rfl, hclean]
    rfl
  | cons l ls ih =>
    obtain ⟨f, rfl⟩ := Nat.exists_eq_succ_of_ne_zero (Nat.ne_zero_of_lt hfuel)
    rw [joinCrlf_cons, List.append_assoc, List.cons_append, List.cons_append] at h
    have hcheck : (cstr (joinCrlf ls ++ t)).take 2 ≠ crlf := by
      rcases ls with _ | ⟨m, ls⟩
      · intro htake
        have := find_of_take_eq htake
        rw [show joinCrlf [] ++ t = t from rfl, hclean] at this
        cases this
      · rw [joinCrlf_cons, List.append_assoc, List.cons_append, List.cons_append]
        exact take_two_of_line (hls m (by simp)) _
    rw [scanLines_line (hls l List.mem_cons_self) h, if_neg hcheck]
    exact ih (fun m hm => hls m (List.mem_cons_of_mem l hm)) (mem_afterLine h).1
      (Nat.lt_of_succ_lt_succ hfuel)

/-- **A window with the blank line.** All lines are parsed, and what stands behind the blank line is
left over. -/
theorem scanLines_of_header {fuel : ℕ} {w : Work} {ls : List Text} {t : Text} (hne : ls ≠ [])
    (hls : ∀ l ∈ ls, IsLine l) (h : w.mem.drop w.ptr = joinCrlf ls ++ (crlf ++ t))
    (hfuel : ls.length ≤ fuel) :
    scanLines lower fuel w =
      ({ afterLines lower w ls with ptr := (afterLines lower w ls).ptr + 2,
                                    avail := (afterLines lower w ls).avail - 2 }, true) := by
  induction ls generalizing fuel w with
  | nil => exact absurd rfl hne
  | cons l ls ih =>
    obtain ⟨f, rfl⟩ := Nat.exists_eq_succ_of_ne_zero (Nat.ne_zero_of_lt hfuel)
    rw [joinCrlf_cons, List.append_assoc, List.cons_append, List.cons_append] at h
    rw [scanLines_line (hls l List.mem_cons_self) h]
    rcases ls with _ | ⟨m, ls⟩
    · rw [if_pos]
      · rfl
      · rw [show joinCrlf [] ++ (crlf ++ t) = crlf ++ t from rfl, cstr_append (by decide)]
        exact List.take_left' rfl
    · rw [if_neg]
      · exact ih (List.cons_ne_nil m ls) (fun k hk => hls k (List.mem_cons_of_mem l hk))
          (mem_afterLine h).1 (Nat.le_of_succ_le_succ hfuel)
      · rw [joinCrlf_cons, List.append_assoc, List.cons_append, List.cons_append]
        exact take_two_of_line (hls m (by simp)) _

/-! ### The part of the header in the window -/

/-- What stands behind the last line end of a text. -/
def unfinished (t : Text) : Text :=
  match _h : Text.find crlf t with
  | none => t
  | some k => unfinished (t.drop (k + 2))
termination_by t.length
decreasing_by
  have := (Text.find_eq_some _h).2
  simp only [crlf, List.length_cons, List.length_nil, List.length_drop] at this ⊢
  omega

theorem unfinished_of_none {t : Text} (h : Text.find crlf t = none) : unfinished t = t := by
  rw [unfinished]
  split
  · rfl
  · next hk => cases h.symm.trans hk

theorem unfinished_of_some {t : Text} {k : ℕ} (h : Text.find crlf t = some k) :
    unfinished t = unfinished (t.drop (k + 2)) := by
  rw [unfinished]
  split
  · next hk => cases h.symm.trans hk
  · next hk =>
    obtain rfl := Option.some.inj (h.symm.trans hk)
    rfl

theorem unfinished_lines {ls : List Text} {t : Text} (hls : ∀ l ∈ ls, IsLine l)
    (ht : Text.find crlf t = none) : unfinished (joinCrlf ls ++ t) = t := by
  induction ls with
  | nil => exact unfinished_of_none ht
  | cons l ls ih =>
    have hfind := find_line (hls l List.mem_cons_self).find_eq_none (joinCrlf ls ++ t)
    rw [joinCrlf_cons, List.append_assoc, List.cons_append, List.cons_append,
      unfinished_of_some hfind]
    have hsplit : l ++ '\r' :: '\n' :: (joinCrlf ls ++ t) =
        l ++ ['\r', '\n'] ++ (joinCrlf ls ++ t) := by simp
    rw [hsplit, List.drop_left' (by simp)]
    exact ih fun m hm => hls m (List.mem_cons_of_mem l hm)

/-- Part of a line, short of its end, has no line end in it. -/
theorem find_part_of_line {l p : Text} (hl : IsLine l) (hp : p <+: l ++ crlf)
    (hlen : p.length < l.length + 2) : Text.find crlf p = none := by
  rcases hf : Text.find crlf p with _ | k
  · rfl
  · obtain ⟨r, hr⟩ := hp
    have hmore := Text.find_append_of_eq_some hf r
    rw [hr, show l ++ crlf = l ++ '\r' :: '\n' :: [] from rfl, find_line hl.find_eq_none,
      Option.some.injEq] at hmore
    have := (Text.find_eq_some hf).2
    simp only [crlf, List.length_cons, List.length_nil] at this
    omega

/-- A proper prefix of some lines is made of lines and part of the next one. -/
theorem prefix_joinCrlf {u : Text} {ls : List Text} (h : u <+: joinCrlf ls)
    (hlen : u.length < (joinCrlf ls).length) :
    ∃ done l rest p, ls = done ++ l :: rest ∧ u = joinCrlf done ++ p ∧ p <+: l ++ crlf ∧
      p.length < l.length + 2 := by
  induction ls generalizing u with
  | nil => simp [joinCrlf] at hlen
  | cons l ls ih =>
    have hline : joinCrlf (l :: ls) = l ++ crlf ++ joinCrlf ls := rfl
    have hcrlf : (l ++ crlf).length = l.length + 2 := List.length_append
    rcases Nat.lt_or_ge u.length (l.length + 2) with hlt | hge
    · exact ⟨[], l, ls, u, rfl, rfl,
        List.prefix_of_prefix_length_le h (hline ▸ List.prefix_append _ _) (by omega), hlt⟩
    · obtain ⟨u', rfl⟩ : l ++ crlf <+: u :=
        List.prefix_of_prefix_length_le (hline ▸ List.prefix_append _ _) h (by omega)
      rw [hline] at h
      have h' : u' <+: joinCrlf ls := (List.prefix_append_right_inj _).mp h
      have hlen' : u'.length < (joinCrlf ls).length := by
        rw [hline] at hlen
        simp only [List.length_append] at hlen
        omega
      obtain ⟨done, m, rest, p, hls, hu, hp, hplen⟩ := ih h' hlen'
      refine ⟨l :: done, m, rest, p, by rw [hls]; rfl, ?_, hp, hplen⟩
      rw [hu]
      exact (List.append_assoc _ _ _).symm

/-! ### Responses -/

/-- A response whose header lines are within the limit; the body is as long as it says. -/
structure Response where
  lines : List Text
  body : Text
  lines_ne_nil : lines ≠ []
  line_ne_nil : ∀ l ∈ lines, l ≠ []
  find_eq_none : ∀ l ∈ lines, Text.find crlf l = none
  line_le : ∀ l ∈ lines, l.length ≤ 254

/-- What the server sends in front of the body. -/
def Response.header (r : Response) : Text := joinCrlf r.lines ++ crlf

/-- What the header lines say. -/
def Response.entity (lower : Char → Char) (mode : Mode) (r : Response) : Entity :=
  r.lines.foldl (httpParseEntityLine lower) (start (fun _ => nul) mode).entity

/-- What a caller may rely on: no write leaves an array, the lines that were parsed are what the
server sent, and the call fails or hands out the body. -/
def Sound (lower : Char → Char) (mode : Mode) (r : Response) (res : Option Result) : Prop :=
  ∃ x, res = some x ∧ joinCrlf x.parsed <+: r.header ++ r.body ∧
    (x.result < 0 ∨
      x.result = (r.entity lower mode).statusCode ∧ x.length = r.body.length ∧
        x.buffer.take x.length = r.body)

/-- A round whose received bytes decide where its lines end, when the connection delivers `n` bytes
of the body in all. While the header is not complete, more than two bytes of it are still to come,
and the unfinished line and what stands behind it in the window have no line end in front of the
next NUL. When it is complete, the part of the body that came with it fits the buffer with a NUL
behind it. -/
def RoundOk (n size : ℕ) (conn : Conn) (w : Work) : Prop :=
  let data := (getData conn (256 - w.avail)).1
  let toCome := conn.rest.length - n
  if data.length < toCome then
    2 < toCome - data.length ∧
      Text.find crlf (cstr (unfinished (w.mem.take w.ptr ++ data) ++
        w.mem.drop (w.ptr + data.length))) = none
  else data.length = toCome ∨ data.length - toCome < size

/-- The rounds of a call. -/
inductive Rounds (lower : Char → Char) (conn₀ : Conn) (w₀ : Work) : Conn → Work → Prop
  | start : Rounds lower conn₀ w₀ conn₀ w₀
  | again {conn conn' : Conn} {w w' : Work} (h : Rounds lower conn₀ w₀ conn w)
    (hr : round lower conn w = some (.again conn' w')) : Rounds lower conn₀ w₀ conn' w'

/-! ### A round -/

theorem getData_spec (conn : Conn) (n : ℤ) :
    (getData conn n).1 ++ (getData conn n).2.rest = conn.rest ∧
      ((getData conn n).1.length : ℤ) ≤ max n 0 ∧
      (0 < n → conn.rest ≠ [] → (getData conn n).1 ≠ []) := by
  rw [getData]
  split_ifs with hn
  · exact ⟨rfl, by simp, fun h => absurd h (by omega)⟩
  · rw [recvBounded]
    refine ⟨List.take_append_drop _ _, ?_, fun _ hne => ?_⟩
    · rw [List.length_take]
      omega
    · rw [Ne, List.take_eq_nil_iff, not_or]
      exact ⟨by omega, hne⟩

/-- A round that is not the last one has received something. -/
theorem length_rest_lt_of_again {conn conn' : Conn} {w w' : Work}
    (h : round lower conn w = some (.again conn' w')) : conn'.rest.length < conn.rest.length := by
  obtain ⟨hsplit, -, -⟩ := getData_spec conn (256 - w.avail)
  rcases hdata : getData conn (256 - w.avail) with ⟨data, conn₁⟩
  rw [hdata] at hsplit
  rw [round, hdata] at h
  dsimp only at h hsplit
  split_ifs at h with hnil
  · cases h
  · have hpos := List.length_pos_iff.mpr hnil
    have hlen := congrArg List.length hsplit
    rw [List.length_append] at hlen
    obtain ⟨mem, -, hscan⟩ := Option.bind_eq_some_iff.mp h
    split_ifs at hscan
    · cases hscan
    · obtain ⟨w₁, -, hagain⟩ := Option.bind_eq_some_iff.mp hscan
      cases hagain
      omega

/-- The bytes the connection still has are rounds enough. -/
theorem headerLoop_fuel {fuel : ℕ} {conn : Conn} {w : Work} (h : conn.rest.length < fuel) :
    headerLoop lower (fuel + 1) conn w = headerLoop lower fuel conn w := by
  induction fuel generalizing conn w with
  | zero => exact absurd h (Nat.not_lt_zero _)
  | succ fuel ih =>
    rw [headerLoop, headerLoop]
    rcases hr : round lower conn w with _ | ⟨c, v⟩ | ⟨c, v⟩ | ⟨c, v⟩
    · rfl
    · rfl
    · rfl
    · have := length_rest_lt_of_again hr
      exact ih (by omega)

/-- What holds in front of a round: the lines `done` were parsed, and the window starts with the
part `p` of the next one. -/
structure InHeader (lower : Char → Char) (mode : Mode) (r : Response) (part : Text) (conn : Conn)
    (w : Work) (done : List Text) (l : Text) (rest : List Text) (p : Text) : Prop where
  lines : r.lines = done ++ l :: rest
  parsed : w.parsed = done
  entity : w.entity =
    done.foldl (httpParseEntityLine lower) (start (fun _ => nul) mode).entity
  length_mem : w.mem.length = 257
  ptr : w.ptr = p.length
  avail : w.avail = p.length
  window : w.mem.take p.length = p
  stream : p ++ conn.rest = joinCrlf (l :: rest) ++ (crlf ++ part)
  part_lt : p.length < l.length + 2

/-- What holds behind the header: the window has the part `b` of the body. -/
structure AtBody (lower : Char → Char) (mode : Mode) (r : Response) (part : Text) (size : ℕ)
    (conn : Conn) (w : Work) (b : Text) : Prop where
  parsed : w.parsed = r.lines
  entity : w.entity = r.entity lower mode
  avail : w.avail = b.length
  window : Bytes.field w.mem w.ptr b.length = b
  fits : w.ptr + b.length ≤ w.mem.length
  stream : b ++ conn.rest = part
  size : b = [] ∨ b.length < size

/-- A text with its NUL at the start of a buffer. -/
theorem store_terminated {mem p : Text} (h : p.length < mem.length) :
    ∃ mem₁ mem₂, Bytes.store mem 0 p = some mem₁ ∧ Bytes.store mem₁ p.length [nul] = some mem₂ ∧
      mem₂.length = mem.length ∧ mem₂.take p.length = p := by
  have hfirst : Bytes.store mem 0 p = some (Bytes.overwrite mem 0 p) := Bytes.store_of_le (by omega)
  have hlen₁ := Bytes.length_of_store hfirst
  have hsecond : Bytes.store (Bytes.overwrite mem 0 p) p.length [nul] =
      some (Bytes.overwrite (Bytes.overwrite mem 0 p) p.length [nul]) := by
    refine Bytes.store_of_le ?_
    rw [List.length_singleton, hlen₁]
    omega
  have hfront : (Bytes.overwrite mem 0 p).take p.length = p := by
    have := @Bytes.take_overwrite _ mem p 0 (by omega)
    rwa [Nat.zero_add] at this
  refine ⟨_, _, hfirst, hsecond, (Bytes.length_of_store hsecond).trans hlen₁, ?_⟩
  rw [Bytes.overwrite, List.append_assoc, hfront, List.take_left]

/-- The unfinished line at the front of the window. -/
theorem shift_spec {w : Work} {p t : Text} (havail : w.avail = p.length)
    (hmem : w.mem.drop w.ptr = p ++ t) (hlen : w.mem.length = 257) (hp : p.length ≤ 256) :
    ∃ mem, shift w = some { w with mem, ptr := p.length } ∧ mem.length = 257 ∧
      mem.take p.length = p := by
  have hroom := congrArg List.length hmem
  rw [List.length_drop, List.length_append, hlen] at hroom
  have hfield : Bytes.field w.mem w.ptr p.length = p := by rw [Bytes.field, hmem, List.take_left]
  rw [shift, havail, Int.toNat_natCast, hfield]
  by_cases h0 : p = []
  · subst h0
    refine ⟨w.mem, by simp, hlen, rfl⟩
  · have hpos := List.length_pos_iff.mpr h0
    obtain ⟨mem₁, mem₂, hfirst, hsecond, hlen₂, hfront⟩ :=
      store_terminated (show p.length < w.mem.length by omega)
    refine ⟨mem₂, ?_, hlen₂.trans hlen, hfront⟩
    rw [if_pos (by exact_mod_cast hpos), if_neg (by omega), hfirst]
    simp only [Option.bind_eq_bind, Option.bind_some, hsecond]

theorem length_le_length_joinCrlf (ls : List Text) : ls.length ≤ (joinCrlf ls).length := by
  induction ls with
  | nil => exact le_rfl
  | cons l ls ih =>
    rw [joinCrlf_cons]
    simp only [List.length_append, List.length_cons]
    omega

theorem length_head_le_joinCrlf (l : Text) (ls : List Text) :
    l.length + 2 ≤ (joinCrlf (l :: ls)).length := by
  rw [joinCrlf_cons]
  simp only [List.length_append, List.length_cons]
  omega

section Call

variable {mode : Mode} {r : Response} {part : Text} {size : ℕ} {conn : Conn} {w : Work}
  {done rest : List Text} {l p : Text}

theorem InHeader.length_stream (h : InHeader lower mode r part conn w done l rest p) :
    p.length + conn.rest.length = (joinCrlf (l :: rest)).length + 2 + part.length := by
  have := congrArg List.length h.stream
  simp only [List.length_append] at this
  rw [this, show crlf.length = 2 from rfl]
  omega

theorem InHeader.part_le (h : InHeader lower mode r part conn w done l rest p) :
    p.length ≤ 255 := by
  have := r.line_le l (h.lines ▸ List.mem_append_right _ List.mem_cons_self)
  have := h.part_lt
  omega

/-- What is received in a round, and the window with it. -/
theorem InHeader.receive (h : InHeader lower mode r part conn w done l rest p) :
    ∃ data conn' mem, getData conn (256 - w.avail) = (data, conn') ∧ data ≠ [] ∧
      data ++ conn'.rest = conn.rest ∧ Bytes.store w.mem w.ptr data = some mem ∧
      mem.length = 257 ∧ p.length + data.length ≤ 256 ∧
      mem = p ++ data ++ w.mem.drop (w.ptr + data.length) := by
  obtain ⟨hsplit, hlen, hne⟩ := getData_spec conn (256 - w.avail)
  rcases hdata : getData conn (256 - w.avail) with ⟨data, conn'⟩
  rw [hdata] at hsplit hlen hne
  dsimp only at hsplit hlen hne
  have hp := h.part_le
  have hstream := h.length_stream
  have havail := h.avail
  have hline := length_head_le_joinCrlf l rest
  have hrest : conn.rest ≠ [] := by
    have := h.part_lt
    intro hnil
    rw [hnil, List.length_nil] at hstream
    omega
  have hroom : p.length + data.length ≤ 256 := by omega
  have hfit : w.ptr + data.length ≤ w.mem.length := by
    rw [h.ptr, h.length_mem]
    omega
  refine ⟨data, conn', _, rfl, hne (by omega) hrest, hsplit, Bytes.store_of_le hfit,
    (Bytes.length_overwrite hfit).trans h.length_mem, hroom, ?_⟩
  rw [Bytes.overwrite, h.ptr, h.window]

theorem InHeader.received_prefix (h : InHeader lower mode r part conn w done l rest p)
    {data : Text} {conn' : Conn} (hsplit : data ++ conn'.rest = conn.rest) :
    p ++ data <+: joinCrlf (l :: rest) ++ (crlf ++ part) := by
  rw [← h.stream, ← hsplit, ← List.append_assoc]
  exact List.prefix_append _ _

/-- The window of a round that completes the header: the lines, the blank line and the part `b` of
the body. -/
theorem InHeader.window_ended (h : InHeader lower mode r part conn w done l rest p)
    {data : Text} {conn' : Conn} (hsplit : data ++ conn'.rest = conn.rest)
    (hlonger : (joinCrlf (l :: rest)).length + 2 ≤ p.length + data.length) :
    ∃ b, p ++ data = joinCrlf (l :: rest) ++ (crlf ++ b) ∧ b ++ conn'.rest = part := by
  have hheader : joinCrlf (l :: rest) ++ crlf <+: joinCrlf (l :: rest) ++ (crlf ++ part) := by
    rw [← List.append_assoc]
    exact List.prefix_append _ _
  obtain ⟨b, hb⟩ := List.prefix_of_prefix_length_le hheader (h.received_prefix hsplit)
    (by simpa [crlf] using hlonger)
  refine ⟨b, by rw [← hb, List.append_assoc], ?_⟩
  have hstr := h.stream
  rw [← hsplit, ← List.append_assoc, ← hb, List.append_assoc, List.append_assoc] at hstr
  exact List.append_cancel_left (List.append_cancel_left hstr)

/-- **A round that does not complete the header.** -/
theorem InHeader.round_again (h : InHeader lower mode r part conn w done l rest p)
    (hr : ∀ m ∈ r.lines, IsLine m) (hok : RoundOk part.length size conn w)
    (hshort : (getData conn (256 - w.avail)).1.length < conn.rest.length - part.length) :
    ∃ conn' w' done' l' rest' p', round lower conn w = some (.again conn' w') ∧
      InHeader lower mode r part conn' w' done' l' rest' p' ∧
      conn'.rest.length < conn.rest.length := by
  obtain ⟨data, conn', mem, hdata, hne, hsplit, hstore, hlen, hfit, hmem⟩ := h.receive
  have hstream := h.length_stream
  have hsizes := congrArg List.length hsplit
  rw [List.length_append] at hsizes
  have hpos := List.length_pos_iff.mpr hne
  rw [RoundOk, hdata] at hok
  rw [hdata] at hshort
  dsimp only at hok hshort
  rw [if_pos hshort, h.ptr, h.window] at hok
  obtain ⟨hmore, hclean⟩ := hok
  -- the window holds lines and part of the next one
  have hprefix : p ++ data <+: joinCrlf (l :: rest) := by
    refine List.prefix_of_prefix_length_le (h.received_prefix hsplit) (List.prefix_append _ _) ?_
    rw [List.length_append]
    omega
  obtain ⟨done', l', rest', p', hlines, hwindow, hpart, hpart_lt⟩ :=
    prefix_joinCrlf hprefix (by rw [List.length_append]; omega)
  have hall : ∀ m ∈ l :: rest, IsLine m := fun m hm =>
    hr m (h.lines ▸ List.mem_append_right _ hm)
  have hdone : ∀ m ∈ done', IsLine m := fun m hm =>
    hall m (hlines ▸ List.mem_append_left _ hm)
  have hl' : IsLine l' := hall l' (hlines ▸ List.mem_append_right _ List.mem_cons_self)
  have hwindow_len := congrArg List.length hwindow
  simp only [List.length_append] at hwindow_len
  have hcount := length_le_length_joinCrlf done'
  set w₁ : Work := { w with mem, ptr := 0, avail := w.avail + data.length } with hw₁
  have hdrop : w₁.mem.drop w₁.ptr =
      joinCrlf done' ++ (p' ++ w.mem.drop (p.length + data.length)) := by
    show mem.drop 0 = _
    rw [List.drop_zero, hmem, hwindow, h.ptr, List.append_assoc]
  rw [hwindow, unfinished_lines hdone (find_part_of_line hl' hpart hpart_lt)] at hclean
  have hscan : scanLines lower mem.length w₁ = (afterLines lower w₁ done', false) :=
    scanLines_of_partial hdone hdrop hclean (by omega)
  obtain ⟨hptr', havail', hentity', hparsed'⟩ := @afterLines_vars lower w₁ done'
  obtain ⟨hdrop', hlen'⟩ := @mem_afterLines lower w₁ done' _ hdrop
  have havail₁ : w₁.avail = (p.length + data.length : ℕ) := by
    rw [hw₁, h.avail]
    push_cast
    rfl
  obtain ⟨mem', hshift, hmemlen, hfront⟩ :=
    @shift_spec (afterLines lower w₁ done') p' _ (by rw [havail', havail₁]; omega) hdrop'
      (hlen'.trans hlen) (by omega)
  refine ⟨conn', { afterLines lower w₁ done' with mem := mem', ptr := p'.length },
    done ++ done', l', rest', p', ?_,
    ⟨?_, ?_, ?_, hmemlen, rfl, ?_, hfront, ?_, hpart_lt⟩, by omega⟩
  · rw [round, hdata]
    simp only [if_neg hne, hstore, Option.bind_eq_bind, Option.bind_some]
    rw [hscan]
    simp only [Bool.false_eq_true, if_false, hshift, Option.bind_some]
  · rw [h.lines, hlines, List.append_assoc]
  · exact hparsed'.trans (by rw [hw₁, h.parsed])
  · refine hentity'.trans ?_
    rw [hw₁, h.entity, List.foldl_append]
  · show (afterLines lower w₁ done').avail = _
    rw [havail', havail₁]
    omega
  · have hstr := h.stream
    rw [← hsplit, ← List.append_assoc, hwindow, hlines, joinCrlf_append, List.append_assoc,
      List.append_assoc] at hstr
    exact List.append_cancel_left hstr

/-- **A round that completes the header.** -/
theorem InHeader.round_ended (h : InHeader lower mode r part conn w done l rest p)
    (hr : ∀ m ∈ r.lines, IsLine m) (hok : RoundOk part.length size conn w)
    (hlong : ¬ (getData conn (256 - w.avail)).1.length < conn.rest.length - part.length) :
    ∃ conn' w' b, round lower conn w = some (.ended conn' w') ∧
      AtBody lower mode r part size conn' w' b := by
  obtain ⟨data, conn', mem, hdata, hne, hsplit, hstore, hlen, hfit, hmem⟩ := h.receive
  have hstream := h.length_stream
  rw [RoundOk, hdata] at hok
  rw [hdata] at hlong
  dsimp only at hok hlong
  rw [if_neg hlong] at hok
  obtain ⟨b, hwindow, hbody⟩ := h.window_ended hsplit (by omega)
  have hall : ∀ m ∈ l :: rest, IsLine m := fun m hm =>
    hr m (h.lines ▸ List.mem_append_right _ hm)
  have hwindow_len := congrArg List.length hwindow
  simp only [List.length_append, show crlf.length = 2 from rfl] at hwindow_len
  have hbody_len : data.length - (conn.rest.length - part.length) = b.length := by
    have hline := length_head_le_joinCrlf l rest
    have := h.part_lt
    omega
  have hcount := length_le_length_joinCrlf (l :: rest)
  set w₁ : Work := { w with mem, ptr := 0, avail := w.avail + data.length } with hw₁
  have hdrop : w₁.mem.drop w₁.ptr =
      joinCrlf (l :: rest) ++ (crlf ++ (b ++ w.mem.drop (w.ptr + data.length))) := by
    show mem.drop 0 = _
    rw [List.drop_zero, hmem, hwindow, List.append_assoc, List.append_assoc]
  have hscan := @scanLines_of_header lower mem.length w₁ (l :: rest) _ (List.cons_ne_nil l rest)
    hall hdrop (by omega)
  obtain ⟨hptr', havail', hentity', hparsed'⟩ := @afterLines_vars lower w₁ (l :: rest)
  obtain ⟨hdrop', hlen'⟩ := @mem_afterLines lower w₁ (l :: rest) _ hdrop
  have havail₁ : w₁.avail = (p.length + data.length : ℕ) := by
    rw [hw₁, h.avail]
    push_cast
    rfl
  have hptr₁ : w₁.ptr = 0 := rfl
  refine ⟨conn', { afterLines lower w₁ (l :: rest) with
      ptr := (afterLines lower w₁ (l :: rest)).ptr + 2,
      avail := (afterLines lower w₁ (l :: rest)).avail - 2 }, b, ?_,
    ⟨?_, ?_, ?_, ?_, ?_, hbody, ?_⟩⟩
  · rw [round, hdata]
    simp only [if_neg hne, hstore, Option.bind_eq_bind, Option.bind_some]
    rw [hscan]
    simp only [if_true]
  · exact hparsed'.trans (by rw [hw₁, h.parsed, h.lines])
  · refine hentity'.trans ?_
    rw [hw₁, h.entity, Response.entity, h.lines, List.foldl_append]
  · show (afterLines lower w₁ (l :: rest)).avail - 2 = _
    rw [havail', havail₁]
    omega
  · show (((afterLines lower w₁ (l :: rest)).mem.drop
      ((afterLines lower w₁ (l :: rest)).ptr + 2)).take b.length) = b
    rw [← List.drop_drop, hdrop', List.drop_left' (show crlf.length = 2 from rfl), List.take_left]
  · show (afterLines lower w₁ (l :: rest)).ptr + 2 + b.length ≤
      (afterLines lower w₁ (l :: rest)).mem.length
    rw [hlen', hptr', hptr₁, show w₁.mem.length = 257 from hlen]
    omega
  · rcases hok with hok | hok
    · left
      rw [hok, Nat.sub_self] at hbody_len
      exact List.length_eq_zero_iff.mp hbody_len.symm
    · right
      exact hbody_len ▸ hok

/-! ### The call -/

/-- **The header loop.** When every round is one whose received bytes decide, the loop parses the
lines of the response and stops behind the blank line. -/
theorem headerLoop_spec {conn₀ : Conn} {w₀ : Work} {fuel : ℕ}
    (h : InHeader lower mode r part conn w done l rest p) (hr : ∀ m ∈ r.lines, IsLine m)
    (hrounds : Rounds lower conn₀ w₀ conn w)
    (hok : ∀ conn w, Rounds lower conn₀ w₀ conn w → RoundOk part.length size conn w)
    (hfuel : conn.rest.length < fuel) :
    ∃ conn' w' b, headerLoop lower fuel conn w = some (conn', w') ∧
      AtBody lower mode r part size conn' w' b := by
  induction fuel generalizing conn w done l rest p with
  | zero => exact absurd hfuel (Nat.not_lt_zero _)
  | succ fuel ih =>
    rw [headerLoop]
    by_cases hshort : (getData conn (256 - w.avail)).1.length < conn.rest.length - part.length
    · obtain ⟨conn', w', done', l', rest', p', hround, hin, hless⟩ :=
        h.round_again hr (hok conn w hrounds) hshort
      rw [hround]
      exact ih hin (hrounds.again hround) (by omega)
    · obtain ⟨conn', w', b, hround, hat⟩ := h.round_ended hr (hok conn w hrounds) hshort
      rw [hround]
      exact ⟨conn', w', b, rfl, hat⟩

/-- The part of the body that came with the header, in the output buffer. -/
theorem AtBody.leftOver_eq {buffer b : Text} (h : AtBody lower mode r part size conn w b)
    (hsize : size = buffer.length) :
    ∃ buffer', leftOver w buffer = some buffer' ∧ buffer'.length = buffer.length ∧
      buffer'.take b.length = b := by
  rw [leftOver, h.avail, Int.toNat_natCast, h.window, if_neg (Nat.not_lt.mpr h.fits)]
  by_cases h0 : b = []
  · subst h0
    exact ⟨buffer, by simp, rfl, rfl⟩
  · have hpos := List.length_pos_iff.mpr h0
    have hlt : b.length < buffer.length := hsize ▸ h.size.resolve_left h0
    obtain ⟨buffer₁, buffer₂, hfirst, hsecond, hlen₂, hfront⟩ := store_terminated hlt
    refine ⟨buffer₂, ?_, hlen₂, hfront⟩
    rw [if_pos (by exact_mod_cast hpos), hfirst]
    simp only [Option.bind_eq_bind, Option.bind_some, hsecond]

/-- **The body.** What came with the header and one more receive are the body, or the call fails. -/
theorem AtBody.receiveBody_sound {buffer b : Text} {length : ℕ}
    (h : AtBody lower mode r part size conn w b) (hsize : size = buffer.length)
    (hpart : part <+: r.body) (hlength : (r.entity lower mode).contentLength = r.body.length)
    (hbody : r.body.length ≤ length) (hbuffer : length ≤ buffer.length) (h16 : length < 2 ^ 16) :
    Sound lower mode r (receiveBody conn w buffer length) := by
  obtain ⟨buffer', hleft, hlen', hfront⟩ := h.leftOver_eq hsize
  have hparsed : joinCrlf w.parsed <+: r.header ++ r.body := by
    rw [h.parsed, Response.header, List.append_assoc]
    exact List.prefix_append _ _
  have hb : b <+: r.body := (h.stream ▸ List.prefix_append b conn.rest : b <+: part).trans hpart
  have hble := hb.length_le
  rw [receiveBody, hleft]
  simp only [Option.bind_eq_bind, Option.bind_some, h.avail, Int.toNat_natCast, h.entity, hlength]
  rw [if_neg (show ¬ (length : ℤ) < r.body.length by omega)]
  by_cases hmore : (r.body.length : ℤ) < 0 ∨ (b.length : ℤ) < r.body.length
  · have hlt : b.length < r.body.length := by omega
    obtain ⟨hsplit, hdata, -⟩ := getData_spec conn ((r.body.length : ℤ) - b.length)
    rcases hget : getData conn ((r.body.length : ℤ) - b.length) with ⟨data, conn'⟩
    rw [hget] at hsplit hdata
    dsimp only at hsplit hdata
    have hroom : b.length + data.length ≤ r.body.length := by omega
    have hstore : Bytes.store buffer' b.length data =
        some (Bytes.overwrite buffer' b.length data) := Bytes.store_of_le (by omega)
    have htake : (Bytes.overwrite buffer' b.length data).take (b.length + data.length) =
        b ++ data := by
      rw [Bytes.take_overwrite (by omega), hfront]
    have hprefix : b ++ data <+: r.body := by
      refine List.IsPrefix.trans ?_ hpart
      rw [← h.stream, ← hsplit, ← List.append_assoc]
      exact List.prefix_append _ _
    have hmod : (b.length + data.length) % 2 ^ 16 = b.length + data.length :=
      Nat.mod_eq_of_lt (by omega)
    rw [if_pos hmore, hstore]
    refine ⟨_, rfl, hparsed, ?_⟩
    dsimp only
    rw [hmod]
    rcases hroom.lt_or_eq with hshort | hfull
    · left
      rw [if_pos ⟨by omega, by omega⟩]
      decide
    · right
      rw [if_neg (by omega), htake]
      exact ⟨rfl, hfull, hprefix.eq_of_length (by rw [List.length_append, hfull])⟩
  · have hall : b.length = r.body.length := by omega
    have hmod : b.length % 2 ^ 16 = b.length := Nat.mod_eq_of_lt (by omega)
    rw [if_neg hmore]
    refine ⟨_, rfl, hparsed, .inr ?_⟩
    dsimp only
    rw [hmod, if_neg (by omega)]
    exact ⟨rfl, hall, hfront.trans (hb.eq_of_length hall)⟩

end Call

theorem Response.isLine (r : Response) (hnul : ∀ l ∈ r.lines, nul ∉ l) : ∀ l ∈ r.lines, IsLine l :=
  fun l hl => ⟨r.line_ne_nil l hl, r.find_eq_none l hl, hnul l hl⟩

/-- In front of the first round. -/
theorem inHeader_start {lower : Char → Char} {stale : Fin 256 → Char} {conn : Conn} {mode : Mode}
    {r : Response} {part l : Text} {rest : List Text} (hconn : conn.rest = r.header ++ part)
    (hlines : r.lines = l :: rest) :
    InHeader lower mode r part conn (start stale mode) [] l rest [] where
  lines := hlines
  parsed := rfl
  entity := rfl
  length_mem := by
    show (List.ofFn stale ++ [nul]).length = 257
    rw [List.length_append, List.length_ofFn, List.length_singleton]
  ptr := rfl
  avail := rfl
  window := rfl
  stream := by rw [List.nil_append, hconn, Response.header, hlines, List.append_assoc]
  part_lt := Nat.succ_pos _

/-- **Responses to compatibility requests.** However the network cuts up a response that is within
the limits, and however much of its body it delivers, the call is sound when every round of its
header loop is one whose received bytes decide, and the header has no NUL and a `Content-Length`
that the call reads. -/
theorem httpGetResponse_sound (lower : Char → Char) (stale : Fin 256 → Char) (conn : Conn)
    (mode : Mode) (buffer : Text) (length : ℕ) (r : Response) (part : Text)
    (hconn : conn.rest = r.header ++ part) (hpart : part <+: r.body)
    (hbody : r.body.length ≤ length) (hbuffer : length ≤ buffer.length) (h16 : length < 2 ^ 16)
    (hnul : ∀ l ∈ r.lines, nul ∉ l)
    (hlength : (r.entity lower mode).contentLength = r.body.length)
    (hok : ∀ conn' w, Rounds lower conn (start stale mode) conn' w →
      RoundOk part.length buffer.length conn' w) :
    Sound lower mode r (httpGetResponse lower stale conn mode buffer length) := by
  obtain ⟨l, rest, hlines⟩ := List.exists_cons_of_ne_nil r.lines_ne_nil
  obtain ⟨conn', w, b, hloop, hat⟩ := headerLoop_spec (inHeader_start hconn hlines)
    (r.isLine hnul) .start hok (Nat.lt_succ_self _)
  rw [httpGetResponse, hloop]
  exact hat.receiveBody_sound rfl hpart hlength hbody hbuffer h16

/-- The rounds from here on, of which there are at most `fuel`, are such that what they receive
decides. -/
def RoundsOk (lower : Char → Char) (n size : ℕ) : ℕ → Conn → Work → Prop
  | 0, _, _ => False
  | fuel + 1, conn, w => RoundOk n size conn w ∧
    match round lower conn w with
    | some (.again conn w) => RoundsOk lower n size fuel conn w
    | _ => True

instance (n size : ℕ) (conn : Conn) (w : Work) : Decidable (RoundOk n size conn w) :=
  have : ∀ (data : Text) (toCome : ℕ) (p : Prop) [Decidable p], Decidable
      (if data.length < toCome then 2 < toCome - data.length ∧ p
        else data.length = toCome ∨ data.length - toCome < size) := fun _ _ _ => inferInstance
  this _ _ _

instance instDecidableRoundsOk (lower : Char → Char) (n size : ℕ) :
    ∀ fuel conn w, Decidable (RoundsOk lower n size fuel conn w)
  | 0, _, _ => isFalse id
  | fuel + 1, conn, w =>
    match h : round lower conn w with
    | some (.again conn' w') =>
      have := instDecidableRoundsOk lower n size fuel conn' w'
      decidable_of_iff (RoundOk n size conn w ∧ RoundsOk lower n size fuel conn' w')
        (by rw [RoundsOk, h])
    | some (.lost _ _) | some (.ended _ _) | none =>
      decidable_of_iff (RoundOk n size conn w) (by rw [RoundsOk, h, and_true])

theorem RoundsOk.roundOk {lower : Char → Char} {n size fuel : ℕ} {conn₀ conn : Conn} {w₀ w : Work}
    (h : RoundsOk lower n size fuel conn₀ w₀) (hr : Rounds lower conn₀ w₀ conn w) :
    RoundOk n size conn w := by
  have hleft : ∃ fuel, RoundsOk lower n size fuel conn w := by
    induction hr with
    | start => exact ⟨fuel, h⟩
    | again _ hround ih =>
      obtain ⟨left, hleft⟩ := ih
      cases left with
      | zero => exact hleft.elim
      | succ left =>
        rw [RoundsOk, hround] at hleft
        exact ⟨left, hleft.2⟩
  obtain ⟨left, hleft⟩ := hleft
  cases left with
  | zero => exact hleft.elim
  | succ left => exact hleft.1

/-! ### Two ways to cut up a response -/

/-- A response with a body of two bytes. -/
def hello : Response where
  lines := ["HTTP/1.1 200".toList, "Content-Length: 2".toList]
  body := "hi".toList
  lines_ne_nil := List.cons_ne_nil _ _
  line_ne_nil := by decide
  find_eq_none := by decide
  line_le := by decide

/-- The first receive ends inside the second header line, and the second one has a byte of the
body. -/
def insideLine : Conn := ⟨hello.header ++ hello.body, fun i => if i = 0 then 17 else 18⟩

theorem httpGetResponse_sound_insideLine :
    Sound Char.toLower .persistent hello
      (httpGetResponse Char.toLower (fun _ => nul) insideLine .persistent (List.replicate 8 nul) 8)
    := by
  have hrounds : RoundsOk Char.toLower hello.body.length 8 3 insideLine
      (start (fun _ => nul) .persistent) := by decide +kernel
  exact httpGetResponse_sound _ _ _ _ _ _ _ _ rfl (List.prefix_refl _) (by decide) (by decide)
    (by decide) (by decide) (by decide +kernel) fun _ _ hr => hrounds.roundOk hr

/-- The blank line comes with the second receive. -/
theorem not_sound_split :
    ¬ ∀ (lower : Char → Char) (stale : Fin 256 → Char) (conn : Conn) (mode : Mode) (buffer : Text)
      (length : ℕ) (r : Response), conn.rest = r.header ++ r.body → r.body.length ≤ length →
      length ≤ buffer.length → length < 2 ^ 16 →
      Sound lower mode r (httpGetResponse lower stale conn mode buffer length) := by
  intro h
  obtain ⟨x, hx, -, hres⟩ := h Char.toLower (fun _ => nul) ⟨hello.header ++ hello.body, fun _ => 32⟩
    .persistent (List.replicate 8 nul) 8 hello rfl (by decide) (by decide) (by decide)
  have hrun : (httpGetResponse Char.toLower (fun _ => nul)
      ⟨hello.header ++ hello.body, fun _ => 32⟩ .persistent (List.replicate 8 nul) 8).map
        (fun x => (x.result, x.buffer.take x.length)) = some (200, [nul, 'i']) := by
    decide +kernel
  rw [hx, Option.map_some, Option.some.injEq, Prod.mk.injEq] at hrun
  rcases hres with hneg | ⟨-, -, hbody⟩
  · rw [hrun.1] at hneg
    exact absurd hneg (by decide)
  · rw [hrun.2] at hbody
    exact absurd hbody (by decide)

end HttpLegacy

end OpenPS2Loader
