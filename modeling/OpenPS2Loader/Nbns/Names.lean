import Mathlib.Algebra.Group.Int.Defs
import Mathlib.Data.List.TakeDrop
import OpenPS2Loader.Lib.Bytes

/-!
# NetBIOS names

`nbns.c`: `nbnsFindName` asks the network for the address of a name, and `nbnsReceiveThread` looks
for the name of a response in the record of the question. In a datagram a name is padded with spaces
to 16 characters, each of them is two letters, and its length stands in front of it.

There is a single record. A frame has the bytes that were received. A read behind them has no
result, and neither has a write outside of `decoded_name`. `char` is signed. Waiting for the answer
and asking again are left out.

## Main definitions

* `Nbns.encodeName`, `Nbns.decodeName` — the two forms of a name
* `Nbns.findName` — the record and the question of `nbnsFindName`
* `Nbns.receive` — what `nbnsReceiveThread` does with a frame
* `Nbns.Matched`, `Nbns.ReceivesWell` — what is asked of them
* `Nbns.DatagramOk` — the datagrams that are received well

## Main results

* `Nbns.decodeLoop_eq`, `Nbns.letters_encodeLoop`
* `Nbns.matched_iff_and_receivesWell_iff`
-/

namespace OpenPS2Loader

namespace Nbns

/-! ### Names -/

/-- `' '`. -/
def space : UInt8 := 0x20

/-- `'A'`. -/
def letterA : UInt8 := 0x41

/-- The contents of `name`, an array of 17 characters. -/
structure Name where
  bytes : List UInt8
  length_le : bytes.length ≤ 16
  zero_not_mem : 0 ∉ bytes

/-- The turns of `for (i = 0; i < length; i += 2)`, of a length that is a character. -/
def turns (length : UInt8) : ℕ := if length.toNat < 128 then (length.toNat + 1) / 2 else 0

/-- `pOut[0]`, for a character. -/
def highLetter (c : UInt8) : UInt8 := ((c &&& 0xF0) >>> 4) + letterA

/-- `pOut[1]`, for a character. -/
def lowLetter (c : UInt8) : UInt8 := (c &&& 0x0F) + letterA

/-- The loop of `encode_name`, for the rest of a name, and the NUL behind its output. Behind its end
a name goes on with spaces. -/
def encodeLoop : ℕ → List UInt8 → UInt8 → List UInt8 × UInt8
  | 0, _, checksum => ([0], checksum)
  | n + 1, p, checksum =>
    let c := p.headD space
    let r := encodeLoop n p.tail (checksum + (highLetter c + lowLetter c))
    (highLetter c :: lowLetter c :: r.1, r.2)

/-- `encode_name`: what it stores behind the length, and the checksum. -/
def encodeName (name : List UInt8) (length : UInt8) : List UInt8 × UInt8 :=
  encodeLoop (turns length) name 0

/-- The character of two letters. -/
def letter (p₀ p₁ : UInt8) : UInt8 := ((p₀ - letterA) <<< 4) ||| ((p₁ - letterA) &&& 0xF)

/-- The loop of `decode_name`, with the characters in `output` and `len`. -/
def decodeLoop : ℕ → List UInt8 → List UInt8 → ℕ → Option (List UInt8 × ℕ)
  | 0, _, output, len => if output.length < 17 then some (output ++ [0], len) else none
  | n + 1, p₀ :: p₁ :: p, output, len =>
    if output.length < 17 then
      decodeLoop n p (output ++ [letter p₀ p₁]) (if letter p₀ p₁ ≠ space then len + 1 else len)
    else none
  | _, _, _, _ => none

/-- `decode_name`, into an array of 17 characters. -/
def decodeName : List UInt8 → Option (List UInt8 × ℕ)
  | [] => none
  | length :: p => decodeLoop (turns length) p [] 0

/-- `decoded_name`, with the NUL that `nbnsReceiveThread` stores. -/
def decodedName (name : List UInt8) : Option (List UInt8) :=
  (decodeName name).map fun r => Bytes.cstr (r.1.set r.2 0)

/-! ### The record -/

/-- `struct NBNSNameRecord`, with the bits of its status. -/
structure Record where
  allocated : Bool
  init : Bool
  valid : Bool
  name : Name
  address : List UInt8
  uid : UInt16
  thid : ℤ

/-- The start of `nbnsFindName`: the record, and the frame that is sent. `uid` is the static counter
of the function. -/
def findName (record : Record) (name : Name) (uid : UInt8) (thid : ℤ) :
    Option (Record × List UInt8) :=
  if record.allocated then none
  else
    let encoded := encodeName name.bytes 32
    let id := encoded.2.toUInt16 ||| (uid.toUInt16 <<< 8)
    some ({ record with
        allocated := true, init := true, valid := false, name := name, uid := id, thid := thid },
      [(id >>> 8).toUInt8, id.toUInt8, 0x01, 0x10, 0, 1, 0, 0, 0, 0, 0, 0, 32] ++ encoded.1 ++
        [0x00, 0x20, 0x00, 0x01])

/-- `lookupName`. -/
def lookupName (record : Record) (name : List UInt8) (uid : ℕ) : Prop :=
  record.allocated ∧ record.name.bytes = name ∧ uid = record.uid.toNat

instance (record : Record) (name : List UInt8) (uid : ℕ) :
    Decidable (lookupName record name uid) := inferInstanceAs (Decidable (_ ∧ _))

/-- A field of `struct NbHeader`, in the order of the network. -/
def field (frame : List UInt8) (i : ℕ) : ℕ :=
  256 * (frame.getD i 0).toNat + (frame.getD (i + 1) 0).toNat

/-- A positive response to a query: `NB_GET_OPCODE`, `NB_GET_R`, `NB_GET_RCODE` of the code, and
the count of the answers. -/
def Positive (frame : List UInt8) : Prop :=
  field frame 2 / 2 ^ 11 % 16 = 0 ∧ field frame 2 / 2 ^ 15 % 2 = 1 ∧ field frame 2 % 16 = 0 ∧
    field frame 6 = 1

instance (frame : List UInt8) : Decidable (Positive frame) := inferInstanceAs (Decidable (_ ∧ _))

/-- The record with the address of a response, which stands behind the header, the name, type and
class, the time to live, the length and the flags. -/
def resolved (record : Record) (frame : List UInt8) : Record :=
  { record with address := (frame.drop 58).take 4, valid := true }

/-- The thread that is woken up. -/
def wakeup (record : Record) : Option ℤ := if 0 ≤ record.thid then some record.thid else none

/-- A turn of the loop of `nbnsReceiveThread`. -/
def receive (record : Record) (frame : List UInt8) : Option (Record × Option ℤ) :=
  if 12 ≤ frame.length ∧ Positive frame then
    (decodedName (frame.drop 12)).bind fun name =>
      if lookupName record name (field frame 0) ∧ record.init ∧ ¬ record.valid then
        if 58 + 4 ≤ frame.length then some (resolved record frame, wakeup record) else none
      else some (record, none)
  else some (record, none)

/-- `recv` into a frame of `MAX_DATAGRAM_LENGTH` bytes. -/
def recv (datagram : List UInt8) : List UInt8 := datagram.take 576

/-! ### What is asked of them -/

/-- The datagram is a positive response that repeats the name and the number of a question. -/
structure Echoes (question datagram : List UInt8) : Prop where
  id : (recv datagram).take 2 = question.take 2
  name : ((recv datagram).drop 12).take 34 = (question.drop 12).take 34
  positive : Positive (recv datagram)
  length_le : 62 ≤ datagram.length

/-- A response finds the record of its question. -/
def Matched (name : Name) : Prop :=
  decodedName (32 :: (encodeName name.bytes 32).1) = some name.bytes ∧
    ∀ record uid thid pending question datagram,
      findName record name uid thid = some (pending, question) → Echoes question datagram →
        receive pending (recv datagram) =
          some (resolved pending (recv datagram), wakeup pending)

/-- Nothing is read behind the datagram or written outside of the name, and the record either stays
as it is or has the address that is in the datagram. -/
def ReceivesWell (record : Record) (datagram : List UInt8) : Prop :=
  ∃ record' wake, receive record (recv datagram) = some (record', wake) ∧
    (record' = record ∨ 62 ≤ datagram.length ∧ record' = resolved record datagram)

/-- The characters of `n` pairs of letters. -/
def letters : ℕ → List UInt8 → List UInt8
  | n + 1, p₀ :: p₁ :: p => letter p₀ p₁ :: letters n p
  | _, _ => []

/-- The name that `n` pairs of letters stand for: as many characters as there are visible ones. -/
def nameOf (n : ℕ) (p : List UInt8) : List UInt8 :=
  Bytes.cstr ((letters n p).take ((letters n p).countP (· ≠ space)))

/-- A positive response has its name in it, of 16 characters at most, and when the record waits for
this name, the address. -/
def DatagramOk (record : Record) (datagram : List UInt8) : Prop :=
  12 ≤ datagram.length → Positive (recv datagram) →
    ∃ length p, (recv datagram).drop 12 = length :: p ∧ turns length ≤ 16 ∧
      2 * turns length ≤ p.length ∧
      (lookupName record (nameOf (turns length) p) (field (recv datagram) 0) →
        record.init → record.valid = false → 62 ≤ datagram.length)

/-! ### The loops -/

theorem decodeLoop_eq (n : ℕ) (p output : List UInt8) (len : ℕ) :
    decodeLoop n p output len =
      if 2 * n ≤ p.length ∧ output.length + n < 17 then
        some (output ++ letters n p ++ [0], len + (letters n p).countP (· ≠ space))
      else none := by
  induction n generalizing p output len with
  | zero => simp [decodeLoop, letters]
  | succ n ih =>
    match p with
    | [] => simp [decodeLoop]
    | [x] =>
      have hshort : ¬ (2 * (n + 1) ≤ [x].length ∧ output.length + (n + 1) < 17) := by
        rw [List.length_singleton]
        omega
      rw [if_neg hshort]
      rfl
    | p₀ :: p₁ :: p =>
      rw [decodeLoop, ih, List.length_append, List.length_singleton, List.length_cons,
        List.length_cons, letters, List.countP_cons]
      by_cases hfit : 2 * n ≤ p.length ∧ output.length + 1 + n < 17
      · have hroom : output.length < 17 := by omega
        have hall : 2 * (n + 1) ≤ p.length + 1 + 1 ∧ output.length + (n + 1) < 17 := by omega
        rw [if_pos hroom, if_pos hfit, if_pos hall]
        by_cases hc : letter p₀ p₁ = space
        · simp [hc]
        · simp [hc, Nat.add_assoc, Nat.add_comm 1]
      · rw [if_neg hfit, ite_self, if_neg (by omega)]

/-- The NUL that is stored over the characters. -/
theorem cstr_set {t : List UInt8} {n : ℕ} (h : n ≤ t.length) :
    Bytes.cstr ((t ++ [0]).set n 0) = Bytes.cstr (t.take n) := by
  have hlt : n < (t ++ [0]).length := by
    rw [List.length_append, List.length_singleton]
    omega
  rw [List.set_eq_take_append_cons_drop, if_pos hlt, Bytes.cstr_append_zero,
    List.take_append_of_le_length h]

theorem decodedName_cons (length : UInt8) (p : List UInt8) :
    decodedName (length :: p) =
      if 2 * turns length ≤ p.length ∧ turns length ≤ 16 then some (nameOf (turns length) p)
      else none := by
  rw [decodedName, decodeName, decodeLoop_eq, List.length_nil, Nat.zero_add]
  by_cases hfit : 2 * turns length ≤ p.length ∧ turns length ≤ 16
  · rw [if_pos ⟨hfit.1, Nat.lt_succ_of_le hfit.2⟩, if_pos hfit, Option.map_some, List.nil_append,
      Nat.zero_add, cstr_set List.countP_le_length, nameOf]
  · rw [if_neg fun h => hfit ⟨h.1, Nat.le_of_lt_succ h.2⟩, if_neg hfit, Option.map_none]

/-! ### A name and its letters -/

theorem letter_letters (c : UInt8) : letter (highLetter c) (lowLetter c) = c := by
  have hall : ∀ i : Fin 256, letter (highLetter (.ofFin i)) (lowLetter (.ofFin i)) = .ofFin i := by
    decide +kernel
  exact hall c.toFin

/-- Decoding gives the name back, with the spaces behind it. -/
theorem letters_encodeLoop (n : ℕ) (name : List UInt8) (checksum : UInt8) (rest : List UInt8) :
    letters n ((encodeLoop n name checksum).1 ++ rest) =
      (name ++ List.replicate n space).take n := by
  induction n generalizing name checksum with
  | zero => simp [letters]
  | succ n ih =>
    rw [encodeLoop, List.cons_append, List.cons_append, letters, letter_letters, ih]
    cases name with
    | nil => simp [List.replicate_succ]
    | cons c name =>
      have hlen : n ≤ (name ++ List.replicate n space).length := by
        rw [List.length_append, List.length_replicate]
        omega
      rw [List.headD_cons, List.tail_cons, List.cons_append, List.take_succ_cons,
        List.replicate_succ', ← List.append_assoc, List.take_append_of_le_length hlen]

theorem length_encodeLoop (n : ℕ) (name : List UInt8) (checksum : UInt8) :
    (encodeLoop n name checksum).1.length = 2 * n + 1 := by
  induction n generalizing name checksum with
  | zero => rfl
  | succ n ih =>
    rw [encodeLoop, List.length_cons, List.length_cons, ih]
    omega

theorem turns_32 : turns 32 = 16 := rfl

/-- The name that is read back ends after as many characters as are not spaces. -/
theorem nameOf_encodeName (name : Name) (rest : List UInt8) :
    nameOf 16 ((encodeName name.bytes 32).1 ++ rest) =
      name.bytes.take (name.bytes.countP (· ≠ space)) := by
  have hpad : (name.bytes ++ List.replicate 16 space).take 16 =
      name.bytes ++ List.replicate (16 - name.bytes.length) space := by
    rw [List.take_append, List.take_of_length_le name.length_le, List.take_replicate,
      Nat.min_eq_left (Nat.sub_le _ _)]
  have hcount : (name.bytes ++ List.replicate (16 - name.bytes.length) space).countP (· ≠ space) =
      name.bytes.countP (· ≠ space) := by
    rw [List.countP_append, List.countP_replicate]
    simp
  rw [nameOf, encodeName, turns_32, letters_encodeLoop, hpad, hcount,
    List.take_append_of_le_length List.countP_le_length]
  exact Bytes.cstr_of_not_mem fun h => name.zero_not_mem (List.mem_of_mem_take h)

theorem take_countP_eq_self_iff {t : List UInt8} :
    t.take (t.countP (· ≠ space)) = t ↔ space ∉ t := by
  rw [List.take_eq_self_iff]
  constructor
  · intro hlen hmem
    have hall := List.countP_eq_length.mp (Nat.le_antisymm List.countP_le_length hlen)
    simpa using hall space hmem
  · intro hmem
    refine (List.countP_eq_length.mpr fun c hc => ?_).ge
    rw [decide_eq_true_eq]
    rintro rfl
    exact hmem hc

theorem decodedName_encodeName (name : Name) (rest : List UInt8) :
    decodedName (32 :: ((encodeName name.bytes 32).1 ++ rest)) =
      some (name.bytes.take (name.bytes.countP (· ≠ space))) := by
  have hlen : 2 * turns 32 ≤ ((encodeName name.bytes 32).1 ++ rest).length := by
    rw [List.length_append, encodeName, length_encodeLoop]
    omega
  rw [decodedName_cons, if_pos ⟨hlen, by decide⟩, turns_32, nameOf_encodeName]

/-! ### A response to a question -/

theorem id_bytes (id : UInt16) : 256 * (id >>> 8).toUInt8.toNat + id.toUInt8.toNat = id.toNat := by
  have hlt := id.toNat_lt
  rw [UInt16.toNat_toUInt8, UInt16.toNat_toUInt8, UInt16.toNat_shiftRight]
  have h8 : (8 : UInt16).toNat % 16 = 8 := rfl
  rw [h8, Nat.shiftRight_eq_div_pow]
  omega

theorem field_zero {frame : List UInt8} {a b : UInt8} (h : frame.take 2 = [a, b]) :
    field frame 0 = 256 * a.toNat + b.toNat := by
  match frame with
  | [] => simp at h
  | [_] => simp at h
  | x :: y :: frame =>
    obtain ⟨rfl, rfl⟩ : x = a ∧ y = b := by simpa using h
    rfl

theorem matched_of_not_mem {name : Name} (h : space ∉ name.bytes) : Matched name := by
  have htake := take_countP_eq_self_iff.mpr h
  refine ⟨?_, fun record uid thid pending question datagram hfind hecho => ?_⟩
  · have := decodedName_encodeName name []
    rwa [List.append_nil, htake] at this
  · rw [findName] at hfind
    split_ifs at hfind with hrecord
    obtain ⟨rfl, rfl⟩ := Prod.mk.inj (Option.some.inj hfind)
    have hlen : 62 ≤ (recv datagram).length := by
      rw [recv, List.length_take]
      have := hecho.length_le
      omega
    have hid : field (recv datagram) 0 =
        ((encodeName name.bytes 32).2.toUInt16 ||| (uid.toUInt16 <<< 8)).toNat := by
      rw [field_zero hecho.id, id_bytes]
    have hname : (recv datagram).drop 12 =
        32 :: ((encodeName name.bytes 32).1 ++ (recv datagram).drop 46) := by
      have henc : (encodeName name.bytes 32).1.length = 33 := length_encodeLoop 16 _ _
      have h34 : ((recv datagram).drop 12).take 34 = 32 :: (encodeName name.bytes 32).1 := by
        rw [hecho.name]
        simp [henc]
      calc (recv datagram).drop 12
          = ((recv datagram).drop 12).take 34 ++ ((recv datagram).drop 12).drop 34 :=
            (List.take_append_drop 34 _).symm
        _ = _ := by rw [h34, List.drop_drop, List.cons_append]
    have hdecoded : decodedName ((recv datagram).drop 12) = some name.bytes := by
      rw [hname, decodedName_encodeName, htake]
    rw [receive, if_pos ⟨by omega, hecho.positive⟩, hdecoded, Option.bind_some, if_pos, if_pos hlen]
    exact ⟨⟨rfl, rfl, hid⟩, rfl, by simp⟩

theorem not_mem_of_matched {name : Name} (h : Matched name) : space ∉ name.bytes := by
  have hdecoded := decodedName_encodeName name []
  rw [List.append_nil, h.1] at hdecoded
  exact take_countP_eq_self_iff.mp (Option.some.inj hdecoded).symm

/-! ### Any datagram -/

theorem resolved_recv (record : Record) (datagram : List UInt8) :
    resolved record (recv datagram) = resolved record datagram := by
  have htake : ((datagram.take 576).drop 58).take 4 = (datagram.drop 58).take 4 := by
    rw [List.drop_take, List.take_take]
    rfl
  rw [resolved, resolved, recv, htake]

theorem length_recv_iff {datagram : List UInt8} {n : ℕ} (hn : n ≤ 576) :
    n ≤ (recv datagram).length ↔ n ≤ datagram.length := by
  rw [recv, List.length_take]
  omega

theorem receive_of_name {record : Record} {frame p : List UInt8} {length : UInt8}
    (h12 : 12 ≤ frame.length) (hpos : Positive frame) (hframe : frame.drop 12 = length :: p)
    (hturns : turns length ≤ 16) (hp : 2 * turns length ≤ p.length) :
    receive record frame =
      if lookupName record (nameOf (turns length) p) (field frame 0) ∧ record.init ∧
          ¬ record.valid then
        if 62 ≤ frame.length then some (resolved record frame, wakeup record) else none
      else some (record, none) := by
  rw [receive, if_pos ⟨h12, hpos⟩, hframe, decodedName_cons, if_pos ⟨hp, hturns⟩, Option.bind_some]

theorem receivesWell_of_datagramOk {record : Record} {datagram : List UInt8}
    (h : DatagramOk record datagram) : ReceivesWell record datagram := by
  by_cases hpos : 12 ≤ (recv datagram).length ∧ Positive (recv datagram)
  · obtain ⟨length, p, hframe, hturns, hp, haddress⟩ :=
      h ((length_recv_iff (by decide)).mp hpos.1) hpos.2
    rw [ReceivesWell, receive_of_name hpos.1 hpos.2 hframe hturns hp]
    split_ifs with hmatch hlen
    · have hlen' := (length_recv_iff (by decide)).mp hlen
      exact ⟨_, _, rfl, .inr ⟨hlen', resolved_recv record datagram⟩⟩
    · refine absurd ((length_recv_iff (by decide)).mpr ?_) hlen
      exact haddress hmatch.1 hmatch.2.1 (by simpa using hmatch.2.2)
    · exact ⟨_, _, rfl, .inl rfl⟩
  · exact ⟨record, none, by rw [receive, if_neg hpos], .inl rfl⟩

theorem datagramOk_of_receivesWell {record : Record} {datagram : List UInt8}
    (h : ReceivesWell record datagram) : DatagramOk record datagram := by
  intro h12 hpos
  obtain ⟨record', wake, hreceive, -⟩ := h
  have h12' := (length_recv_iff (by decide)).mpr h12
  rcases hframe : (recv datagram).drop 12 with _ | ⟨length, p⟩
  · rw [receive, if_pos ⟨h12', hpos⟩, hframe] at hreceive
    cases hreceive
  · by_cases hfit : 2 * turns length ≤ p.length ∧ turns length ≤ 16
    · refine ⟨length, p, rfl, hfit.2, hfit.1, fun hlookup hinit hvalid => ?_⟩
      rw [receive_of_name h12' hpos hframe hfit.2 hfit.1, if_pos ⟨hlookup, hinit, by simp [hvalid]⟩]
        at hreceive
      split_ifs at hreceive with hlen
      exact (length_recv_iff (by decide)).mp hlen
    · rw [receive, if_pos ⟨h12', hpos⟩, hframe, decodedName_cons, if_neg hfit] at hreceive
      cases hreceive

/-- A response finds its record exactly when the name has no space in it. A datagram is received
well exactly when it has the bytes in it that are read, and no more than 16 characters. -/
theorem matched_iff_and_receivesWell_iff (name : Name) (record : Record)
    (datagram : List UInt8) :
    (Matched name ↔ space ∉ name.bytes) ∧
      (ReceivesWell record datagram ↔ DatagramOk record datagram) :=
  ⟨⟨not_mem_of_matched, matched_of_not_mem⟩,
    datagramOk_of_receivesWell, receivesWell_of_datagramOk⟩

/-- `MY PC` is read back without its last character, and the NUL behind a name of 34 letters is
written behind `decoded_name`. -/
theorem not_matched_and_not_receivesWell :
    ¬ Matched ⟨[0x4D, 0x59, 0x20, 0x50, 0x43], by decide, by decide⟩ ∧
      ¬ ReceivesWell ⟨false, false, false, ⟨[], by decide, by decide⟩, [0, 0, 0, 0], 0, 0⟩
        ([0, 0, 0x85, 0, 0, 0, 0, 1, 0, 0, 0, 0, 34] ++ List.replicate 34 letterA) := by
  constructor
  · rintro ⟨h, -⟩
    revert h
    decide
  · intro h
    obtain ⟨length, p, hframe, hturns, -⟩ := datagramOk_of_receivesWell h (by decide) (by decide)
    obtain rfl : 34 = length := (List.cons.inj hframe).1
    revert hturns
    decide

end Nbns

end OpenPS2Loader
