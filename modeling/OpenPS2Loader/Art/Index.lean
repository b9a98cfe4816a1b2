import Mathlib.Logic.Function.Basic
import OpenPS2Loader.Art.Listing
import OpenPS2Loader.Lib.Transition

/-!
# The index of the art folders

`artindex.c` keeps the sorted hashes of the names in up to three folders, so that a file that is not
there need not be looked for on the device. One thread asks, the owner; any thread may call
`artIndexInvalidate` in between, at any point of a query and of the sweep that a query makes.

A step is one access to what the threads share: a field of a slot, or `gArtIndexGen`, whose
increment is a load and a store. What `opendir`, `malloc` and `readdir` return is an input, so a
folder may hold anything and may change from one sweep to the next. The machine also writes down
what the program does not: every listing that `readdir` ended, with how many invalidations had come
to their end when the folder was opened.

The rule of `artindex.h` is that an answer 0 is never given on incomplete information. A sweep
passes over every name with a dot in front, not only over `.` and `..`, and for the name of such a
file the answer is 0 although the file may be there.

## Main definitions

* `ArtIndex.step` — the owner and the threads that invalidate, interleaved
* `ArtIndex.Truthful` — who answers 0 has a listing without the name, which is recent
* `ArtIndex.Undisturbed` — a step neither asks for a name with a dot in front, nor opens a folder
  for a slot that an invalidation under way has already emptied

## Main results

* `ArtIndex.truthful_of_runOk` — in every run of `Undisturbed` steps
* `ArtIndex.not_truthful_dotName` — a file with a dot in front
-/

namespace OpenPS2Loader

namespace ArtIndex

/-! ### The slots and the threads -/

/-- `art_index_dir_t`. -/
structure Slot where
  dir : Name
  hashes : Option (List UInt32)
  count : ℕ
  valid : Bool
  deriving DecidableEq

/-- What `readdir` returned for a folder that was opened as `path`, to its end. -/
structure Listing where
  path : Name
  entries : List Name
  /-- how many invalidations had come to their end when the folder was opened -/
  ended : ℕ
  deriving DecidableEq

/-- A query of the owner. -/
structure Query where
  dir : Name
  base : Name
  /-- how many invalidations had come to their end when it was asked -/
  asked : ℕ
  /-- its `genBefore`, once it was read -/
  genBefore : UInt32
  deriving DecidableEq

/-- Where the owner is in `artIndexMayExist`. -/
inductive Owner
  | idle
  /-- at the first read of `gArtIndexGen` -/
  | asked (q : Query)
  /-- in `artIndexSlotFor`, at a slot -/
  | slotFor (q : Query) (i : Fin 3)
  /-- at the start of `artIndexBuild` -/
  | build (q : Query)
  /-- a slot was taken and is empty -/
  | freed (q : Query) (k : Fin 3)
  /-- the slot has the name of the folder -/
  | named (q : Query) (k : Fin 3)
  /-- at `opendir` of the folder as it was given -/
  | opening (q : Query) (k : Fin 3)
  /-- at `opendir` of its other form -/
  | openingAlt (q : Query) (k : Fin 3) (alt : Name)
  /-- at `malloc`, with a folder that was opened -/
  | opened (q : Query) (k : Fin 3) (l : Listing)
  /-- at `readdir`, with the hashes so far -/
  | sweeping (q : Query) (k : Fin 3) (l : Listing) (hashes : List UInt32)
  /-- behind `qsort` -/
  | sorted (q : Query) (k : Fin 3) (l : Listing) (hashes : List UInt32)
  /-- the slot has its hashes and their number -/
  | filled (q : Query) (k : Fin 3) (l : Listing)
  /-- behind `artIndexSlotFor`, with a slot -/
  | found (q : Query) (k : Fin 3)
  /-- at the bisection -/
  | searching (q : Query) (k : Fin 3)
  /-- at the second read of `gArtIndexGen` -/
  | absent (q : Query)
  | answered (q : Query) (answer : Bool)
  deriving DecidableEq

/-- Where a thread is in `artIndexInvalidate`. -/
inductive Invalidate
  | idle
  /-- `gArtIndexGen` was loaded -/
  | loaded (gen : UInt32)
  /-- at `valid = 0` of a slot -/
  | invalid (k : Fin 3)
  /-- at `dir[0] = '\0'` of a slot -/
  | empty (k : Fin 3)
  deriving DecidableEq

/-- The thread has emptied the slot and is not at its end. -/
def Invalidate.Emptied : Invalidate → Fin 3 → Prop
  | .invalid j, k => k < j
  | .empty j, k => k < j
  | _, _ => False

end ArtIndex

open ArtIndex in
/-- The variables of `artindex.c`, where the threads are, and what was listed. -/
structure ArtIndex where
  /-- `gArtIndex` -/
  slots : Fin 3 → Slot
  /-- `gArtIndexNext` -/
  next : Fin 3
  /-- `gArtIndexGen` -/
  gen : UInt32
  owner : Owner
  invalidate : ℕ → Invalidate
  /-- how many invalidations have come to their end -/
  ended : ℕ
  listings : List Listing

namespace ArtIndex

/-- At the start of the program. -/
def start : ArtIndex :=
  ⟨fun _ => ⟨[], none, 0, false⟩, 0, 0, .idle, fun _ => .idle, 0, []⟩

/-- The owner goes on elsewhere. -/
def goto (s : ArtIndex) (o : Owner) : ArtIndex := { s with owner := o }

/-- A slot is written. -/
def setSlot (s : ArtIndex) (k : Fin 3) (slot : Slot) : ArtIndex :=
  { s with slots := Function.update s.slots k slot }

/-- A thread that invalidates goes on elsewhere. -/
def setInvalidate (s : ArtIndex) (t : ℕ) (i : Invalidate) : ArtIndex :=
  { s with invalidate := Function.update s.invalidate t i }

/-- `artIndexMayExist` up to the slots. Where it answers 1 there, nothing was touched. -/
def mayExist (s : ArtIndex) (q : Option (Name × Name)) : Option ArtIndex :=
  match q with
  | none => some s
  | some (dir, base) =>
    match s.owner with
    | .idle => some (s.goto (.asked ⟨dir, base, s.ended, 0⟩))
    | _ => none

/-- The loop of `artIndexSlotFor`. -/
def slotFor (s : ArtIndex) (q : Query) (i : Fin 3) : ArtIndex :=
  if (s.slots i).dir ≠ [] ∧ (s.slots i).dir = q.dir then s.goto (.found q i)
  else if h : i.val + 1 < 3 then s.goto (.slotFor q ⟨i.val + 1, h⟩)
  else s.goto (.build q)

/-- `artIndexBuild` takes a slot and frees its hashes. -/
def takeSlot (s : ArtIndex) (q : Query) : ArtIndex :=
  let freed : Slot :=
    match (s.slots s.next).hashes with
    | none => s.slots s.next
    | some _ => { s.slots s.next with hashes := none, count := 0, valid := false }
  { s.setSlot s.next freed with next := s.next + 1 }.goto (.freed q s.next)

/-- The bisection, and what it answers. -/
def search (s : ArtIndex) (q : Query) (k : Fin 3) : ArtIndex :=
  if artIndexSearch ((s.slots k).hashes.getD []) (artIndexHash q.base) 0
      ((s.slots k).count - 1) then
    s.goto (.answered q true)
  else s.goto (.absent q)

/-- The next step of the owner, where it needs no input. -/
def own (s : ArtIndex) : Owner → Option ArtIndex
  | .asked q => some (s.goto (.slotFor { q with genBefore := s.gen } 0))
  | .slotFor q i => some (s.slotFor q i)
  | .build q => some (s.takeSlot q)
  | .freed q k => some ((s.setSlot k { s.slots k with dir := q.dir }).goto (.named q k))
  | .named q k =>
    some ((s.setSlot k { s.slots k with valid := false, count := 0 }).goto (.opening q k))
  | .sorted q k l hashes =>
    some ((s.setSlot k { s.slots k with hashes := some hashes, count := hashes.length }).goto
      (.filled q k l))
  | .filled q k _ => some ((s.setSlot k { s.slots k with valid := true }).goto (.found q k))
  | .found q k =>
    if (s.slots k).valid = false ∨ (s.slots k).hashes = none then some (s.goto (.answered q true))
    else some (s.goto (.searching q k))
  | .searching q k => some (s.search q k)
  | .absent q => some (s.goto (.answered q (s.gen != q.genBefore)))
  | .answered .. => some (s.goto .idle)
  | _ => none

/-- `opendir` returns: the folder as it was given, or else its other form. A folder that cannot be
opened leaves the slot as it is. -/
def opendir (s : ArtIndex) (ok : Bool) : Owner → Option ArtIndex
  | .opening q k =>
    if ok then some (s.goto (.opened q k ⟨q.dir, [], s.ended⟩))
    else
      match altDir q.dir with
      | none => some (s.goto (.found q k))
      | some alt => some (s.goto (.openingAlt q k alt))
  | .openingAlt q k alt =>
    if ok then some (s.goto (.opened q k ⟨alt, [], s.ended⟩)) else some (s.goto (.found q k))
  | _ => none

/-- `malloc` returns. -/
def malloc (s : ArtIndex) (ok : Bool) : Owner → Option ArtIndex
  | .opened q k l => if ok then some (s.goto (.sweeping q k l [])) else some (s.goto (.found q k))
  | _ => none

/-- An entry of the folder. A folder that is too large is not indexed. -/
def sweepEntry (s : ArtIndex) (q : Query) (k : Fin 3) (l : Listing) (hashes : List UInt32)
    (name : Name) : ArtIndex :=
  let l' := { l with entries := l.entries ++ [name] }
  if skipped name then s.goto (.sweeping q k l' hashes)
  else if artIndexMaxEntries ≤ hashes.length then s.goto (.found q k)
  else s.goto (.sweeping q k l' (hashes ++ [artIndexHash name]))

/-- `readdir` returns an entry, or `NULL` behind the last one. -/
def readdir (s : ArtIndex) (entry : Option Name) : Owner → Option ArtIndex
  | .sweeping q k l hashes =>
    match entry with
    | some name => some (s.sweepEntry q k l hashes name)
    | none =>
      some ({ s with listings := l :: s.listings }.goto (.sorted q k l (sortHashes hashes)))
  | _ => none

/-- The next step of a thread in `artIndexInvalidate`. -/
def artIndexInvalidate (s : ArtIndex) (t : ℕ) : Invalidate → ArtIndex
  | .idle => s.setInvalidate t (.loaded s.gen)
  | .loaded gen => { s with gen := gen + 1 }.setInvalidate t (.invalid 0)
  | .invalid k => (s.setSlot k { s.slots k with valid := false }).setInvalidate t (.empty k)
  | .empty k =>
    let s := s.setSlot k { s.slots k with dir := [] }
    if h : k.val + 1 < 3 then s.setInvalidate t (.invalid ⟨k.val + 1, h⟩)
    else { s with ended := s.ended + 1 }.setInvalidate t .idle

/-- What the threads do. -/
inductive Event
  /-- `artIndexMayExist` is called in a thread -/
  | mayExist (thread : ℤ) (fullPath : Option Name)
  | own
  | opendir (ok : Bool)
  | malloc (ok : Bool)
  | readdir (entry : Option Name)
  /-- a thread calls `artIndexInvalidate`, or goes on in it -/
  | invalidate (t : ℕ)
  deriving DecidableEq

/-- A step of one thread. -/
def step (ownerThread : ℤ) (s : ArtIndex) : Event → Option ArtIndex
  | .mayExist thread fullPath => s.mayExist (ask ownerThread thread fullPath)
  | .own => s.own s.owner
  | .opendir ok => s.opendir ok s.owner
  | .malloc ok => s.malloc ok s.owner
  | .readdir entry => s.readdir entry s.owner
  | .invalidate t => some (s.artIndexInvalidate t (s.invalidate t))

/-! ### Who answers 0 -/

/-- The listing is one of the folder. -/
def Listing.Of (l : Listing) (dir : Name) : Prop := l.path = dir ∨ altDir dir = some l.path

/-- A listing of the folder, which was opened after every invalidation that had come to its end when
the owner was asked, does not have the name. -/
def Justified (s : ArtIndex) (q : Query) : Prop :=
  ∃ l ∈ s.listings, l.Of q.dir ∧ q.asked ≤ l.ended ∧ ∀ e ∈ l.entries, ¬ SameName e q.base

/-- An answer 0 is justified. -/
def Truthful (s : ArtIndex) : Prop := ∀ q, s.owner = .answered q false → Justified s q

/-- The owner is not asked for a name with a dot in front, and it does not open a folder for a slot
that an invalidation under way has already emptied. -/
def Undisturbed (ownerThread : ℤ) (s : ArtIndex) : Event → Prop
  | .mayExist thread fullPath => ∀ dir base, ask ownerThread thread fullPath = some (dir, base) →
      base.head? ≠ some 46
  | .opendir true => ∀ q k, (s.owner = .opening q k ∨ ∃ alt, s.owner = .openingAlt q k alt) →
      ∀ t, ¬ (s.invalidate t).Emptied k
  | _ => True

/-! ### The invariant -/

/-- The slot has the hashes of the listing. -/
structure HasListing (slot : Slot) (l : Listing) : Prop where
  hashes : slot.hashes = some (sortHashes (listedHashes l.entries))
  count : slot.count = (listedHashes l.entries).length

/-- As long as the slot `k` is not emptied, no invalidation has come to its end since the folder was
opened, and none will before it empties the slot. -/
def Recent (s : ArtIndex) (k : Fin 3) (dir : Name) (l : Listing) : Prop :=
  dir ≠ [] → s.ended ≤ l.ended ∧ ∀ t, ¬ (s.invalidate t).Emptied k

/-- What a valid slot holds. -/
def SlotOk (s : ArtIndex) (k : Fin 3) (slot : Slot) : Prop :=
  slot.valid = true → ∃ l ∈ s.listings, HasListing slot l ∧ (slot.dir ≠ [] → l.Of slot.dir) ∧
    Recent s k slot.dir l

/-- A query that can be answered. -/
structure QueryOk (ended : ℕ) (q : Query) : Prop where
  asked : q.asked ≤ ended
  dir : q.dir ≠ []
  base : q.base ≠ []
  dot : q.base.head? ≠ some 46

/-- The slot that is built for a query. -/
structure Built (ended : ℕ) (q : Query) (slot : Slot) : Prop extends QueryOk ended q where
  valid : slot.valid = false
  same : slot.dir ≠ [] → slot.dir = q.dir

/-- The slot that is built is being filled. -/
structure Filling (s : ArtIndex) (q : Query) (k : Fin 3) (l : Listing) : Prop
    extends Built s.ended q (s.slots k) where
  path : l.Of q.dir
  since : q.asked ≤ l.ended
  recent : Recent s k (s.slots k).dir l

/-- The slot holds a listing that can answer the query. -/
def Answers (s : ArtIndex) (q : Query) (slot : Slot) : Prop :=
  ∃ l ∈ s.listings, HasListing slot l ∧ l.Of q.dir ∧ q.asked ≤ l.ended

/-- What holds where the owner is. -/
def OwnerOk (s : ArtIndex) : Owner → Prop
  | .idle => True
  | .asked q => QueryOk s.ended q
  | .slotFor q _ => QueryOk s.ended q
  | .build q => QueryOk s.ended q
  | .freed q k => QueryOk s.ended q ∧ (s.slots k).valid = false
  | .named q k => Built s.ended q (s.slots k)
  | .opening q k => Built s.ended q (s.slots k)
  | .openingAlt q k alt => Built s.ended q (s.slots k) ∧ altDir q.dir = some alt
  | .opened q k l => Filling s q k l ∧ l.entries = []
  | .sweeping q k l hashes => Filling s q k l ∧ hashes = listedHashes l.entries
  | .sorted q k l hashes => Filling s q k l ∧ l ∈ s.listings ∧
      hashes = sortHashes (listedHashes l.entries)
  | .filled q k l => Filling s q k l ∧ l ∈ s.listings ∧ HasListing (s.slots k) l
  | .found q k => QueryOk s.ended q ∧ ((s.slots k).valid = true → Answers s q (s.slots k))
  | .searching q k => QueryOk s.ended q ∧ Answers s q (s.slots k)
  | .absent q => Justified s q
  | .answered q answer => answer = false → Justified s q

structure Sound (s : ArtIndex) : Prop where
  slots : ∀ k, SlotOk s k (s.slots k)
  owner : OwnerOk s s.owner

variable {s s' : ArtIndex} {q : Query} {k : Fin 3} {l : Listing} {slot : Slot} {t : ℕ}

theorem sound_start : Sound start where
  slots _ h := Bool.noConfusion h
  owner := trivial

/-! ### The steps of an invalidation -/

/-- What a step of an invalidation may change. -/
structure Invalidated (s s' : ArtIndex) : Prop where
  owner : s'.owner = s.owner
  listings : s'.listings = s.listings
  ended : s.ended ≤ s'.ended
  hashes : ∀ k, (s'.slots k).hashes = (s.slots k).hashes
  count : ∀ k, (s'.slots k).count = (s.slots k).count
  valid : ∀ k, (s'.slots k).valid = true → (s.slots k).valid = true
  dir : ∀ k, (s'.slots k).dir ≠ [] → (s'.slots k).dir = (s.slots k).dir
  recent : ∀ k l, Recent s k (s.slots k).dir l → Recent s' k (s'.slots k).dir l

theorem Invalidated.hasListing (h : Invalidated s s') (hl : HasListing (s.slots k) l) :
    HasListing (s'.slots k) l :=
  ⟨(h.hashes k).trans hl.hashes, (h.count k).trans hl.count⟩

theorem Invalidated.queryOk (h : Invalidated s s') (hq : QueryOk s.ended q) : QueryOk s'.ended q :=
  { hq with asked := Nat.le_trans hq.asked h.ended }

theorem Invalidated.not_valid (h : Invalidated s s') (hv : (s.slots k).valid = false) :
    (s'.slots k).valid = false := by
  rw [← Bool.not_eq_true] at hv ⊢
  exact fun hv' => hv (h.valid k hv')

theorem Invalidated.built (h : Invalidated s s') (hb : Built s.ended q (s.slots k)) :
    Built s'.ended q (s'.slots k) where
  toQueryOk := h.queryOk hb.toQueryOk
  valid := h.not_valid hb.valid
  same hne := by
    rw [h.dir k hne]
    exact hb.same (h.dir k hne ▸ hne)

theorem Invalidated.filling (h : Invalidated s s') (hf : Filling s q k l) : Filling s' q k l where
  toBuilt := h.built hf.toBuilt
  path := hf.path
  since := hf.since
  recent := h.recent k l hf.recent

theorem Invalidated.answers (h : Invalidated s s') (ha : Answers s q (s.slots k)) :
    Answers s' q (s'.slots k) := by
  obtain ⟨l, hl, hhas, hof, hsince⟩ := ha
  exact ⟨l, h.listings ▸ hl, h.hasListing hhas, hof, hsince⟩

theorem Invalidated.justified (h : Invalidated s s') (hj : Justified s q) : Justified s' q := by
  rw [Justified, h.listings]
  exact hj

theorem Invalidated.slotOk (h : Invalidated s s') (hs : SlotOk s k (s.slots k)) :
    SlotOk s' k (s'.slots k) := by
  intro hv
  obtain ⟨l, hl, hhas, hof, hrecent⟩ := hs (h.valid k hv)
  refine ⟨l, h.listings ▸ hl, h.hasListing hhas, fun hne => ?_, h.recent k l hrecent⟩
  rw [h.dir k hne]
  exact hof (h.dir k hne ▸ hne)

theorem Invalidated.ownerOk (h : Invalidated s s') (hs : OwnerOk s s.owner) :
    OwnerOk s' s'.owner := by
  rw [h.owner]
  revert hs
  cases s.owner with
  | idle => exact id
  | asked q => exact h.queryOk
  | slotFor q i => exact h.queryOk
  | build q => exact h.queryOk
  | freed q k => exact And.imp h.queryOk h.not_valid
  | named q k => exact h.built
  | opening q k => exact h.built
  | openingAlt q k alt => exact And.imp_left h.built
  | opened q k l => exact And.imp_left h.filling
  | sweeping q k l hashes => exact And.imp_left h.filling
  | sorted q k l hashes =>
    rw [OwnerOk, OwnerOk, h.listings]
    exact And.imp_left h.filling
  | filled q k l =>
    rw [OwnerOk, OwnerOk, h.listings]
    exact And.imp h.filling (And.imp_right h.hasListing)
  | found q k => exact And.imp h.queryOk fun ha hv => h.answers (ha (h.valid k hv))
  | searching q k => exact And.imp h.queryOk h.answers
  | absent q => exact h.justified
  | answered q answer => exact fun hj hfalse => h.justified (hj hfalse)

theorem Invalidated.sound (h : Invalidated s s') (hs : Sound s) : Sound s' :=
  ⟨fun k => h.slotOk (hs.slots k), h.ownerOk hs.owner⟩

/-- A step of an invalidation that writes to no slot. -/
theorem Invalidated.ofGen {gen : UInt32} {i : Invalidate}
    (hi : ∀ k, i.Emptied k → (s.invalidate t).Emptied k) :
    Invalidated s ({ s with gen := gen }.setInvalidate t i) where
  owner := rfl
  listings := rfl
  ended := Nat.le_refl _
  hashes _ := rfl
  count _ := rfl
  valid _ := id
  dir _ _ := rfl
  recent k l h hne := by
    refine ⟨(h hne).1, fun u hu => ?_⟩
    simp only [setInvalidate, Function.update_apply] at hu
    split_ifs at hu with hut
    · exact (h hne).2 t (hi k hu)
    · exact (h hne).2 u hu

theorem slots_setSlot (s : ArtIndex) (k j : Fin 3) (slot : Slot) :
    (s.setSlot k slot).slots j = if j = k then slot else s.slots j :=
  Function.update_apply ..

theorem invalidate_setInvalidate (s : ArtIndex) (t u : ℕ) (i : Invalidate) :
    (s.setInvalidate t i).invalidate u = if u = t then i else s.invalidate u :=
  Function.update_apply ..

/-- `valid = 0`. -/
theorem invalidated_invalid (ht : s.invalidate t = .invalid k) :
    Invalidated s ((s.setSlot k { s.slots k with valid := false }).setInvalidate t (.empty k)) where
  owner := rfl
  listings := rfl
  ended := Nat.le_refl _
  hashes j := by
    rw [setInvalidate, slots_setSlot]
    split_ifs with hj
    · rw [hj]
    · rfl
  count j := by
    rw [setInvalidate, slots_setSlot]
    split_ifs with hj
    · rw [hj]
    · rfl
  valid j hv := by
    rw [setInvalidate, slots_setSlot] at hv
    split_ifs at hv
    exact hv
  dir j _ := by
    rw [setInvalidate, slots_setSlot]
    split_ifs with hj
    · rw [hj]
    · rfl
  recent j l h hne := by
    have hdir : (s.slots j).dir ≠ [] := by
      rw [setInvalidate, slots_setSlot] at hne
      split_ifs at hne with hj
      · exact hj ▸ hne
      · exact hne
    refine ⟨(h hdir).1, fun u hu => ?_⟩
    rw [invalidate_setInvalidate] at hu
    split_ifs at hu with hut
    · exact (h hdir).2 t (by rwa [ht])
    · exact (h hdir).2 u hu

/-- `dir[0] = '\0'`, and the loop goes on or ends. -/
theorem invalidated_empty (ht : s.invalidate t = .empty k) :
    Invalidated s (s.artIndexInvalidate t (.empty k)) := by
  have hslots : ∀ j, (s.artIndexInvalidate t (.empty k)).slots j =
      if j = k then { s.slots k with dir := [] } else s.slots j := by
    intro j
    rw [artIndexInvalidate]
    dsimp only
    split <;> exact slots_setSlot ..
  have hfield : ∀ {β : Type} (field : Slot → β) (j : Fin 3),
      field { s.slots k with dir := [] } = field (s.slots k) →
      field ((s.artIndexInvalidate t (.empty k)).slots j) = field (s.slots j) := by
    intro β field j hk
    rw [hslots]
    split_ifs with hj
    · rw [hk, hj]
    · rfl
  refine ⟨?_, ?_, ?_, fun j => hfield _ j rfl, fun j => hfield _ j rfl,
    fun j hv => hfield Slot.valid j rfl ▸ hv, fun j hne => ?_, fun j l h hne => ?_⟩
  · rw [artIndexInvalidate]
    dsimp only
    split <;> rfl
  · rw [artIndexInvalidate]
    dsimp only
    split <;> rfl
  · rw [artIndexInvalidate]
    dsimp only
    split
    · exact Nat.le_refl _
    · exact Nat.le_succ _
  · rw [hslots] at hne ⊢
    split_ifs at hne ⊢ with hj
    · exact absurd rfl hne
    · rfl
  · rw [hslots] at hne
    split_ifs at hne with hj
    · exact absurd rfl hne
    obtain ⟨hended, hnone⟩ := h hne
    -- the slots in front of `k` were emptied by this very invalidation
    have hlt : k.val < j.val := by
      have hnot : ¬ j.val < k.val := fun hjk => hnone t (by rwa [ht])
      have hne' : j.val ≠ k.val := fun heq => hj (Fin.ext heq)
      omega
    rw [artIndexInvalidate]
    dsimp only
    rw [dif_pos (show k.val + 1 < 3 by omega)]
    refine ⟨hended, fun u hu => ?_⟩
    rw [invalidate_setInvalidate] at hu
    split_ifs at hu with hut
    · exact absurd (show j.val < k.val + 1 from hu) (by omega)
    · exact hnone u hu

theorem invalidated_artIndexInvalidate (s : ArtIndex) (t : ℕ) :
    Invalidated s (s.artIndexInvalidate t (s.invalidate t)) := by
  cases ht : s.invalidate t with
  | idle => exact Invalidated.ofGen fun k hk => absurd hk id
  | loaded gen => exact Invalidated.ofGen fun k hk => absurd hk (Fin.not_lt_zero k)
  | invalid k => exact invalidated_invalid ht
  | empty k => exact invalidated_empty ht

/-! ### The steps of the owner -/

@[simp] theorem slots_setSlot_self (s : ArtIndex) (k : Fin 3) (slot : Slot) :
    (s.setSlot k slot).slots k = slot :=
  Function.update_self ..

/-- The owner writes to one slot. -/
theorem slotOk_setSlot (h : ∀ j, SlotOk s j (s.slots j)) (hslot : SlotOk s k slot) (j : Fin 3) :
    SlotOk s j ((s.setSlot k slot).slots j) := by
  rw [slots_setSlot]
  split_ifs with hj
  · rwa [hj]
  · exact h j

theorem slotOk_of_not_valid (h : slot.valid = false) : SlotOk s k slot :=
  fun hv => absurd (hv.symm.trans h) Bool.noConfusion

/-- A slot without hashes is not valid. -/
theorem SlotOk.valid_eq_false (h : SlotOk s k slot) (hnone : slot.hashes = none) :
    slot.valid = false := by
  rw [← Bool.not_eq_true]
  intro hv
  obtain ⟨l, -, hhas, -⟩ := h hv
  exact absurd (hnone.symm.trans hhas.hashes) (Option.some_ne_none _).symm

theorem sound_slotFor (hslots : ∀ j, SlotOk s j (s.slots j)) (hq : QueryOk s.ended q) (i : Fin 3) :
    Sound (s.slotFor q i) := by
  rw [slotFor]
  split_ifs with hdir hi
  · refine ⟨hslots, hq, fun hv => ?_⟩
    obtain ⟨l, hl, hhas, hof, hrecent⟩ := hslots i hv
    exact ⟨l, hl, hhas, hdir.2 ▸ hof hdir.1, Nat.le_trans hq.asked (hrecent hdir.1).1⟩
  · exact ⟨hslots, hq⟩
  · exact ⟨hslots, hq⟩

theorem sound_takeSlot (hslots : ∀ j, SlotOk s j (s.slots j)) (hq : QueryOk s.ended q) :
    Sound (s.takeSlot q) := by
  rw [takeSlot]
  split
  next hnone =>
    have hvalid := (hslots s.next).valid_eq_false hnone
    refine ⟨slotOk_setSlot hslots (slotOk_of_not_valid hvalid), hq, ?_⟩
    exact (congrArg Slot.valid (slots_setSlot_self s s.next _)).trans hvalid
  next =>
    refine ⟨slotOk_setSlot hslots (slotOk_of_not_valid rfl), hq, ?_⟩
    exact congrArg Slot.valid (slots_setSlot_self s s.next _)

theorem sound_search (hslots : ∀ j, SlotOk s j (s.slots j)) (hq : QueryOk s.ended q)
    (ha : Answers s q (s.slots k)) : Sound (s.search q k) := by
  rw [search]
  split_ifs with hfound
  · exact ⟨hslots, fun hfalse => Bool.noConfusion hfalse⟩
  · refine ⟨hslots, ?_⟩
    obtain ⟨l, hl, hhas, hof, hsince⟩ := ha
    rw [hhas.hashes, hhas.count, Option.getD_some, Bool.not_eq_true] at hfound
    exact ⟨l, hl, hof, hsince, not_sameName_of_search hfound hq.base hq.dot⟩

/-- The slot is filled and becomes valid. -/
theorem sound_filled (hslots : ∀ j, SlotOk s j (s.slots j)) (hf : Filling s q k l)
    (hl : l ∈ s.listings) (hhas : HasListing (s.slots k) l) :
    Sound ((s.setSlot k { s.slots k with valid := true }).goto (.found q k)) := by
  have hhas' : HasListing { s.slots k with valid := true } l := ⟨hhas.hashes, hhas.count⟩
  refine ⟨slotOk_setSlot hslots fun _ => ⟨l, hl, hhas', fun hne => ?_, hf.recent⟩, ?_, fun _ => ?_⟩
  · exact (hf.same hne).symm ▸ hf.path
  · exact ⟨hf.asked, hf.dir, hf.base, hf.dot⟩
  · refine ⟨l, hl, ?_, hf.path, hf.since⟩
    rwa [goto, slots_setSlot_self]

/-- **A step of the owner** that needs no input. -/
theorem Sound.own (h : Sound s) (hs : s.own s.owner = some s') : Sound s' := by
  have howner := h.owner
  have hslots := h.slots
  cases ho : s.owner with
  | asked q =>
    rw [ho] at hs howner
    obtain rfl := Option.some.inj hs
    exact ⟨hslots, howner.asked, howner.dir, howner.base, howner.dot⟩
  | slotFor q i =>
    rw [ho] at hs howner
    obtain rfl := Option.some.inj hs
    exact sound_slotFor hslots howner i
  | build q =>
    rw [ho] at hs howner
    obtain rfl := Option.some.inj hs
    exact sound_takeSlot hslots howner
  | freed q k =>
    rw [ho] at hs howner
    obtain rfl := Option.some.inj hs
    refine ⟨slotOk_setSlot hslots (slotOk_of_not_valid howner.2), ?_⟩
    rw [goto, OwnerOk, slots_setSlot_self]
    exact { howner.1 with valid := howner.2, same := fun _ => rfl }
  | named q k =>
    rw [ho] at hs howner
    obtain rfl := Option.some.inj hs
    refine ⟨slotOk_setSlot hslots (slotOk_of_not_valid rfl), ?_⟩
    rw [goto, OwnerOk, slots_setSlot_self]
    exact { howner with valid := rfl }
  | sorted q k l hashes =>
    rw [ho] at hs howner
    obtain rfl := Option.some.inj hs
    obtain ⟨hf, hl, rfl⟩ := howner
    refine ⟨slotOk_setSlot hslots (slotOk_of_not_valid hf.valid), ?_, hl, ?_⟩
    · refine { hf with valid := ?_, same := ?_, recent := ?_ } <;> rw [goto, slots_setSlot_self]
      · exact hf.valid
      · exact hf.same
      · exact hf.recent
    · rw [goto, slots_setSlot_self]
      exact ⟨rfl, List.length_mergeSort _⟩
  | filled q k l =>
    rw [ho] at hs howner
    obtain rfl := Option.some.inj hs
    exact sound_filled hslots howner.1 howner.2.1 howner.2.2
  | found q k =>
    rw [ho] at hs howner
    rw [ArtIndex.own] at hs
    split_ifs at hs with hinvalid
    · obtain rfl := Option.some.inj hs
      exact ⟨hslots, fun hfalse => Bool.noConfusion hfalse⟩
    · obtain rfl := Option.some.inj hs
      rw [not_or, Bool.not_eq_false] at hinvalid
      exact ⟨hslots, howner.1, howner.2 hinvalid.1⟩
  | searching q k =>
    rw [ho] at hs howner
    obtain rfl := Option.some.inj hs
    exact sound_search hslots howner.1 howner.2
  | absent q =>
    rw [ho] at hs howner
    obtain rfl := Option.some.inj hs
    exact ⟨hslots, fun _ => howner⟩
  | answered q answer =>
    rw [ho] at hs
    obtain rfl := Option.some.inj hs
    exact ⟨hslots, trivial⟩
  | _ =>
    rw [ho] at hs
    cases hs

/-- A folder was opened for the slot `k`. -/
theorem filling_opened {path : Name} (hb : Built s.ended q (s.slots k))
    (hpath : path = q.dir ∨ altDir q.dir = some path)
    (hnone : ∀ t, ¬ (s.invalidate t).Emptied k) : Filling s q k ⟨path, [], s.ended⟩ :=
  { hb with path := hpath, since := hb.asked, recent := fun _ => ⟨Nat.le_refl _, hnone⟩ }

/-- The slot stays as it is, so the answer will be 1. -/
theorem sound_notBuilt (hslots : ∀ j, SlotOk s j (s.slots j)) (hb : Built s.ended q (s.slots k)) :
    Sound (s.goto (.found q k)) :=
  ⟨hslots, hb.toQueryOk, fun hv => absurd (hv.symm.trans hb.valid) Bool.noConfusion⟩

/-- **A folder is opened**, or cannot be. -/
theorem Sound.opendir {ok : Bool} (h : Sound s)
    (hok : ok = true → ∀ q k, (s.owner = .opening q k ∨ ∃ alt, s.owner = .openingAlt q k alt) →
      ∀ t, ¬ (s.invalidate t).Emptied k)
    (hs : s.opendir ok s.owner = some s') : Sound s' := by
  have howner := h.owner
  have hslots := h.slots
  cases ho : s.owner with
  | opening q k =>
    rw [ho] at hs howner
    rw [ArtIndex.opendir] at hs
    split_ifs at hs with hopen
    · obtain rfl := Option.some.inj hs
      have hf := filling_opened howner (.inl rfl) (hok hopen q k (.inl ho))
      exact ⟨hslots, { hf with }, rfl⟩
    · split at hs
      next =>
        obtain rfl := Option.some.inj hs
        exact sound_notBuilt hslots howner
      next alt halt =>
        obtain rfl := Option.some.inj hs
        exact ⟨hslots, howner, halt⟩
  | openingAlt q k alt =>
    rw [ho] at hs howner
    rw [ArtIndex.opendir] at hs
    split_ifs at hs with hopen
    · obtain rfl := Option.some.inj hs
      have hf := filling_opened howner.1 (.inr howner.2) (hok hopen q k (.inr ⟨alt, ho⟩))
      exact ⟨hslots, { hf with }, rfl⟩
    · obtain rfl := Option.some.inj hs
      exact sound_notBuilt hslots howner.1
  | _ =>
    rw [ho] at hs
    cases hs

theorem Sound.malloc {ok : Bool} (h : Sound s) (hs : s.malloc ok s.owner = some s') : Sound s' := by
  have howner := h.owner
  have hslots := h.slots
  cases ho : s.owner with
  | opened q k l =>
    rw [ho] at hs howner
    obtain ⟨hf, hl⟩ := howner
    rw [ArtIndex.malloc] at hs
    split_ifs at hs
    · obtain rfl := Option.some.inj hs
      refine ⟨hslots, { hf with }, ?_⟩
      rw [hl]
      rfl
    · obtain rfl := Option.some.inj hs
      exact sound_notBuilt hslots hf.toBuilt
  | _ =>
    rw [ho] at hs
    cases hs

theorem listedHashes_append (entries : List Name) (name : Name) :
    listedHashes (entries ++ [name]) =
      listedHashes entries ++ if skipped name then [] else [artIndexHash name] := by
  rw [listedHashes, listedHashes, List.filter_append, List.map_append]
  cases h : skipped name <;> simp [h]

theorem sound_sweepEntry {hashes : List UInt32} {name : Name}
    (hslots : ∀ j, SlotOk s j (s.slots j)) (hf : Filling s q k l)
    (hhashes : hashes = listedHashes l.entries) : Sound (s.sweepEntry q k l hashes name) := by
  have hnext := listedHashes_append l.entries name
  rw [sweepEntry]
  split_ifs with hskip hfull
  · rw [if_pos hskip, List.append_nil] at hnext
    exact ⟨hslots, { hf with }, hhashes.trans hnext.symm⟩
  · exact sound_notBuilt hslots hf.toBuilt
  · rw [if_neg hskip] at hnext
    exact ⟨hslots, { hf with }, (congrArg (· ++ _) hhashes).trans hnext.symm⟩

/-- **An entry of the folder**, or its end. -/
theorem Sound.readdir {entry : Option Name} (h : Sound s)
    (hs : s.readdir entry s.owner = some s') : Sound s' := by
  have howner := h.owner
  have hslots := h.slots
  cases ho : s.owner with
  | sweeping q k l hashes =>
    rw [ho] at hs howner
    obtain ⟨hf, hhashes⟩ := howner
    cases entry with
    | some name =>
      obtain rfl := Option.some.inj hs
      exact sound_sweepEntry hslots hf hhashes
    | none =>
      obtain rfl := Option.some.inj hs
      refine ⟨fun j hv => ?_, { hf with }, List.mem_cons_self, congrArg sortHashes hhashes⟩
      obtain ⟨l', hl', hrest⟩ := hslots j hv
      exact ⟨l', List.mem_cons_of_mem l hl', hrest⟩
  | _ =>
    rw [ho] at hs
    cases hs

theorem splitAt_eq_some {dirMax dirLen baseAt : ℕ} {path dir base : Name}
    (h : splitAt dirMax dirLen baseAt path = some (dir, base)) (hlen : dirLen ≤ path.length) :
    dir ≠ [] ∧ base ≠ [] := by
  rw [splitAt] at h
  split_ifs at h with hlen' hbase
  obtain ⟨rfl, rfl⟩ := Prod.mk.inj (Option.some.inj h)
  rw [not_or] at hlen'
  refine ⟨fun hnil => ?_, hbase⟩
  have hzero := congrArg List.length hnil
  rw [List.length_take, Nat.min_eq_left hlen] at hzero
  exact hlen'.1 hzero

/-- Neither the folder nor the base name is empty. -/
theorem ne_nil_of_artIndexSplit {dirMax : ℕ} {path dir base : Name}
    (h : artIndexSplit dirMax path = some (dir, base)) : dir ≠ [] ∧ base ≠ [] := by
  rw [artIndexSplit] at h
  split at h
  next slash hslash =>
    refine splitAt_eq_some h ?_
    rw [strrchr, Option.map_eq_some_iff] at hslash
    obtain ⟨i, -, rfl⟩ := hslash
    omega
  next =>
    split at h
    next => cases h
    next colon hcolon =>
      obtain ⟨hlt, -⟩ := List.idxOf?_eq_some_iff.mp hcolon
      exact splitAt_eq_some h hlt

theorem ne_nil_of_ask {ownerThread thread : ℤ} {path : Option Name} {dir base : Name}
    (h : ask ownerThread thread path = some (dir, base)) : dir ≠ [] ∧ base ≠ [] := by
  cases path with
  | none => cases h
  | some path =>
    rw [ask] at h
    split_ifs at h
    exact ne_nil_of_artIndexSplit h

theorem Sound.mayExist {ownerThread thread : ℤ} {path : Option Name} (h : Sound s)
    (hdot : ∀ dir base, ask ownerThread thread path = some (dir, base) → base.head? ≠ some 46)
    (hs : s.mayExist (ask ownerThread thread path) = some s') : Sound s' := by
  cases hask : ask ownerThread thread path with
  | none =>
    rw [hask] at hs
    obtain rfl := Option.some.inj hs
    exact h
  | some names =>
    obtain ⟨dir, base⟩ := names
    obtain ⟨hdir, hbase⟩ := ne_nil_of_ask hask
    rw [hask, ArtIndex.mayExist] at hs
    split at hs
    next =>
      obtain rfl := Option.some.inj hs
      exact ⟨h.slots, Nat.le_refl _, hdir, hbase, hdot dir base hask⟩
    next => cases hs

/-! ### Runs -/

open Transition

/-- **One step.** -/
theorem Sound.step {ownerThread : ℤ} {e : Event} (h : Sound s) (hok : Undisturbed ownerThread s e)
    (hs : step ownerThread s e = some s') : Sound s' := by
  cases e with
  | mayExist thread path => exact h.mayExist hok hs
  | own => exact h.own hs
  | opendir ok =>
    refine h.opendir (fun htrue => ?_) hs
    rw [htrue] at hok
    exact hok
  | malloc ok => exact h.malloc hs
  | readdir entry => exact h.readdir hs
  | invalidate t =>
    obtain rfl := Option.some.inj hs
    exact (invalidated_artIndexInvalidate s t).sound h

/-- **No false absence.** In every run of `Undisturbed` steps, an answer 0 has a recent listing
without the name. -/
theorem truthful_of_runOk {ownerThread : ℤ} {es : List Event} {s : ArtIndex}
    (hok : RunOk (step ownerThread) (Undisturbed ownerThread) start es)
    (hrun : run (step ownerThread) start es = some s) : Truthful s := by
  have hsound : Sound s := run_invariant_of_runOk
    (fun _ _ _ h hok hs => Sound.step h hok hs) sound_start hok hrun
  intro q hq
  have howner := hsound.owner
  rw [hq] at howner
  exact howner rfl

/-- A query for `m:/A/b`, up to the sweep. -/
def openRun : List Event :=
  [.mayExist 7 (some [109, 58, 47, 65, 47, 98]), .own, .own, .own, .own, .own, .own, .own,
    .opendir true]

/-- The sweep of a folder that has `a` only, and the rest of the query. -/
def sweepRun : List Event :=
  [.malloc true, .readdir (some [97]), .readdir none, .own, .own, .own, .own, .own]

theorem runOk_openRun : RunOk (step 7) (Undisturbed 7) start openRun := by
  refine ⟨fun dir base h => ?_, trivial, trivial, trivial, trivial, trivial, trivial, trivial,
    fun q k _ t ht => ht, trivial⟩
  have hask : ask 7 7 (some [109, 58, 47, 65, 47, 98]) = some ([109, 58, 47, 65], [98]) := by decide
  rw [hask] at h
  obtain ⟨-, rfl⟩ := Prod.mk.inj (Option.some.inj h)
  decide

theorem truthful_absent :
    (run (step 7) start (openRun ++ sweepRun)).map ArtIndex.owner =
      some (.answered ⟨[109, 58, 47, 65], [98], 0, 0⟩ false) ∧
    ∀ s, run (step 7) start (openRun ++ sweepRun) = some s → Truthful s := by
  refine ⟨by decide +kernel, fun s hs => truthful_of_runOk (runOk_append.mpr ⟨runOk_openRun,
    fun t _ => runOk_of_forall fun e he s => ?_⟩) hs⟩
  revert e
  simp [sweepRun, Undisturbed]

/-- A query for `m:/A/.x`, of a folder that has this file only. -/
def dotNameRun : List Event :=
  [.mayExist 7 (some [109, 58, 47, 65, 47, 46, 120]), .own, .own, .own, .own, .own, .own, .own,
    .opendir true, .malloc true, .readdir (some [46, 120]), .readdir none, .own, .own, .own, .own,
    .own]

/-- **A file with a dot in front** is passed over by the sweep, and then it is not there. -/
theorem not_truthful_dotName : ∃ s, run (step 7) start dotNameRun = some s ∧ ¬ Truthful s := by
  have hrun : (run (step 7) start dotNameRun).map (fun s => (s.owner, s.listings)) =
      some (.answered ⟨[109, 58, 47, 65], [46, 120], 0, 0⟩ false,
        [⟨[109, 58, 47, 65], [[46, 120]], 0⟩]) := by decide +kernel
  obtain ⟨s, hs, hends⟩ := Option.map_eq_some_iff.mp hrun
  obtain ⟨howner, hlistings⟩ := Prod.mk.inj hends
  refine ⟨s, hs, fun h => ?_⟩
  obtain ⟨l, hl, -, -, hnot⟩ := h _ howner
  rw [hlistings] at hl
  obtain rfl := List.mem_singleton.mp hl
  exact hnot [46, 120] List.mem_cons_self rfl

end ArtIndex

end OpenPS2Loader
