import Mathlib.Algebra.Group.Int.Defs
import OpenPS2Loader.Games.IsoScan
import OpenPS2Loader.Lib.Bytes
import OpenPS2Loader.Lib.FirstOf

/-!
# The list of a device

`sbReadList` lists the images of the directories `CD` and `DVD`, their folders when folders are
browsed, and the games in parts of `ul.cfg`, which are 64 bytes each. It counts first, allocates the
array, and then fills it in: `ul.cfg` as long as bytes are left, the images and the folders as long
as there is room.

`size_t` and `int` are 32 bits wide. An entry of the array is 188 bytes long, and a write outside of
the bytes that were allocated is `none`.

## Main definitions

* `Games.sbDedupFolderList`, `Games.sbReadList`
* `Games.expected` — what there is to list
* `Games.Publishes` — the list is published as it was scanned, and left alone when nothing could be
  read

## Main results

* `Games.sbReadList_of_whole` — the list when `ul.cfg` has whole entries and there is memory
* `Games.publishes_iff`
-/

namespace OpenPS2Loader

namespace Games

open Bytes

/-! ### Folders -/

/-- The name of a folder up to the case of its letters. -/
def folderKey (g : GameInfo) : Text := g.name.map Char.toLower

/-- The inner loop of `sbDedupFolderList`. -/
def dropSameName (a : GameInfo) (l : List GameInfo) : List GameInfo :=
  l.filter fun b => !eqNoCase b.name a.name

theorem length_dropSameName_le (a : GameInfo) (l : List GameInfo) :
    (dropSameName a l).length ≤ l.length := List.length_filter_le _ _

/-- `sbDedupFolderList` -/
def sbDedupFolderList : List GameInfo → List GameInfo
  | [] => []
  | a :: l => a :: sbDedupFolderList (dropSameName a l)
termination_by l => l.length
decreasing_by exact Nat.lt_succ_of_le (length_dropSameName_le a l)

/-- Of the folders of one name the first one stays. -/
theorem sbDedupFolderList_eq (l : List GameInfo) : sbDedupFolderList l = firstOf folderKey l := by
  fun_induction sbDedupFolderList l with
  | case1 => rfl
  | case2 a l ih =>
    rw [firstOf, filter_firstOf, ih, dropSameName]
    congr 2
    refine List.filter_congr fun b _ => ?_
    rw [eqNoCase, folderKey, folderKey, decide_not, beq_eq_decide]

/-! ### Reading the list -/

/-- The arguments of `sbReadList`, and what it finds. -/
structure ReadInput where
  pre : Text
  /-- The folder, or `NULL`. -/
  sub : Option Text
  /-- `gEnableFolderNav` -/
  folderNav : Bool
  cdEnv : ScanEnv
  cd : Option (List DirEntry)
  cdBin : Option (List GameInfo)
  dvdEnv : ScanEnv
  dvd : Option (List DirEntry)
  dvdBin : Option (List GameInfo)
  /-- `ul.cfg`, when it opens. -/
  ulCfg : Option (List UInt8)
  /-- What `GameEntry` holds before it is read. -/
  stack : List UInt8
  length_stack : stack.length = 64
  /-- The array can be allocated. -/
  alloc : Bool

/-- `sizeof(base_game_info_t)` -/
def infoSize : ℕ := 188

/-- The entries that fit in the bytes allocated for `total` of them. -/
def slots (total : ℕ) : ℕ := infoSize * total % 2 ^ 32 / infoSize

/-- An entry that was cleared. -/
def zeroInfo : GameInfo := ⟨[], [], [], 0, 0, .usbld, 0⟩

/-- A C string of bytes as text. -/
def textOf (l : List UInt8) : Text := (Bytes.cstr l).map fun b => Char.ofNat b.toNat

/-- The game of an entry of `ul.cfg`. -/
def ulGame (entry : List UInt8) : GameInfo :=
  ⟨textOf (field entry 0 ulGameNameMax), textOf (field entry 35 gameStartupMax), [],
    (field entry 47 1).headD 0, (field entry 48 1).headD 0, .usbld, 0⟩

/-- The loop over `ul.cfg`, with the turns that are left. A read that is too short leaves the end of
`GameEntry` as it was. -/
def ulLoop : ℕ → ℕ → List UInt8 → List UInt8 → List GameInfo → Option (List GameInfo)
  | 0, _, _, _, list => some list
  | n + 1, id, file, entry, list =>
    let entry := overwrite entry 0 (file.take 64)
    (store list id [ulGame entry]).bind fun list => ulLoop n (id + 1) (file.drop 64) entry list

/-- The turns of `while (size > 0)`, which takes 64 each. -/
def ulTurns (size : ℤ) : ℕ := ((size + 63) / 64).toNat

/-- A loop that copies a linked list to the array: the index and the array after it. -/
def copyList (total : ℕ) : List GameInfo → ℕ → List GameInfo → Option (ℕ × List GameInfo)
  | [], id, list => some (id, list)
  | g :: gs, id, list =>
    if id < total then
      (store list id [g]).bind fun list => copyList total gs (id + 1) list
    else
      some (id, list)

/-- What `sbReadList` publishes. -/
structure Published where
  list : List GameInfo
  count : ℕ
  fsize : ℤ

section Input

variable (x : ReadInput)

/-- `atRoot` -/
def ReadInput.atRoot : Bool := x.sub.getD [] == []

/-- The `ul.cfg` that is read. -/
def ReadInput.ul : Option (List UInt8) := if x.atRoot then x.ulCfg else none

/-- `folderlist` -/
def ReadInput.folderlist : Option (List GameInfo) :=
  if x.folderNav && x.sub.isSome then some [] else none

/-- The scan of `CD`. -/
def ReadInput.cdScan : ℤ × List GameInfo × Option (List GameInfo) × Option (List GameInfo) :=
  scanForISO x.cdEnv (scanPath x.pre sceCdPS2CD (x.sub.getD [])) sceCdPS2CD x.cd x.cdBin []
    x.folderlist

/-- The scan of `DVD`, which goes on with the lists of the first one. -/
def ReadInput.dvdScan : ℤ × List GameInfo × Option (List GameInfo) × Option (List GameInfo) :=
  scanForISO x.dvdEnv (scanPath x.pre sceCdPS2DVD (x.sub.getD [])) sceCdPS2DVD x.dvd x.dvdBin
    x.cdScan.2.1 x.cdScan.2.2.1

/-- The number of images. -/
def ReadInput.imageCount : ℕ :=
  let count := x.cdScan.1
  let count := if 0 ≤ x.dvdScan.1 then
      if count < 0 then x.dvdScan.1 else count + x.dvdScan.1
    else count
  count.toNat

/-- The folders, each once. -/
def ReadInput.folders : List GameInfo := sbDedupFolderList (x.dvdScan.2.2.1.getD [])

/-- `total`. The size of `ul.cfg` is divided as an unsigned number. -/
def ReadInput.total : ℕ :=
  x.imageCount + (x.ul.elim 0 fun file => file.length % 2 ^ 32 / 64) + x.folders.length

/-- The size of `ul.cfg` as an `int`. -/
def ReadInput.ulSize : ℤ := x.ul.elim (-1) fun file => Int.bmod file.length (2 ^ 32)

/-- The array that is filled in, if there is one. -/
def ReadInput.newlist : Option (Option (List GameInfo)) :=
  if 0 < x.total ∧ x.alloc = true then do
    let list := List.replicate (slots x.total) zeroInfo
    let turns := ulTurns x.ulSize
    let list ← ulLoop turns 0 (x.ul.getD []) x.stack list
    let (id, list) ← copyList x.total x.dvdScan.2.1 turns list
    let (_, list) ← copyList x.total x.folders id list
    return some list
  else
    some none

/-- `sbReadList`: what it publishes, if anything. `none` is a write outside of the array. -/
def sbReadList : Option (Option Published) :=
  x.newlist.map fun newlist =>
    if x.cdScan.1 < 0 ∧ x.dvdScan.1 < 0 ∧ x.ul = none then
      none
    else
      match newlist with
      | some list => some ⟨list, x.total, x.ulSize⟩
      | none => some ⟨[], 0, x.ulSize⟩

/-! ### What there is to list -/

/-- The images of a directory, the last one first. -/
def imagesOf (e : ScanEnv) (path : Text) (type : UInt8) (dir : Option (List DirEntry))
    (bin : Option (List GameInfo)) : List GameInfo :=
  if 255 ≤ path.length then
    []
  else
    ((scanned path.length type (loadISOGameListCache e bin) (dir.getD [])).map Prod.snd).reverse

/-- The folders of a directory, the last one first. -/
def foldersOf (e : ScanEnv) (path : Text) (type : UInt8) (dir : Option (List DirEntry))
    (bin : Option (List GameInfo)) : List GameInfo :=
  if 255 ≤ path.length then
    []
  else
    (scannedFolders path.length type (loadISOGameListCache e bin) (dir.getD [])).reverse

/-- The entries of `ul.cfg`, in the order of the file. -/
def ulGames (file : List UInt8) : List GameInfo :=
  (List.range (file.length / 64)).map fun k => ulGame (field file (64 * k) 64)

/-- The images of both directories. -/
def ReadInput.images : List GameInfo :=
  imagesOf x.dvdEnv (scanPath x.pre sceCdPS2DVD (x.sub.getD [])) sceCdPS2DVD x.dvd x.dvdBin ++
    imagesOf x.cdEnv (scanPath x.pre sceCdPS2CD (x.sub.getD [])) sceCdPS2CD x.cd x.cdBin

/-- The folders of both directories. -/
def ReadInput.allFolders : List GameInfo :=
  if x.folderNav && x.sub.isSome then
    foldersOf x.dvdEnv (scanPath x.pre sceCdPS2DVD (x.sub.getD [])) sceCdPS2DVD x.dvd x.dvdBin ++
      foldersOf x.cdEnv (scanPath x.pre sceCdPS2CD (x.sub.getD [])) sceCdPS2CD x.cd x.cdBin
  else
    []

/-- What there is to list: the games of `ul.cfg`, the images, and each folder once. -/
def ReadInput.expected : List GameInfo :=
  x.ul.elim [] ulGames ++ x.images ++ firstOf folderKey x.allFolders

/-- Nothing could be read. -/
def ReadInput.Unreadable : Prop := x.cd = none ∧ x.dvd = none ∧ x.ul = none

/-- The list is published as it was scanned; it is left alone exactly when nothing could be read;
and no write leaves the array. -/
def Publishes : Prop :=
  (sbReadList x = some none ∧ x.Unreadable) ∨
    ¬x.Unreadable ∧ ∃ p, sbReadList x = some (some p) ∧ p.count = p.list.length ∧
      p.list = x.expected

end Input

/-! ### The scans -/

/-- What a scan returns and collects. -/
theorem scanForISO_spec (e : ScanEnv) (path : Text) (type : UInt8) (dir : Option (List DirEntry))
    (bin : Option (List GameInfo)) (glist : List GameInfo) (folderlist : Option (List GameInfo)) :
    (dir = none ∧ (scanForISO e path type dir bin glist folderlist).1 = -1 ∨
        dir ≠ none ∧ (scanForISO e path type dir bin glist folderlist).1 =
          (imagesOf e path type dir bin).length) ∧
      (scanForISO e path type dir bin glist folderlist).2.1 =
        imagesOf e path type dir bin ++ glist ∧
      (scanForISO e path type dir bin glist folderlist).2.2.1 =
        folderlist.map fun l => foldersOf e path type dir bin ++ l := by
  rw [scanForISO.eq_def, imagesOf, foldersOf]
  cases dir with
  | none =>
    have hnil : ∀ c, scanned path.length type c [] = [] := fun _ => rfl
    have hnil' : ∀ c, scannedFolders path.length type c [] = [] := fun _ => rfl
    rw [Option.getD_none, hnil, hnil']
    simp
  | some rows =>
    dsimp only
    split
    next => simp
    next =>
      obtain ⟨hglist, hcount⟩ := scanLoop_eq path.length type (loadISOGameListCache e bin) rows
        ⟨glist, folderlist, 0⟩
      have hfolders := scanLoop_folderlist path.length type (loadISOGameListCache e bin) rows
        ⟨glist, folderlist, 0⟩
      refine ⟨.inr ⟨Option.some_ne_none _, ?_⟩, hglist, hfolders⟩
      rw [hcount, Nat.zero_add, Option.getD_some, List.length_reverse, List.length_map]

theorem imagesOf_none (e : ScanEnv) (path : Text) (type : UInt8) (bin : Option (List GameInfo)) :
    imagesOf e path type none bin = [] := by
  rw [imagesOf]
  split <;> rfl

section Input

variable (x : ReadInput)

theorem dvdScan_images : x.dvdScan.2.1 = x.images := by
  obtain ⟨-, hcd, -⟩ := scanForISO_spec x.cdEnv (scanPath x.pre sceCdPS2CD (x.sub.getD []))
    sceCdPS2CD x.cd x.cdBin [] x.folderlist
  obtain ⟨-, hdvd, -⟩ := scanForISO_spec x.dvdEnv (scanPath x.pre sceCdPS2DVD (x.sub.getD []))
    sceCdPS2DVD x.dvd x.dvdBin x.cdScan.2.1 x.cdScan.2.2.1
  rw [ReadInput.dvdScan, hdvd, ReadInput.cdScan, hcd, List.append_nil, ReadInput.images]

theorem folders_eq : x.folders = firstOf folderKey x.allFolders := by
  obtain ⟨-, -, hcd⟩ := scanForISO_spec x.cdEnv (scanPath x.pre sceCdPS2CD (x.sub.getD []))
    sceCdPS2CD x.cd x.cdBin [] x.folderlist
  obtain ⟨-, -, hdvd⟩ := scanForISO_spec x.dvdEnv (scanPath x.pre sceCdPS2DVD (x.sub.getD []))
    sceCdPS2DVD x.dvd x.dvdBin x.cdScan.2.1 x.cdScan.2.2.1
  rw [ReadInput.folders, sbDedupFolderList_eq, ReadInput.dvdScan, hdvd, ReadInput.cdScan, hcd,
    ReadInput.folderlist, ReadInput.allFolders]
  split
  next => rw [Option.map_some, Option.map_some, Option.getD_some, List.append_nil]
  next => rfl

theorem imageCount_eq : x.imageCount = x.images.length := by
  have hcd := (scanForISO_spec x.cdEnv (scanPath x.pre sceCdPS2CD (x.sub.getD []))
    sceCdPS2CD x.cd x.cdBin [] x.folderlist).1
  have hdvd := (scanForISO_spec x.dvdEnv (scanPath x.pre sceCdPS2DVD (x.sub.getD []))
    sceCdPS2DVD x.dvd x.dvdBin x.cdScan.2.1 x.cdScan.2.2.1).1
  rw [← ReadInput.cdScan] at hcd
  rw [← ReadInput.dvdScan] at hdvd
  rw [ReadInput.imageCount, ReadInput.images, List.length_append]
  obtain ⟨hcd, hcdRet⟩ | ⟨-, hcdRet⟩ := hcd
  · obtain ⟨hdvd, hdvdRet⟩ | ⟨-, hdvdRet⟩ := hdvd
    · rw [hcd, hdvd, imagesOf_none, imagesOf_none, hcdRet, hdvdRet]
      rfl
    · rw [hcd, imagesOf_none, hcdRet, hdvdRet]
      simp
  · obtain ⟨hdvd, hdvdRet⟩ | ⟨-, hdvdRet⟩ := hdvd
    · rw [hdvd, imagesOf_none, hcdRet, hdvdRet]
      simp
    · rw [hcdRet, hdvdRet]
      simp only [Int.natCast_nonneg, if_true]
      rw [if_neg (by omega)]
      omega

theorem unreadable_iff :
    (x.cdScan.1 < 0 ∧ x.dvdScan.1 < 0 ∧ x.ul = none) ↔ x.Unreadable := by
  have hcd := (scanForISO_spec x.cdEnv (scanPath x.pre sceCdPS2CD (x.sub.getD []))
    sceCdPS2CD x.cd x.cdBin [] x.folderlist).1
  have hdvd := (scanForISO_spec x.dvdEnv (scanPath x.pre sceCdPS2DVD (x.sub.getD []))
    sceCdPS2DVD x.dvd x.dvdBin x.cdScan.2.1 x.cdScan.2.2.1).1
  rw [← ReadInput.cdScan] at hcd
  rw [← ReadInput.dvdScan] at hdvd
  have hcd' : x.cdScan.1 < 0 ↔ x.cd = none := by
    obtain ⟨hnone, hret⟩ | ⟨hsome, hret⟩ := hcd
    · exact ⟨fun _ => hnone, fun _ => by omega⟩
    · exact ⟨fun h => absurd h (by omega), fun h => absurd h hsome⟩
  have hdvd' : x.dvdScan.1 < 0 ↔ x.dvd = none := by
    obtain ⟨hnone, hret⟩ | ⟨hsome, hret⟩ := hdvd
    · exact ⟨fun _ => hnone, fun _ => by omega⟩
    · exact ⟨fun h => absurd h (by omega), fun h => absurd h hsome⟩
  rw [hcd', hdvd', ReadInput.Unreadable]

end Input

/-! ### Filling in the array -/

/-- Whole entries of `ul.cfg` go to the array one after the other. -/
theorem ulLoop_eq (n id : ℕ) (file entry : List UInt8) (list : List GameInfo)
    (hroom : id + n ≤ list.length) (hfile : 64 * n ≤ file.length) (hentry : entry.length = 64) :
    ulLoop n id file entry list =
      some (overwrite list id ((List.range n).map fun k => ulGame (field file (64 * k) 64))) := by
  induction n generalizing id file entry list with
  | zero => rw [ulLoop, List.range_zero, List.map_nil, overwrite_nil]
  | succ n ih =>
    have htake : (file.take 64).length = 64 := List.length_take_of_le (by omega)
    have hone : id + [ulGame (file.take 64)].length ≤ list.length := by
      rw [List.length_singleton]
      omega
    have hrest : ∀ k, field (file.drop 64) (64 * k) 64 = field file (64 * (k + 1)) 64 := by
      intro k
      rw [field, field, List.drop_drop, Nat.mul_succ, Nat.add_comm]
    rw [ulLoop, overwrite_all (htake.trans hentry.symm), store_of_le hone, Option.bind_some,
      ih (id + 1) (file.drop 64) _ _ (by rw [length_overwrite hone]; omega)
        (by rw [List.length_drop]; omega) htake]
    have hnext := overwrite_overwrite
      ((List.range n).map fun k => ulGame (field (file.drop 64) (64 * k) 64)) hone
    rw [List.length_singleton] at hnext
    rw [hnext, List.range_succ_eq_map, List.map_cons, List.map_map]
    have hmap : (List.range n).map (fun k => ulGame (field (file.drop 64) (64 * k) 64)) =
        (List.range n).map ((fun k => ulGame (field file (64 * k) 64)) ∘ Nat.succ) :=
      List.map_congr_left fun k _ => congrArg ulGame (hrest k)
    rw [hmap]
    rfl

theorem copyList_eq (total : ℕ) (gs : List GameInfo) (id : ℕ) (list : List GameInfo)
    (htotal : id + gs.length ≤ total) (hroom : id + gs.length ≤ list.length) :
    copyList total gs id list = some (id + gs.length, overwrite list id gs) := by
  induction gs generalizing id list with
  | nil => rw [copyList, overwrite_nil, List.length_nil, Nat.add_zero]
  | cons g gs ih =>
    rw [List.length_cons] at htotal hroom
    have hone : id + [g].length ≤ list.length := by
      rw [List.length_singleton]
      omega
    have hnext := overwrite_overwrite gs hone
    rw [List.length_singleton] at hnext
    rw [copyList, if_pos (by omega), store_of_le hone, Option.bind_some,
      ih (id + 1) _ (by omega) (by rw [length_overwrite hone]; omega), hnext, List.length_cons,
      Nat.add_right_comm, ← Nat.add_assoc]
    rfl

/-- The loops keep the length of the array. -/
theorem length_of_ulLoop {n id : ℕ} {file entry : List UInt8} {list list' : List GameInfo}
    (h : ulLoop n id file entry list = some list') : list'.length = list.length := by
  induction n generalizing id file entry list with
  | zero =>
    obtain rfl := Option.some.inj h
    rfl
  | succ n ih =>
    obtain ⟨list₁, hstore, hrest⟩ := Option.bind_eq_some_iff.mp h
    exact (ih hrest).trans (length_of_store hstore)

theorem length_of_copyList {total id id' : ℕ} {gs list list' : List GameInfo}
    (h : copyList total gs id list = some (id', list')) : list'.length = list.length := by
  induction gs generalizing id list with
  | nil =>
    obtain ⟨-, rfl⟩ := Prod.mk.inj (Option.some.inj h)
    rfl
  | cons g gs ih =>
    rw [copyList] at h
    split at h
    next =>
      obtain ⟨list₁, hstore, hrest⟩ := Option.bind_eq_some_iff.mp h
      exact (ih hrest).trans (length_of_store hstore)
    next =>
      obtain ⟨-, rfl⟩ := Prod.mk.inj (Option.some.inj h)
      rfl

/-- The loop over `ul.cfg` leaves what is in front of it, and ends with a game of `ul.cfg`. -/
theorem getElem?_of_ulLoop {n id k : ℕ} {file entry : List UInt8} {list list' : List GameInfo}
    (h : ulLoop n id file entry list = some list') (hk : k < id) : list'[k]? = list[k]? := by
  induction n generalizing id file entry list with
  | zero =>
    obtain rfl := Option.some.inj h
    rfl
  | succ n ih =>
    obtain ⟨list₁, hstore, hrest⟩ := Option.bind_eq_some_iff.mp h
    exact (ih hrest (by omega)).trans (getElem?_of_store hstore hk)

theorem ulLoop_last {n id : ℕ} {file entry : List UInt8} {list list' : List GameInfo}
    (h : ulLoop (n + 1) id file entry list = some list') :
    ∃ g, list'[id + n]? = some g ∧ g.format = .usbld := by
  induction n generalizing id file entry list with
  | zero =>
    obtain ⟨list₁, hstore, hrest⟩ := Option.bind_eq_some_iff.mp h
    refine ⟨_, (getElem?_of_ulLoop hrest (by omega)).trans (getElem?_of_store_self hstore), rfl⟩
  | succ n ih =>
    obtain ⟨list₁, -, hrest⟩ := Option.bind_eq_some_iff.mp h
    obtain ⟨g, hg, hformat⟩ := ih hrest
    refine ⟨g, ?_, hformat⟩
    rw [← hg]
    congr 1
    omega

theorem getElem?_of_copyList {total id id' k : ℕ} {gs list list' : List GameInfo}
    (h : copyList total gs id list = some (id', list')) (hk : k < id) :
    id ≤ id' ∧ list'[k]? = list[k]? := by
  induction gs generalizing id list with
  | nil =>
    obtain ⟨rfl, rfl⟩ := Prod.mk.inj (Option.some.inj h)
    exact ⟨le_rfl, rfl⟩
  | cons g gs ih =>
    rw [copyList] at h
    split at h
    next =>
      obtain ⟨list₁, hstore, hrest⟩ := Option.bind_eq_some_iff.mp h
      obtain ⟨hle, hget⟩ := ih hrest (by omega)
      exact ⟨by omega, hget.trans (getElem?_of_store hstore hk)⟩
    next =>
      obtain ⟨rfl, rfl⟩ := Prod.mk.inj (Option.some.inj h)
      exact ⟨le_rfl, rfl⟩

/-! ### The sizes -/

theorem length_ulGames (file : List UInt8) : (ulGames file).length = file.length / 64 := by
  rw [ulGames, List.length_map, List.length_range]

/-- `n` entries fit when their bytes have a length. -/
theorem slots_of_lt {n : ℕ} (h : infoSize * n < 2 ^ 32) : slots n = n := by
  rw [slots, Nat.mod_eq_of_lt h, Nat.mul_div_cancel_left _ (by decide)]

theorem infoSize_mul_slots_lt (n : ℕ) : infoSize * slots n < 2 ^ 32 := by
  have hle : infoSize * slots n ≤ infoSize * n % 2 ^ 32 := Nat.mul_div_le _ _
  exact lt_of_le_of_lt hle (Nat.mod_lt _ (by decide))

theorem ulTurns_of_lt {n : ℕ} (h : n < 2 ^ 31) :
    ulTurns (Int.bmod n (2 ^ 32)) = (n + 63) / 64 := by
  have hbmod : Int.bmod n (2 ^ 32) = n := by
    refine Int.bmod_eq_of_le ?_ ?_
    · omega
    · omega
  rw [ulTurns, hbmod]
  omega

section Input

variable (x : ReadInput)

/-- `ul.cfg` has whole entries. -/
def ReadInput.WholeCfg : Prop := ∀ file ∈ x.ul, file.length % 64 = 0

/-- The bytes of the array have a length. -/
def ReadInput.Fits : Prop := infoSize * x.expected.length < 2 ^ 32

theorem length_expected :
    x.expected.length =
      (x.ul.elim 0 fun file => file.length / 64) + x.images.length + x.folders.length := by
  rw [ReadInput.expected, List.length_append, List.length_append, folders_eq]
  cases x.ul with
  | none => rfl
  | some file =>
    rw [Option.elim_some, Option.elim_some, length_ulGames]

variable {x}

/-- Then `ul.cfg` has a length that is an `int`. -/
theorem length_ul_lt (hfits : x.Fits) {file : List UInt8} (hul : x.ul = some file) :
    file.length < 2 ^ 31 := by
  rw [ReadInput.Fits, length_expected, hul, Option.elim_some, infoSize] at hfits
  omega

theorem total_of_fits (hfits : x.Fits) : x.total = x.expected.length := by
  rw [ReadInput.total, length_expected, imageCount_eq]
  cases hul : x.ul with
  | none =>
    rw [Option.elim_none, Option.elim_none]
    omega
  | some file =>
    have hlt := length_ul_lt hfits hul
    rw [Option.elim_some, Option.elim_some, Nat.mod_eq_of_lt (by omega)]
    omega

/-- The turns of the loop over `ul.cfg`: one for each entry, and one for what is left. -/
theorem ulTurns_of_fits (hfits : x.Fits) :
    ulTurns x.ulSize = x.ul.elim 0 fun file => (file.length + 63) / 64 := by
  rw [ReadInput.ulSize]
  cases hul : x.ul with
  | none => rfl
  | some file =>
    rw [Option.elim_some, Option.elim_some]
    exact ulTurns_of_lt (length_ul_lt hfits hul)

/-- **The array**, when `ul.cfg` has whole entries and there is memory for all of them. -/
theorem newlist_of_whole (halloc : x.alloc = true) (hwhole : x.WholeCfg) (hfits : x.Fits)
    (hne : x.expected ≠ []) : x.newlist = some (some x.expected) := by
  have htotal := total_of_fits hfits
  have hpos : 0 < x.total := by
    rw [htotal]
    exact List.length_pos_iff.mpr hne
  have hslots : slots x.total = x.total := by
    rw [htotal]
    exact slots_of_lt hfits
  have hlen := length_expected x
  have hul : ulLoop (ulTurns x.ulSize) 0 (x.ul.getD []) x.stack
      (List.replicate (slots x.total) zeroInfo) =
        some (overwrite (List.replicate x.total zeroInfo) 0 (x.ul.elim [] ulGames)) ∧
      ulTurns x.ulSize = (x.ul.elim [] ulGames).length := by
    rw [ulTurns_of_fits hfits, hslots]
    cases hcfg : x.ul with
    | none =>
      rw [Option.elim_none, Option.elim_none, overwrite_nil]
      exact ⟨rfl, rfl⟩
    | some file =>
      have hmod := hwhole file hcfg
      rw [hcfg, Option.elim_some] at hlen
      have hturns : (file.length + 63) / 64 = file.length / 64 := by omega
      rw [Option.elim_some, Option.elim_some, Option.getD_some, hturns, length_ulGames]
      refine ⟨?_, rfl⟩
      refine ulLoop_eq _ _ _ _ _ ?_ (by omega) x.length_stack
      rw [List.length_replicate]
      omega
  obtain ⟨hloop, hturns⟩ := hul
  have hlen' : (x.ul.elim [] ulGames ++ x.images ++ x.folders).length = x.total := by
    rw [htotal, ReadInput.expected, folders_eq]
  rw [List.length_append, List.length_append] at hlen'
  have hrep : (List.replicate x.total zeroInfo).length = x.total := List.length_replicate
  have hroom₁ : 0 + (x.ul.elim [] ulGames).length ≤ (List.replicate x.total zeroInfo).length := by
    omega
  have hroom₂ : 0 + (x.ul.elim [] ulGames ++ x.images).length ≤
      (List.replicate x.total zeroInfo).length := by
    rw [List.length_append]
    omega
  have himages := copyList_eq x.total x.images (x.ul.elim [] ulGames).length
    (overwrite (List.replicate x.total zeroInfo) 0 (x.ul.elim [] ulGames)) (by omega)
    (by rw [length_overwrite hroom₁]; omega)
  have hjoin₁ := overwrite_overwrite x.images hroom₁
  rw [Nat.zero_add] at hjoin₁
  rw [hjoin₁, ← List.length_append] at himages
  have hfolders := copyList_eq x.total x.folders (x.ul.elim [] ulGames ++ x.images).length
    (overwrite (List.replicate x.total zeroInfo) 0 (x.ul.elim [] ulGames ++ x.images))
    (by rw [List.length_append]; omega) (by rw [length_overwrite hroom₂, List.length_append]; omega)
  have hjoin₂ := overwrite_overwrite x.folders hroom₂
  rw [Nat.zero_add] at hjoin₂
  have hall : (x.ul.elim [] ulGames ++ x.images ++ x.folders).length =
      (List.replicate x.total zeroInfo).length := by
    rw [List.length_append, List.length_append]
    omega
  rw [hjoin₂, overwrite_all hall] at hfolders
  rw [ReadInput.newlist, if_pos ⟨hpos, halloc⟩]
  dsimp only
  rw [hloop, Option.bind_eq_bind, Option.bind_some, hturns, dvdScan_images, himages,
    Option.bind_eq_bind, Option.bind_some, hfolders]
  rw [ReadInput.expected, ← folders_eq]
  rfl

end Input

/-! ### What is left of `ul.cfg` -/

theorem format_of_mem_imagesOf {e : ScanEnv} {path : Text} {type : UInt8}
    {dir : Option (List DirEntry)} {bin : Option (List GameInfo)} {g : GameInfo}
    (h : g ∈ imagesOf e path type dir bin) : g.format ≠ .usbld := by
  rw [imagesOf] at h
  split at h
  next => cases h
  next =>
    obtain ⟨⟨d, g'⟩, hmem, rfl⟩ := List.mem_map.mp (List.mem_reverse.mp h)
    obtain ⟨-, -, format, n, hformat, hentry⟩ := of_mem_scanned hmem
    obtain ⟨-, hg, -⟩ := isoEntry_cases hformat hentry
    rw [hg]
    obtain ⟨-, ⟨rfl, -⟩ | ⟨rfl, -⟩⟩ := imageFormat_cases hformat
    · decide
    · decide

theorem format_of_mem_scannedFolders {pathLen : ℕ} {type : UInt8} {cache : Option (List GameInfo)}
    {rows : List DirEntry} {g : GameInfo} (h : g ∈ scannedFolders pathLen type cache rows) :
    g.format = .folder := by
  fun_induction scannedFolders pathLen type cache rows with
  | case1 => cases h
  | case2 d ds hformat hfolder ih =>
    obtain rfl | h := List.mem_cons.mp h
    · rfl
    · exact ih h
  | case3 d ds hformat hfolder ih => exact ih h
  | case4 d ds f hformat hlong ih => exact ih h
  | case5 d ds f hformat hlong halloc => cases h
  | case6 d ds f hformat hlong halloc ih => exact ih h

theorem format_of_mem_foldersOf {e : ScanEnv} {path : Text} {type : UInt8}
    {dir : Option (List DirEntry)} {bin : Option (List GameInfo)} {g : GameInfo}
    (h : g ∈ foldersOf e path type dir bin) : g.format ≠ .usbld := by
  rw [foldersOf] at h
  split at h
  next => cases h
  next =>
    rw [format_of_mem_scannedFolders (List.mem_reverse.mp h)]
    decide

section Input

variable {x : ReadInput}

/-- Behind the games of `ul.cfg` there are images and folders only. -/
theorem format_of_mem_rest {g : GameInfo} (h : g ∈ x.images ++ firstOf folderKey x.allFolders) :
    g.format ≠ .usbld := by
  obtain h | h := List.mem_append.mp h
  · obtain h | h := List.mem_append.mp h
    · exact format_of_mem_imagesOf h
    · exact format_of_mem_imagesOf h
  · have hmem := (firstOf_sublist folderKey x.allFolders).subset h
    rw [ReadInput.allFolders] at hmem
    split at hmem
    next =>
      obtain hmem | hmem := List.mem_append.mp hmem
      · exact format_of_mem_foldersOf hmem
      · exact format_of_mem_foldersOf hmem
    next => cases hmem

/-- The parts of a run that fills in the array. -/
theorem newlist_eq_some {list : List GameInfo} (h : x.newlist = some (some list)) :
    (0 < x.total ∧ x.alloc = true) ∧ ∃ list₁ id list₂ id',
      ulLoop (ulTurns x.ulSize) 0 (x.ul.getD []) x.stack
        (List.replicate (slots x.total) zeroInfo) = some list₁ ∧
      copyList x.total x.images (ulTurns x.ulSize) list₁ = some (id, list₂) ∧
      copyList x.total x.folders id list₂ = some (id', list) := by
  rw [ReadInput.newlist] at h
  split at h
  next hcond =>
    simp only [Option.bind_eq_bind, Option.bind_eq_some_iff, Option.pure_def, Prod.exists,
      Option.some.injEq, dvdScan_images] at h
    obtain ⟨list₁, hloop, id, list₂, himages, id', list₃, hfolders, rfl⟩ := h
    exact ⟨hcond, list₁, id, list₂, id', hloop, himages, hfolders⟩
  next => cases h

theorem length_of_newlist {list : List GameInfo} (h : x.newlist = some (some list)) :
    list.length = slots x.total := by
  obtain ⟨-, list₁, id, list₂, id', hloop, himages, hfolders⟩ := newlist_eq_some h
  rw [length_of_copyList hfolders, length_of_copyList himages, length_of_ulLoop hloop,
    List.length_replicate]

/-- A partial entry takes the place of an image or a folder, or leaves the array. -/
theorem wholeCfg_of_newlist (hfits : x.Fits) (h : x.newlist = some (some x.expected)) :
    x.WholeCfg := by
  intro file hul
  by_contra hmod
  obtain ⟨-, list₁, id, list₂, id', hloop, himages, hfolders⟩ := newlist_eq_some h
  have hturns : ulTurns x.ulSize = file.length / 64 + 1 := by
    rw [ulTurns_of_fits hfits, hul, Option.elim_some]
    omega
  rw [hturns] at hloop himages
  obtain ⟨g, hg, hformat⟩ := ulLoop_last hloop
  rw [Nat.zero_add] at hg
  obtain ⟨hid, hkeep₁⟩ := getElem?_of_copyList himages (Nat.lt_succ_self _)
  obtain ⟨-, hkeep₂⟩ := getElem?_of_copyList hfolders hid
  have hmem : x.expected[file.length / 64]? = some g := hkeep₂.trans (hkeep₁.trans hg)
  rw [ReadInput.expected, hul, Option.elim_some, List.append_assoc,
    List.getElem?_append_right (by rw [length_ulGames])] at hmem
  exact format_of_mem_rest (List.mem_of_getElem? hmem) hformat

/-! ### When the list is published -/

/-- There is nothing to list, or the array can be allocated for whole entries of `ul.cfg`. -/
def ReadInput.Ready (x : ReadInput) : Prop :=
  x.expected = [] ∨ x.alloc = true ∧ x.WholeCfg ∧ x.Fits

theorem newlist_of_nil (h : x.expected = []) : x.newlist = some none := by
  have hfits : x.Fits := by
    rw [ReadInput.Fits, h]
    decide
  have htotal : x.total = 0 := by rw [total_of_fits hfits, h, List.length_nil]
  rw [ReadInput.newlist, if_neg (by omega)]

theorem expected_of_unreadable (h : x.Unreadable) : x.expected = [] := by
  obtain ⟨hcd, hdvd, hul⟩ := h
  have hfolders : ∀ e path type bin, foldersOf e path type none bin = [] := by
    intro e path type bin
    rw [foldersOf]
    split <;> rfl
  rw [ReadInput.expected, ReadInput.images, ReadInput.allFolders, hul, hcd, hdvd, imagesOf_none,
    imagesOf_none, hfolders, hfolders, List.append_nil, ite_self]
  rfl

/-- What is published when something could be read. -/
theorem sbReadList_of_readable (h : ¬x.Unreadable) :
    sbReadList x = x.newlist.map fun newlist =>
      some (newlist.elim ⟨[], 0, x.ulSize⟩ fun list => ⟨list, x.total, x.ulSize⟩) := by
  rw [sbReadList]
  congr 1
  funext newlist
  rw [if_neg (by rw [unreadable_iff]; exact h)]
  cases newlist <;> rfl

theorem publishes_of_unreadable (h : x.Unreadable) : Publishes x := by
  refine .inl ⟨?_, h⟩
  rw [sbReadList, newlist_of_nil (expected_of_unreadable h), Option.map_some,
    if_pos ((unreadable_iff x).mpr h)]

theorem ready_of_publishes (hread : ¬x.Unreadable) (h : Publishes x) : x.Ready := by
  obtain ⟨-, h⟩ | ⟨-, p, hp, hcount, hlist⟩ := h
  · exact absurd h hread
  · rw [sbReadList_of_readable hread] at hp
    obtain ⟨newlist, hnew, hpub⟩ := Option.map_eq_some_iff.mp hp
    cases newlist with
    | none =>
      obtain rfl := Option.some.inj hpub
      exact .inl hlist.symm
    | some list =>
      obtain rfl := Option.some.inj hpub
      obtain rfl : list = x.expected := hlist
      have hfits : x.Fits := by
        rw [ReadInput.Fits, length_of_newlist hnew]
        exact infoSize_mul_slots_lt x.total
      exact .inr ⟨(newlist_eq_some hnew).1.2, wholeCfg_of_newlist hfits hnew, hfits⟩

/-- **Publishing the list of a device.** `sbReadList` writes inside of its array only and publishes
what it scanned, each entry once, or leaves everything as it was because nothing could be read,
exactly when nothing could be read, there is nothing to list, or the array can be allocated, its
size is not too large for 32 bits and `ul.cfg` has whole entries. -/
theorem publishes_iff (x : ReadInput) : Publishes x ↔ x.Unreadable ∨ x.Ready := by
  by_cases hread : x.Unreadable
  · exact ⟨fun _ => .inl hread, fun _ => publishes_of_unreadable hread⟩
  constructor
  · intro h
    exact .inr (ready_of_publishes hread h)
  · rintro (h | h)
    · exact absurd h hread
    · refine .inr ⟨hread, ?_⟩
      rw [sbReadList_of_readable hread]
      by_cases hnil : x.expected = []
      · exact ⟨_, by rw [newlist_of_nil hnil]; rfl, rfl, hnil.symm⟩
      · obtain hnil' | ⟨halloc, hwhole, hfits⟩ := h
        · exact absurd hnil' hnil
        · exact ⟨_, by rw [newlist_of_whole halloc hwhole hfits hnil]; rfl, total_of_fits hfits,
            rfl⟩

end Input

/-- A drive without images whose `ul.cfg` has 65 bytes. -/
def oddCfg : ReadInput where
  pre := ['m', 'a', 's', 's', ':']
  sub := some []
  folderNav := false
  cdEnv := ⟨true, fun _ => zeroInfo, .saved⟩
  cd := some []
  cdBin := none
  dvdEnv := ⟨true, fun _ => zeroInfo, .saved⟩
  dvd := some []
  dvdBin := none
  ulCfg := some (List.replicate 65 65)
  stack := List.replicate 64 0
  length_stack := List.length_replicate
  alloc := true

/-- The byte behind the first entry makes a second entry, which is written outside of the array. -/
theorem not_publishes_oddCfg : sbReadList oddCfg = none ∧ ¬Publishes oddCfg := by
  have htotal : oddCfg.total = 1 := by
    rw [ReadInput.total, imageCount_eq, folders_eq]
    decide
  have hloop : ulLoop (ulTurns oddCfg.ulSize) 0 (oddCfg.ul.getD []) oddCfg.stack
      (List.replicate (slots 1) zeroInfo) = none := by decide
  have hnone : sbReadList oddCfg = none := by
    rw [sbReadList, ReadInput.newlist, htotal, if_pos ⟨Nat.one_pos, rfl⟩]
    dsimp only
    rw [hloop]
    rfl
  refine ⟨hnone, ?_⟩
  rintro (⟨h, -⟩ | ⟨-, p, h, -⟩)
  · rw [hnone] at h
    cases h
  · rw [hnone] at h
    cases h

end Games

end OpenPS2Loader
