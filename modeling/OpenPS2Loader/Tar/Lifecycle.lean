import Mathlib.Data.List.DropRight
import OpenPS2Loader.Lib.Transition
import OpenPS2Loader.Tar.Index

/-!
# The life of an archive index

`tar.c` keeps one index for each kind of archive. It comes from an archive that was loaded by its
name (`tarLoadFile`, the exact one), or from the first device that has one
(`tarLoadFromAnyDevice`). Which of the two it is decides where `tarRead` reads.

A run is a sequence of calls for one kind, and each call meets a disk of its own: archives and
sidecars may come, go, change and fail from one call to the next. The state has the variables of
the kind, but for `s_cap`, which a scan starts at 0 and nothing else reads; and it has what the
program does not write down: the path that is held, the path the index is of, how often an archive
was parsed, and the entries that were returned since.

That an archive is held is seen by `s_count > 0` and by comparing the path with what is left of it
in 256 characters. So an archive without members, or one with a longer path, is parsed each time it
is loaded; and with a longer path, `tarRead` opens another file.

## Main definitions

* `Tar.Loader`, `Tar.Loader.call` — the state, and one call
* `Tar.Lifecycle` — what a state has to satisfy
* `Tar.Named` — what is loaded by its name has a path of at most 255 characters, and members

## Main results

* `Tar.lifecycle_of_runOk` — in every run of `Named` calls
* `Tar.not_lifecycle_noMembers` — an archive without members
-/

namespace OpenPS2Loader

namespace Tar

/-! ### Paths -/

/-- A path, without its terminator. -/
abbrev Path : Type := List UInt8

/-- `"massN:/"` -/
def massRoot (slot : ℕ) : Path := [109, 97, 115, 115, UInt8.ofNat (48 + slot), 58, 47]

/-- `"mmceN:/"` -/
def mmceRoot (slot : ℕ) : Path := [109, 109, 99, 101, UInt8.ofNat (48 + slot), 58, 47]

/-- The `mountRoot`s of `gDevices`: after the `mass` and `mmce` devices, `"hdd0:/"`, `"pfs0:/"` and
`"smb0:/"`. -/
def mountRoots : List Path :=
  (List.range 8).map massRoot ++ (List.range 2).map mmceRoot ++
    [[104, 100, 100, 48, 58, 47], [112, 102, 115, 48, 58, 47], [115, 109, 98, 48, 58, 47]]

/-- `relPath`: `"ART/art.tar"`, `"CFG/cfg.tar"` and `"CHT/cht.tar"`. -/
def Kind.relPath : Kind → Path
  | .art => [65, 82, 84, 47, 97, 114, 116, 46, 116, 97, 114]
  | .cfg => [67, 70, 71, 47, 99, 102, 103, 46, 116, 97, 114]
  | .cht => [67, 72, 84, 47, 99, 104, 116, 46, 116, 97, 114]

/-- `cacheName`: `"art_cache.bin"`, `"cfg_cache.bin"` and `"cht_cache.bin"`. -/
def Kind.cacheName : Kind → Path
  | .art => [97, 114, 116, 95, 99, 97, 99, 104, 101, 46, 98, 105, 110]
  | .cfg => [99, 102, 103, 95, 99, 97, 99, 104, 101, 46, 98, 105, 110]
  | .cht => [99, 104, 116, 95, 99, 97, 99, 104, 101, 46, 98, 105, 110]

/-- `buildTarPath`. -/
def buildTarPath (k : Kind) (dev : Option Path) : Option Path :=
  dev.bind fun root => if (root ++ k.relPath).length < 256 then some (root ++ k.relPath) else none

/-- `dirPath`: a path up to its last `/`. -/
def dirPath (path : Path) : Path :=
  if 47 ∈ path.take 255 then (path.take 255).rdropWhile (· != 47) else path.take 255

/-- `fullCachePath`. -/
def cachePath (k : Kind) (path : Path) : Path := (dirPath path ++ k.cacheName).take 255

/-! ### The disk and the variables -/

/-- What a call finds. -/
structure Disk where
  alloc : ℕ → Bool
  /-- the first `open`, which only looks whether the archive is there -/
  there : Path → Bool
  /-- what the second `open` opens -/
  file : Path → Option (List UInt8)
  /-- no `read` and no `lseek64` of the archive fails -/
  readable : Path → Bool
  /-- `stat` -/
  size : Path → Option ℕ
  /-- a sidecar that can be opened and read -/
  sidecar : Path → Option Sidecar

/-- The variables of a kind, and what happened to them. -/
structure Loader where
  /-- `s_index` with `s_count` entries -/
  index : Option (List Entry)
  /-- `s_dev` -/
  dev : Option Path
  /-- `s_inactive` -/
  inactive : Bool
  /-- `s_exactPath` -/
  exactPath : Path
  /-- `s_isExact` -/
  isExact : Bool
  /-- the path that was loaded by its name and is held -/
  held : Option Path
  /-- the path of the archive that the index is of -/
  source : Path
  /-- how often an archive was parsed -/
  parses : ℕ
  /-- the entries that were returned since, with the archives they are of -/
  issued : List (Entry × Path)

namespace Loader

/-- At the start of the program. -/
def start : Loader := ⟨none, none, false, [], false, none, [], 0, []⟩

/-- `s_count` -/
def count (s : Loader) : ℕ := (s.index.getD []).length

/-- `tarCloseInternal`. -/
def tarCloseInternal (s : Loader) : Loader :=
  { s with index := none, dev := none, exactPath := [], isExact := false, held := none }

/-- `tarClose` and `tarInvalidate`. -/
def tarClose (s : Loader) : Loader := { s.tarCloseInternal with inactive := false }

end Loader

/-! ### Loading -/

/-- The index in the sidecar of an archive. -/
def cached (k : Kind) (disk : Disk) (path : Path) : Option (List Entry) :=
  (disk.sidecar (cachePath k path)).bind fun sidecar =>
    (disk.size path).bind fun size => tarReadCache k disk.alloc size sidecar

/-- The index that a scan of an archive finds. -/
def scanned (k : Kind) (disk : Disk) (path : Path) (file : List UInt8) : Option (List Entry) :=
  if disk.readable path then parseLoop k disk.alloc file (file.length + 1) 0 [] 0 else none

/-- The index of an archive. -/
def indexed (k : Kind) (disk : Disk) (path : Path) : Option (List Entry) :=
  match cached k disk path with
  | some index => some index
  | none => (disk.file path).bind (scanned k disk path)

namespace Loader

/-- `tarParseFile`, on the variables. Where the archive cannot be opened, the index is not reset;
and a scan that finds no member allocates nothing. -/
def parse (k : Kind) (disk : Disk) (path : Path) (s : Loader) : Bool × Loader :=
  let s := { s with parses := s.parses + 1, issued := [] }
  match cached k disk path with
  | some index => (true, { s with index := some index, source := path })
  | none =>
    match disk.file path with
    | none => (false, s)
    | some file =>
      match scanned k disk path file with
      | none => (false, { s with index := none })
      | some [] => (true, { s with index := none, source := path })
      | some (e :: es) => (true, { s with index := some (e :: es), source := path })

/-- `tarLoadFile`. -/
def tarLoadFile (k : Kind) (disk : Disk) (path : Path) (s : Loader) : Bool × Loader :=
  if s.isExact ∧ s.index ≠ none ∧ 0 < s.count ∧ s.exactPath = path then (true, s)
  else
    match parse k disk path { s.tarCloseInternal with isExact := true } with
    | (true, s) => (true, { s with exactPath := path.take 255, held := some path })
    | (false, s) => (false, s.tarCloseInternal)

/-- The loop over the devices. -/
def probe (k : Kind) (disk : Disk) : List Path → Loader → Bool × Loader
  | [], s => (false, s)
  | root :: roots, s =>
    match buildTarPath k (some root) with
    | none => probe k disk roots s
    | some path =>
      if disk.there path then
        match parse k disk path { s with dev := some root } with
        | (true, s) => (true, s)
        | (false, s) => probe k disk roots s.tarCloseInternal
      else probe k disk roots s

/-- The loop, and the latch behind it. -/
def sweep (k : Kind) (disk : Disk) (s : Loader) : Bool × Loader :=
  match probe k disk mountRoots s with
  | (true, s) => (true, s)
  | (false, s) => (false, { s with inactive := true })

/-- Where a generic archive is called for, an exact one is closed. -/
def dropExact (s : Loader) : Loader := if s.isExact then s.tarCloseInternal else s

/-- The archive of `s_dev` is still there. -/
def stillThere (k : Kind) (disk : Disk) (s : Loader) : Bool :=
  (buildTarPath k s.dev).any disk.there

/-- `tarLoadFromAnyDevice`. -/
def tarLoadFromAnyDevice (k : Kind) (disk : Disk) (s : Loader) : Bool × Loader :=
  if s.dropExact.inactive then (false, s.dropExact)
  else if s.dropExact.index ≠ none ∧ s.dropExact.dev ≠ none then
    if s.dropExact.stillThere k disk then (true, s.dropExact)
    else sweep k disk s.dropExact.tarCloseInternal
  else sweep k disk s.dropExact

/-! ### Looking up and reading -/

/-- The start of `tarFind` and `tarFindPrefix`: whether there is an index to search. -/
def generic (k : Kind) (disk : Disk) (s : Loader) : Bool × Loader :=
  if s.dropExact.inactive then (false, s.dropExact)
  else if s.dropExact.index = none ∨ s.dropExact.count = 0 then
    tarLoadFromAnyDevice k disk s.dropExact
  else (true, s.dropExact)

/-- An entry is returned. -/
def give (s : Loader) (e : Option Entry) : Option Entry × Loader :=
  (e, { s with issued := (e.toList.map fun e => (e, s.source)) ++ s.issued })

/-- `tarFind` and `tarFindPrefix`, which differ in their test. -/
def findGeneric (k : Kind) (test : Entry → Bool) (disk : Disk) (s : Loader) :
    Option Entry × Loader :=
  match generic k disk s with
  | (true, s) => s.give ((s.index.getD []).find? test)
  | (false, s) => (none, s)

/-- `tarFindExact` and `tarFindPrefixExact`, which differ in their test. -/
def findInExact (test : Entry → Bool) (s : Loader) : Option Entry × Loader :=
  if s.isExact = false ∨ s.index = none ∨ s.count = 0 then (none, s)
  else s.give ((s.index.getD []).find? test)

end Loader

/-- The test of `tarFindPrefix` and `tarFindPrefixExact`. -/
def prefixMatches (pre : List UInt8) (e : Entry) : Bool :=
  eqNoCase ((baseName e.name).take pre.length) pre

namespace Loader

/-- `tarFind` -/
def tarFind (k : Kind) (disk : Disk) (filename : List UInt8) : Loader → Option Entry × Loader :=
  findGeneric k (nameMatches filename) disk

/-- `tarFindPrefix` -/
def tarFindPrefix (k : Kind) (disk : Disk) (pre : List UInt8) : Loader → Option Entry × Loader :=
  findGeneric k (prefixMatches pre) disk

/-- `tarFindExact` -/
def tarFindExact (filename : List UInt8) : Loader → Option Entry × Loader :=
  findInExact (nameMatches filename)

/-- `tarFindPrefixExact` -/
def tarFindPrefixExact (pre : List UInt8) : Loader → Option Entry × Loader :=
  findInExact (prefixMatches pre)

/-- The archive that `tarRead` opens. -/
def readPath (k : Kind) (s : Loader) : Option Path :=
  if s.isExact ∧ s.exactPath ≠ [] then some s.exactPath
  else if s.inactive then none
  else buildTarPath k s.dev

end Loader

/-- Reading an entry out of the archive at a path. -/
def readFrom (disk : Disk) (path : Path) (e : Entry) (dstSize : ℕ) (amount : ℕ → ℕ) :
    Option (List UInt8) :=
  (disk.file path).bind fun file =>
    if disk.readable path then tarRead file e dstSize amount else none

/-- `tarRead`, on the variables. -/
def Loader.tarRead (k : Kind) (disk : Disk) (s : Loader) (e : Entry) (dstSize : ℕ)
    (amount : ℕ → ℕ) : Option (List UInt8) :=
  if dstSize < e.rawSize then none
  else (s.readPath k).bind fun path => readFrom disk path e dstSize amount

/-! ### Runs -/

/-- The calls for a kind. -/
inductive Call
  | loadFile (disk : Disk) (path : Path)
  | loadFromAnyDevice (disk : Disk)
  | find (disk : Disk) (filename : List UInt8)
  | findPrefix (disk : Disk) (pre : List UInt8)
  | findExact (filename : List UInt8)
  | findPrefixExact (pre : List UInt8)
  /-- `tarRead`, which changes nothing -/
  | read (disk : Disk) (e : Entry) (dstSize : ℕ)
  | close
  | invalidate

/-- The state after a call. -/
def Loader.call (k : Kind) (s : Loader) : Call → Loader
  | .loadFile disk path => (s.tarLoadFile k disk path).2
  | .loadFromAnyDevice disk => (s.tarLoadFromAnyDevice k disk).2
  | .find disk filename => (s.tarFind k disk filename).2
  | .findPrefix disk pre => (s.tarFindPrefix k disk pre).2
  | .findExact filename => (s.tarFindExact filename).2
  | .findPrefixExact pre => (s.tarFindPrefixExact pre).2
  | .read .. => s
  | .close => s.tarClose
  | .invalidate => s.tarClose

/-- Every call can be made in every state. -/
def step (k : Kind) (s : Loader) (c : Call) : Option Loader := some (s.call k c)

/-- The entry is one of the archive on a device. -/
structure Generic (k : Kind) (s : Loader) (e : Entry) : Prop where
  isExact : s.isExact = false
  held : s.held = none
  mem : e ∈ s.index.getD []
  source : ∃ root ∈ mountRoots, buildTarPath k (some root) = some s.source

/-- The invariants of the comment in `tar.c`, and where entries are read from. -/
structure Lifecycle (k : Kind) (s : Loader) : Prop where
  /-- The archive that is held is not parsed again. -/
  loadOnce : ∀ disk path, s.held = some path → s.tarLoadFile k disk path = (true, s)
  /-- Nothing is left when an archive cannot be loaded by its name, -/
  loadFile_failed : ∀ disk path s', s.tarLoadFile k disk path = (false, s') →
    s'.index = none ∧ s'.exactPath = []
  /-- nor when no device has one. -/
  loadFromAnyDevice_failed : ∀ disk s', s.tarLoadFromAnyDevice k disk = (false, s') →
    s'.index = none ∧ s'.exactPath = []
  /-- The latch is opened by `tarClose` and `tarInvalidate` only. -/
  latch : ∀ c, s.inactive = true → (s.call k c).inactive = false → c = .close ∨ c = .invalidate
  find : ∀ disk filename e s', s.tarFind k disk filename = (some e, s') → Generic k s' e
  findPrefix : ∀ disk pre e s', s.tarFindPrefix k disk pre = (some e, s') → Generic k s' e
  /-- An entry is read out of the archive it is of, as long as the index is there, -/
  read : ∀ x ∈ s.issued, s.index ≠ none → ∀ disk dstSize amount,
    s.tarRead k disk x.1 dstSize amount = readFrom disk x.2 x.1 dstSize amount
  /-- and out of none when it is not. -/
  read_closed : ∀ x ∈ s.issued, s.index = none → ∀ disk dstSize amount,
    s.tarRead k disk x.1 dstSize amount = none

/-- What is loaded by its name has a path of 1 to 255 characters, and it has members. -/
def Named (k : Kind) : Call → Prop
  | .loadFile disk path => path ≠ [] ∧ path.length < 256 ∧ indexed k disk path ≠ some []
  | _ => True

/-! ### The invariant -/

/-- An exact index has members and its path, a generic one has its device, and the entries that were
returned are of the index as long as it is there. -/
structure Inv (k : Kind) (s : Loader) : Prop where
  exact : s.isExact = true → ∃ path, s.held = some path ∧ s.exactPath = path ∧ path ≠ [] ∧
    s.source = path ∧ s.index.getD [] ≠ []
  generic : s.isExact = false → s.held = none ∧ s.exactPath = []
  index : s.isExact = false → s.index ≠ none → s.inactive = false ∧
    ∃ root ∈ mountRoots, s.dev = some root ∧ buildTarPath k (some root) = some s.source
  closed : ∀ x ∈ s.issued, s.index = none → s.isExact = false ∧ s.dev = none
  issued : ∀ x ∈ s.issued, s.index ≠ none → s.source = x.2

open Loader

variable {k : Kind} {s s' : Loader} {disk : Disk} {path : Path}

theorem inv_start (k : Kind) : Inv k start where
  exact h := Bool.noConfusion h
  generic _ := ⟨rfl, rfl⟩
  index _ h := absurd rfl h
  closed _ h := absurd h List.not_mem_nil
  issued _ h := absurd h List.not_mem_nil

/-- After `tarCloseInternal` the invariant holds, whatever was before. -/
theorem inv_tarCloseInternal (k : Kind) (s : Loader) : Inv k s.tarCloseInternal where
  exact h := Bool.noConfusion h
  generic _ := ⟨rfl, rfl⟩
  index _ h := absurd rfl h
  closed _ _ _ := ⟨rfl, rfl⟩
  issued _ _ h := absurd rfl h

theorem inv_tarClose (k : Kind) (s : Loader) : Inv k s.tarClose where
  exact h := Bool.noConfusion h
  generic _ := ⟨rfl, rfl⟩
  index _ h := absurd rfl h
  closed _ _ _ := ⟨rfl, rfl⟩
  issued _ _ h := absurd rfl h

theorem ne_none_of_getD {index : Option (List Entry)} (h : index.getD [] ≠ []) : index ≠ none :=
  fun hnone => h (by rw [hnone]; rfl)

theorem Inv.dropExact (h : Inv k s) : Inv k s.dropExact ∧ s.dropExact.isExact = false := by
  rw [Loader.dropExact]
  split_ifs with hex
  · exact ⟨inv_tarCloseInternal k s, rfl⟩
  · exact ⟨h, Bool.not_eq_true _ ▸ hex⟩

/-! ### Loading keeps it -/

/-- An archive was parsed. -/
def Loader.parsed (s : Loader) (index : Option (List Entry)) (source : Path) : Loader :=
  { s with index := index, source := source, parses := s.parses + 1, issued := [] }

/-- **What parsing does**: with success there is an index, which has members if the archive has; and
without it the index is not to be relied on. -/
theorem parse_eq (k : Kind) (disk : Disk) (path : Path) (s : Loader) :
    (∃ index, parse k disk path s = (true, s.parsed index path) ∧
      (indexed k disk path ≠ some [] → index.getD [] ≠ [])) ∨
    ∃ index, parse k disk path s = (false, s.parsed index s.source) := by
  rw [parse, indexed]
  cases cached k disk path with
  | some index => exact .inl ⟨some index, rfl, fun h hnil => h (congrArg some hnil)⟩
  | none =>
    cases disk.file path with
    | none => exact .inr ⟨s.index, rfl⟩
    | some file =>
      dsimp only
      rw [Option.bind_some]
      cases scanned k disk path file with
      | none => exact .inr ⟨none, rfl⟩
      | some index =>
        cases index with
        | nil => exact .inl ⟨none, rfl, fun h => absurd rfl h⟩
        | cons e es => exact .inl ⟨some (e :: es), rfl, fun _ => List.cons_ne_nil e es⟩

theorem Inv.tarLoadFile (h : Inv k s) (hnamed : Named k (.loadFile disk path)) :
    Inv k (s.tarLoadFile k disk path).2 := by
  obtain ⟨hne, hlen, hmembers⟩ := hnamed
  rw [Loader.tarLoadFile]
  split_ifs with hheld
  · exact h
  rcases parse_eq k disk path { s.tarCloseInternal with isExact := true } with
    ⟨index, hparse, hindex⟩ | ⟨index, hparse⟩
  · rw [hparse]
    refine ⟨fun _ => ⟨path, rfl, List.take_of_length_le (by omega), hne, rfl, hindex hmembers⟩,
      fun hex => Bool.noConfusion hex, fun hex => Bool.noConfusion hex, ?_, ?_⟩
    · exact fun _ hx => absurd hx List.not_mem_nil
    · exact fun _ hx => absurd hx List.not_mem_nil
  · rw [hparse]
    exact inv_tarCloseInternal k _

/-- There is no index, and a device may be asked for one. -/
structure Ready (k : Kind) (s : Loader) : Prop extends Inv k s where
  isExact : s.isExact = false
  inactive : s.inactive = false
  none : s.index = none

/-- A generic archive was looked for. -/
structure Searched (k : Kind) (r : Bool × Loader) : Prop extends Inv k r.2 where
  isExact : r.2.isExact = false
  failed : r.1 = false → r.2.index = none

theorem probe_searched (disk : Disk) {roots : List Path}
    (hroots : ∀ root ∈ roots, root ∈ mountRoots) (h : Ready k s) :
    Searched k (probe k disk roots s) := by
  induction roots generalizing s with
  | nil => exact { h with failed := fun _ => h.none }
  | cons root roots ih =>
    have hrest : ∀ root ∈ roots, root ∈ mountRoots :=
      fun r hr => hroots r (List.mem_cons_of_mem _ hr)
    rw [probe]
    cases hpath : buildTarPath k (some root) with
    | none => exact ih hrest h
    | some path =>
      dsimp only
      split_ifs with hthere
      · rcases parse_eq k disk path { s with dev := some root } with
          ⟨index, hparse, -⟩ | ⟨index, hparse⟩
        · rw [hparse]
          refine ⟨⟨fun hex => ?_, fun _ => h.generic h.isExact, fun _ _ => ⟨h.inactive, root,
            hroots root List.mem_cons_self, rfl, hpath⟩, ?_, ?_⟩, h.isExact,
            fun hfalse => Bool.noConfusion hfalse⟩
          · exact absurd (hex.symm.trans h.isExact) Bool.noConfusion
          · exact fun _ hx => absurd hx List.not_mem_nil
          · exact fun _ hx => absurd hx List.not_mem_nil
        · rw [hparse]
          exact ih hrest ⟨inv_tarCloseInternal k _, rfl, h.inactive, rfl⟩
      · exact ih hrest h

theorem sweep_searched (h : Ready k s) : Searched k (sweep k disk s) := by
  have hprobe := probe_searched disk (fun _ hroot => hroot) h
  rw [sweep]
  revert hprobe
  rcases probe k disk mountRoots s with ⟨found, s'⟩
  intro hprobe
  cases found with
  | true => exact hprobe
  | false =>
    have hnone := hprobe.failed rfl
    exact ⟨⟨hprobe.exact, hprobe.generic, fun _ hne => absurd hnone hne, hprobe.closed,
      hprobe.issued⟩, hprobe.isExact, fun _ => hnone⟩

theorem Inv.tarLoadFromAnyDevice (h : Inv k s) (disk : Disk) :
    Searched k (s.tarLoadFromAnyDevice k disk) := by
  obtain ⟨hdrop, hex⟩ := h.dropExact
  rw [Loader.tarLoadFromAnyDevice]
  split_ifs with hinactive hindex hthere
  · refine { hdrop with isExact := hex, failed := fun _ => ?_ }
    by_contra hne
    exact absurd ((hdrop.index hex hne).1.symm.trans hinactive) Bool.noConfusion
  · exact { hdrop with isExact := hex, failed := fun hfalse => Bool.noConfusion hfalse }
  · exact sweep_searched ⟨inv_tarCloseInternal k _, rfl, Bool.not_eq_true _ ▸ hinactive, rfl⟩
  · refine sweep_searched { hdrop with
      isExact := hex, inactive := Bool.not_eq_true _ ▸ hinactive, none := ?_ }
    by_contra hne
    obtain ⟨-, root, -, hdev, -⟩ := hdrop.index hex hne
    exact hindex ⟨hne, by rw [hdev]; exact Option.some_ne_none root⟩

theorem Inv.generic_inv (h : Inv k s) (disk : Disk) :
    Inv k (Loader.generic k disk s).2 ∧ (Loader.generic k disk s).2.isExact = false := by
  obtain ⟨hdrop, hex⟩ := h.dropExact
  rw [Loader.generic]
  split_ifs
  · exact ⟨hdrop, hex⟩
  · have hsearched := hdrop.tarLoadFromAnyDevice disk
    exact ⟨hsearched.toInv, hsearched.isExact⟩
  · exact ⟨hdrop, hex⟩

/-! ### Looking up keeps it -/

/-- An entry of the index is returned. -/
theorem Inv.give {e : Option Entry} (h : Inv k s) (he : ∀ x ∈ e, x ∈ s.index.getD []) :
    Inv k (s.give e).2 := by
  cases e with
  | none => exact h
  | some e =>
    have hne : s.index ≠ none := ne_none_of_getD (List.ne_nil_of_mem (he e rfl))
    refine ⟨h.exact, h.generic, h.index, fun _ _ hnone => absurd hnone hne, fun x hx _ => ?_⟩
    rcases List.mem_cons.mp hx with rfl | hx
    · rfl
    · exact h.issued x hx hne

theorem mem_of_find? {test : Entry → Bool} {index : List Entry} :
    ∀ x ∈ index.find? test, x ∈ index :=
  fun _ hx => List.mem_of_find?_eq_some hx

theorem Inv.findGeneric {test : Entry → Bool} (h : Inv k s) :
    Inv k (s.findGeneric k test disk).2 := by
  have hgeneric := h.generic_inv disk
  rw [Loader.findGeneric]
  revert hgeneric
  rcases Loader.generic k disk s with ⟨found, s'⟩
  intro hgeneric
  cases found with
  | true => exact hgeneric.1.give mem_of_find?
  | false => exact hgeneric.1

theorem Inv.findInExact {test : Entry → Bool} (h : Inv k s) : Inv k (s.findInExact test).2 := by
  rw [Loader.findInExact]
  split_ifs
  · exact h
  · exact h.give mem_of_find?

/-- **One call.** -/
theorem Inv.call {c : Call} (h : Inv k s) (hc : Named k c) : Inv k (s.call k c) := by
  cases c with
  | loadFile disk path => exact h.tarLoadFile hc
  | loadFromAnyDevice disk => exact (h.tarLoadFromAnyDevice disk).toInv
  | find disk filename => exact h.findGeneric
  | findPrefix disk pre => exact h.findGeneric
  | findExact filename => exact h.findInExact
  | findPrefixExact pre => exact h.findInExact
  | read disk e dstSize => exact h
  | close => exact inv_tarClose k s
  | invalidate => exact inv_tarClose k s

/-! ### What follows from it -/

/-- What is found is of the archive on a device. -/
theorem Inv.generic_of_findGeneric {test : Entry → Bool} {e : Entry} (h : Inv k s)
    (hfind : s.findGeneric k test disk = (some e, s')) : Generic k s' e := by
  have hgeneric := h.generic_inv disk
  rw [Loader.findGeneric] at hfind
  revert hgeneric hfind
  rcases Loader.generic k disk s with ⟨found, t⟩
  intro hfind ⟨hinv, hex⟩
  cases found with
  | true =>
    obtain ⟨he, rfl⟩ := Prod.mk.inj hfind
    have hmem : e ∈ t.index.getD [] := List.mem_of_find?_eq_some he
    obtain ⟨-, root, hroot, -, hpath⟩ :=
      hinv.index hex (ne_none_of_getD (List.ne_nil_of_mem hmem))
    exact ⟨hex, (hinv.generic hex).1, hmem, root, hroot, hpath⟩
  | false => cases (Prod.mk.inj hfind).1

/-! #### The latch -/

theorem inactive_dropExact (s : Loader) : s.dropExact.inactive = s.inactive := by
  rw [Loader.dropExact]
  split_ifs <;> rfl

theorem inactive_parse (k : Kind) (disk : Disk) (path : Path) (s : Loader) :
    (parse k disk path s).2.inactive = s.inactive := by
  rcases parse_eq k disk path s with ⟨index, hparse, -⟩ | ⟨index, hparse⟩ <;>
    rw [hparse, Loader.parsed]

theorem inactive_tarLoadFile (k : Kind) (disk : Disk) (path : Path) (s : Loader) :
    (s.tarLoadFile k disk path).2.inactive = s.inactive := by
  have hparse := inactive_parse k disk path { s.tarCloseInternal with isExact := true }
  rw [Loader.tarLoadFile]
  split_ifs with hheld
  · rfl
  revert hparse
  rcases parse k disk path { s.tarCloseInternal with isExact := true } with ⟨found, t⟩
  intro hparse
  cases found <;> exact hparse

theorem inactive_tarLoadFromAnyDevice (k : Kind) (disk : Disk) (h : s.inactive = true) :
    s.tarLoadFromAnyDevice k disk = (false, s.dropExact) := by
  rw [Loader.tarLoadFromAnyDevice, if_pos ((inactive_dropExact s).trans h)]

theorem inactive_findGeneric (test : Entry → Bool) (k : Kind) (disk : Disk)
    (h : s.inactive = true) : s.findGeneric k test disk = (none, s.dropExact) := by
  rw [Loader.findGeneric, Loader.generic, if_pos ((inactive_dropExact s).trans h)]

theorem inactive_findInExact (test : Entry → Bool) (s : Loader) :
    (s.findInExact test).2.inactive = s.inactive := by
  rw [Loader.findInExact]
  split_ifs <;> rfl

/-- While the latch is closed, nothing but `tarClose` and `tarInvalidate` opens it. -/
theorem inactive_call {c : Call} (h : s.inactive = true) (hc : (s.call k c).inactive = false) :
    c = .close ∨ c = .invalidate := by
  have hdrop := (inactive_dropExact s).trans h
  cases c with
  | loadFile disk path =>
    exact absurd (hc.symm.trans ((inactive_tarLoadFile k disk path s).trans h)) Bool.noConfusion
  | loadFromAnyDevice disk =>
    rw [Loader.call, inactive_tarLoadFromAnyDevice k disk h] at hc
    exact absurd (hc.symm.trans hdrop) Bool.noConfusion
  | find disk filename =>
    rw [Loader.call, tarFind, inactive_findGeneric _ k disk h] at hc
    exact absurd (hc.symm.trans hdrop) Bool.noConfusion
  | findPrefix disk pre =>
    rw [Loader.call, tarFindPrefix, inactive_findGeneric _ k disk h] at hc
    exact absurd (hc.symm.trans hdrop) Bool.noConfusion
  | findExact filename =>
    exact absurd (hc.symm.trans ((inactive_findInExact _ s).trans h)) Bool.noConfusion
  | findPrefixExact pre =>
    exact absurd (hc.symm.trans ((inactive_findInExact _ s).trans h)) Bool.noConfusion
  | read disk e dstSize => exact absurd (hc.symm.trans h) Bool.noConfusion
  | close => exact .inl rfl
  | invalidate => exact .inr rfl

/-! #### Loading again, failing and reading -/

/-- **The archive that is held is not parsed again**, and the state is the same. -/
theorem Inv.loadOnce (h : Inv k s) (hheld : s.held = some path) :
    s.tarLoadFile k disk path = (true, s) := by
  have hex : s.isExact = true := by
    by_contra hnot
    rw [Bool.not_eq_true] at hnot
    exact absurd (hheld.symm.trans (h.generic hnot).1) (Option.some_ne_none path)
  obtain ⟨path', hheld', hpath, -, -, hmembers⟩ := h.exact hex
  obtain rfl := Option.some.inj (hheld.symm.trans hheld')
  exact if_pos ⟨hex, ne_none_of_getD hmembers, List.length_pos_of_ne_nil hmembers, hpath⟩

theorem loadFile_failed (hs : s.tarLoadFile k disk path = (false, s')) :
    s'.index = none ∧ s'.exactPath = [] := by
  rw [Loader.tarLoadFile] at hs
  split_ifs at hs
  · exact absurd (Prod.mk.inj hs).1 Bool.noConfusion
  revert hs
  rcases parse k disk path { s.tarCloseInternal with isExact := true } with ⟨found, t⟩
  intro hs
  cases found with
  | true => exact absurd (Prod.mk.inj hs).1 Bool.noConfusion
  | false =>
    obtain ⟨-, rfl⟩ := Prod.mk.inj hs
    exact ⟨rfl, rfl⟩

theorem Inv.loadFromAnyDevice_failed (h : Inv k s)
    (hs : s.tarLoadFromAnyDevice k disk = (false, s')) : s'.index = none ∧ s'.exactPath = [] := by
  have hsearched := h.tarLoadFromAnyDevice disk
  rw [hs] at hsearched
  exact ⟨hsearched.failed rfl, (hsearched.generic hsearched.isExact).2⟩

/-- Where the index is, there is the path to read from. -/
theorem Inv.readPath (h : Inv k s) (hne : s.index ≠ none) : s.readPath k = some s.source := by
  rw [Loader.readPath]
  cases hex : s.isExact with
  | true =>
    obtain ⟨path, -, hpath, hne, hsource, -⟩ := h.exact hex
    rw [if_pos ⟨rfl, by rwa [hpath]⟩, hpath, hsource]
  | false =>
    obtain ⟨hinactive, root, -, hdev, hpath⟩ := h.index hex hne
    rw [if_neg fun hand => Bool.noConfusion hand.1, hinactive, hdev]
    exact hpath

theorem Inv.read {x : Entry × Path} (h : Inv k s) (hx : x ∈ s.issued) (hne : s.index ≠ none)
    (disk : Disk) (dstSize : ℕ) (amount : ℕ → ℕ) :
    s.tarRead k disk x.1 dstSize amount = readFrom disk x.2 x.1 dstSize amount := by
  rw [Loader.tarRead, h.readPath hne, h.issued x hx hne, Option.bind_some]
  by_cases hsmall : dstSize < x.1.rawSize
  · rw [if_pos hsmall, readFrom]
    cases disk.file x.2 with
    | none => rfl
    | some file => rw [Option.bind_some, Tar.tarRead, if_pos hsmall, ite_self]
  · rw [if_neg hsmall]

theorem Inv.read_closed {x : Entry × Path} (h : Inv k s) (hx : x ∈ s.issued)
    (hnone : s.index = none) (disk : Disk) (dstSize : ℕ) (amount : ℕ → ℕ) :
    s.tarRead k disk x.1 dstSize amount = none := by
  obtain ⟨hex, hdev⟩ := h.closed x hx hnone
  have hpath : s.readPath k = none := by
    rw [Loader.readPath, hex, hdev, if_neg fun hand => Bool.noConfusion hand.1]
    exact ite_self _
  rw [Loader.tarRead, hpath]
  exact ite_self _

theorem Inv.lifecycle (h : Inv k s) : Lifecycle k s where
  loadOnce _ _ := h.loadOnce
  loadFile_failed _ _ _ := loadFile_failed
  loadFromAnyDevice_failed _ _ := h.loadFromAnyDevice_failed
  latch _ := inactive_call
  find _ _ _ _ := h.generic_of_findGeneric
  findPrefix _ _ _ _ := h.generic_of_findGeneric
  read _ := h.read
  read_closed _ := h.read_closed

/-- **The life of an index.** In every run of `Named` calls, the invariants of `tar.c` hold. -/
theorem lifecycle_of_runOk {k : Kind} {cs : List Call} {s : Loader}
    (hok : ∀ c ∈ cs, Named k c) (hrun : Transition.run (step k) start cs = some s) :
    Lifecycle k s := by
  refine Inv.lifecycle (Transition.run_invariant (fun s c s' h hc hs => ?_) (inv_start k) hok hrun)
  obtain rfl := Option.some.inj hs
  exact h.call hc

/-! ### What is parsed each time -/

/-- A load that is not of the archive that is held parses one. -/
theorem tarLoadFile_parses (h : ¬(s.isExact = true ∧ s.index ≠ none ∧ 0 < s.count ∧
    s.exactPath = path)) :
    (s.tarLoadFile k disk path).2.parses = s.parses + 1 ∧
      ((s.tarLoadFile k disk path).1 = true → ∃ index,
        parse k disk path { s.tarCloseInternal with isExact := true } =
          (true, { s.tarCloseInternal with isExact := true }.parsed index path) ∧
        (s.tarLoadFile k disk path).2 =
          { { s.tarCloseInternal with isExact := true }.parsed index path with
            exactPath := path.take 255, held := some path }) := by
  rw [Loader.tarLoadFile, if_neg h]
  rcases parse_eq k disk path { s.tarCloseInternal with isExact := true } with
    ⟨index, hparse, -⟩ | ⟨index, hparse⟩
  · rw [hparse]
    exact ⟨rfl, fun _ => ⟨index, rfl, rfl⟩⟩
  · rw [hparse]
    exact ⟨rfl, fun hfalse => Bool.noConfusion hfalse⟩

/-- **Loading again** after an archive was loaded by its name: nothing is parsed exactly when it has
members and the path has less than 256 characters. -/
theorem loadOnce_iff (hload : (s.tarLoadFile k disk path).1 = true)
    (hnew : ¬(s.isExact = true ∧ s.index ≠ none ∧ 0 < s.count ∧ s.exactPath = path))
    (disk' : Disk) :
    (s.tarLoadFile k disk path).2.tarLoadFile k disk' path =
        (true, (s.tarLoadFile k disk path).2) ↔
      0 < (s.tarLoadFile k disk path).2.count ∧ path.length < 256 := by
  obtain ⟨index, -, hs⟩ := (tarLoadFile_parses hnew).2 hload
  constructor
  · intro hagain
    by_contra hnot
    have hother := (@tarLoadFile_parses k (s.tarLoadFile k disk path).2 disk' path
      fun ⟨_, _, hcount, hpath⟩ => hnot ⟨hcount, ?_⟩).1
    · rw [hagain] at hother
      exact absurd hother (Nat.ne_of_lt (Nat.lt_succ_self _))
    · rw [hs] at hpath
      have hlen := congrArg List.length hpath
      rw [List.length_take] at hlen
      omega
  · rintro ⟨hcount, hlen⟩
    refine if_pos ⟨?_, ?_, hcount, ?_⟩
    · rw [hs, Loader.parsed]
    · exact ne_none_of_getD (List.ne_nil_of_length_pos hcount)
    · rw [hs]
      exact List.take_of_length_le (by omega)

/-- A disk with this archive under every path, and without sidecars. -/
def diskOf (items : List Item) : Disk :=
  ⟨fun _ => true, fun _ => true, fun _ => some (archive items), fun _ => true, fun _ => none,
    fun _ => none⟩

theorem scanned_diskOf (k : Kind) (path : Path) {items : List Item}
    (hmem : Enough k (fun _ => true) (listing 0 items).length) :
    scanned k (diskOf items) path (archive items) = some (indexOf k items) := by
  have hparse : (parseLoop k (fun _ => true) (archive items) ((archive items).length + 1) 0 []
      0).isSome :=
    (parseLoop_archive (List.nil_append (archive items)).symm
      (Nat.lt_succ_of_le (length_le_archive items)) [] 0).2 _ hmem (Nat.le_refl 0)
      (Nat.le_of_eq (Nat.zero_add _))
  obtain ⟨r, hr⟩ := Option.isSome_iff_exists.mp hparse
  exact (if_pos rfl).trans (hr.trans (congrArg some (parse_archive hr)))

theorem cached_diskOf (k : Kind) (path : Path) (items : List Item) :
    cached k (diskOf items) path = none := rfl

theorem indexed_diskOf (k : Kind) (path : Path) {items : List Item}
    (hmem : Enough k (fun _ => true) (listing 0 items).length) :
    indexed k (diskOf items) path = some (indexOf k items) := by
  rw [indexed, cached_diskOf]
  exact scanned_diskOf k path hmem

/-- An archive without members is held, and parsed again. -/
theorem not_loadOnce_diskOf (k : Kind) (path : Path) {items : List Item}
    (hmem : Enough k (fun _ => true) (listing 0 items).length) (hnone : indexOf k items = []) :
    ∃ s, start.call k (.loadFile (diskOf items) path) = s ∧ s.held = some path ∧
      s.tarLoadFile k (diskOf items) path ≠ (true, s) := by
  have hparse : parse k (diskOf items) path { start.tarCloseInternal with isExact := true } =
      (true, { start.tarCloseInternal with isExact := true }.parsed none path) := by
    have hscan := scanned_diskOf k path hmem
    rw [hnone] at hscan
    rw [parse, cached_diskOf, show (diskOf items).file path = some (archive items) from rfl]
    dsimp only
    rw [hscan, Loader.parsed]
  have hnew : ¬(start.isExact = true ∧ start.index ≠ none ∧ 0 < start.count ∧
      start.exactPath = path) := fun h => Bool.noConfusion h.1
  have hload : start.tarLoadFile k (diskOf items) path =
      (true, { { start.tarCloseInternal with isExact := true }.parsed none path with
        exactPath := path.take 255, held := some path }) := by
    rw [Loader.tarLoadFile, if_neg hnew, hparse]
  refine ⟨_, rfl, ?_, fun hagain => ?_⟩
  · rw [Loader.call, hload]
  · have hcount := ((loadOnce_iff (by rw [hload]) hnew (diskOf items)).mp hagain).1
    rw [hload] at hcount
    exact Nat.lt_irrefl 0 hcount

/-- `"pfs0:/ART/art.tar"` -/
def pfsArchive : Path := [112, 102, 115, 48, 58, 47, 65, 82, 84, 47, 97, 114, 116, 46, 116, 97, 114]

theorem lifecycle_aFile :
    ∃ s, Transition.run (step .art) start [.loadFile (diskOf [.member aFile]) pfsArchive,
      .findExact [97, 46, 112, 110, 103], .loadFile (diskOf [.member aFile]) pfsArchive] = some s ∧
      Lifecycle .art s := by
  have hindexed : indexed .art (diskOf [.member aFile]) pfsArchive ≠ some [] := by
    rw [indexed_diskOf .art pfsArchive ⟨by decide, fun _ _ => rfl⟩]
    exact fun h => absurd (Option.some.inj h) (by decide)
  refine Exists.imp (fun s hs => ⟨hs, lifecycle_of_runOk (fun c hc => ?_) hs⟩) ⟨_, rfl⟩
  simp only [List.mem_cons, List.not_mem_nil, or_false] at hc
  rcases hc with rfl | rfl | rfl
  · exact ⟨by decide, by decide, hindexed⟩
  · trivial
  · exact ⟨by decide, by decide, hindexed⟩

/-- **Two blocks of zeros** are an archive without members. -/
theorem not_lifecycle_noMembers :
    ∃ s, Transition.run (step .art) start [.loadFile (diskOf [.zeros, .zeros]) pfsArchive] =
      some s ∧ ¬ Lifecycle .art s := by
  obtain ⟨s, hs, hheld, hagain⟩ :=
    @not_loadOnce_diskOf .art pfsArchive [.zeros, .zeros] ⟨by decide, fun _ _ => rfl⟩ rfl
  exact ⟨s, congrArg some hs, fun h => hagain (h.loadOnce _ pfsArchive hheld)⟩

end Tar

end OpenPS2Loader
