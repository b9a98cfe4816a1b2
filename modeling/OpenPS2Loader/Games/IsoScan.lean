import OpenPS2Loader.Games.Info
import OpenPS2Loader.Lib.Transition

/-!
# Scanning a directory for images

`scanForISO` lists the disc images of a directory. An image with a name of the old format,
`SCUS_123.45.Title.iso`, has its boot file in its name; any other has to be mounted for it, unless
`games.bin` has an entry for the name: the list of the last scan, with the names it displays.

A row of the directory comes with what the calls on it return: whether it opens as a directory, the
`BOOT2` value of the image when it mounts, and whether a node can be allocated for it. `games.bin`
holds whole entries. `updateISOGameList` looks at the entry with the number of the game in every
turn of its inner loop, also behind the end of the cache, where the memory holds anything
(`ScanEnv.garbage`).

## Main definitions

* `Games.isValidIsoName`, `Games.getStartupExecName`, `Games.queryISOGameListCache`,
  `Games.updateISOGameList`, `Games.scanForISO`
* `Games.sbCreatePath` — the path of an image
* `Games.scanned` — the images of a directory with their entries
* `Games.step` — one scan, which leaves a new `games.bin`

## Main results

* `Games.scanLoop_eq` — what the loop of `scanForISO` collects
* `Games.cached_of_scan` — where the entries of `games.bin` come from
* `Games.cache_sound`
-/

namespace OpenPS2Loader

namespace Games

/-! ### Names of images -/

/-- `strcasecmp` says equal. -/
def eqNoCase (a b : Text) : Bool := a.map Char.toLower == b.map Char.toLower

/-- `isValidIsoName`: the format of an image with this name, and the length of the name that is
displayed. -/
def isValidIsoName (name : Text) : Option (GameFormat × ℕ) :=
  let size := name.length
  if size < 5 then
    none
  else if eqNoCase (name.drop (size - 4)) ['.', 'i', 's', 'o'] ||
      eqNoCase (name.drop (size - 4)) ['.', 'z', 's', 'o'] then
    if 17 ≤ size ∧ name[4]? = some '_' ∧ name[8]? = some '.' ∧ name[11]? = some '.' then
      some (.oldIso, size - 16)
    else
      some (.iso, size - 4)
  else
    none

/-- `GetStartupExecName` of a `BOOT2` value: the file behind the device, at most 11 characters. -/
def getStartupExecName (boot : Text) : Option Text :=
  match (Text.cutAt ':' boot).2 with
  | none => none
  | some path =>
    let file := ((path.dropWhile (· == '\\')).takeWhile (· != ';')).take (gameStartupMax - 1)
    if file = [] then none else some file

/-! ### The cache -/

/-- What is read of a directory, with the outcome of the calls on the row. -/
structure DirEntry where
  name : Text
  /-- It opens as a directory. -/
  isDir : Bool
  /-- The `BOOT2` value, when the image mounts and has one. -/
  boot : Option Text
  /-- A node for the row can be allocated. -/
  alloc : Bool
  deriving DecidableEq

/-- The name of the file of an entry, as `queryISOGameListCache` builds it. -/
def isoname (g : GameInfo) : Text :=
  (g.name ++ g.extension).take (isoGameNameMax + isoGameExtensionMax)

/-- `queryISOGameListCache` -/
def queryISOGameListCache (cache : List GameInfo) (filename : Text) : Option GameInfo :=
  cache.find? fun g => filename == isoname g

/-- What happens to `games.bin` when it is written: it may fail before the file is touched, or
while it is written, and the file is then removed. -/
inductive SaveOutcome
  | saved
  | unchanged
  | removed
  deriving DecidableEq

/-- What happens in a scan. -/
structure ScanEnv where
  /-- `games.bin` can be read, if it is there. -/
  loadOk : Bool
  /-- The memory behind the cache. -/
  garbage : ℕ → GameInfo
  save : SaveOutcome

/-- `loadISOGameListCache`. A file without an entry is not loaded. -/
def loadISOGameListCache (e : ScanEnv) (bin : Option (List GameInfo)) : Option (List GameInfo) :=
  if e.loadOk then bin.filter fun c => !c.isEmpty else none

/-- The inner loop of `updateISOGameList` stops early for the game with number `i`. -/
def foundAt (e : ScanEnv) (cache : List GameInfo) (i : ℕ) (g : GameInfo) : Bool :=
  (List.range cache.length).any fun _ =>
    let c := cache.getD i (e.garbage i)
    c.name == g.name && c.extension == g.extension

/-- The test of `updateISOGameList`. -/
def listModified (e : ScanEnv) (cache : Option (List GameInfo)) (head : List GameInfo) (count : ℕ) :
    Bool :=
  match cache with
  | some c => !head.isEmpty && decide (0 < count) &&
      (((head.take count).zipIdx.any fun p => !foundAt e c p.2 p.1) || count != c.length)
  | none => !head.isEmpty && decide (0 < count)

/-- `updateISOGameList`: the `games.bin` it leaves. -/
def updateISOGameList (e : ScanEnv) (cache : Option (List GameInfo)) (head : List GameInfo)
    (count : ℕ) (bin : Option (List GameInfo)) : Option (List GameInfo) :=
  if listModified e cache head count then
    if !head.isEmpty && decide (0 < count) then
      match e.save with
      | .saved => some (head.take count)
      | .unchanged => bin
      | .removed => none
    else
      none
  else
    bin

/-! ### The scan -/

/-- What `scanForISO` collects. `folderlist` is `none` when it is not wanted. -/
structure ScanState where
  glist : List GameInfo
  folderlist : Option (List GameInfo)
  count : ℕ

/-- The entry of an image, unless its boot file cannot be found. -/
def isoEntry (cache : Option (List GameInfo)) (type : UInt8) (format : GameFormat) (nameLen : ℕ)
    (d : DirEntry) : Option GameInfo :=
  if format = .oldIso then
    some ⟨(d.name.drop gameStartupMax).take nameLen, d.name.take (gameStartupMax - 1),
      (d.name.drop (gameStartupMax + nameLen)).take isoGameExtensionMax, 1, type, format, 0⟩
  else
    match cache.bind fun c => queryISOGameListCache c d.name with
    | some g => some { g with parts := 1, media := type, format := format, sizeMB := 0 }
    | none => (d.boot.bind getStartupExecName).map fun startup =>
        ⟨d.name.take nameLen, startup, (d.name.drop nameLen).take isoGameExtensionMax, 1, type,
          format, 0⟩

/-- The row of a folder. -/
def folderEntry (type : UInt8) (d : DirEntry) : GameInfo := ⟨d.name, [], [], 0, type, .folder, 0⟩

/-- A row that is not an image is a folder when folders are wanted, its path fits and it opens as a
directory. -/
def isFolderRow (pathLen : ℕ) (d : DirEntry) : Bool :=
  d.name.head? != some '.' && decide (d.name.length ≤ isoGameNameMax) &&
    decide (pathLen + 1 + d.name.length < 256) && d.isDir && d.alloc

/-- The format of a row that is listed as an image. -/
def imageFormat (name : Text) : Option (GameFormat × ℕ) :=
  (isValidIsoName name).filter fun f => decide (f.2 ≤ isoGameNameMax)

/-- The loop of `scanForISO`. Without memory for a game it ends. -/
def scanLoop (pathLen : ℕ) (type : UInt8) (cache : Option (List GameInfo)) :
    List DirEntry → ScanState → ScanState
  | [], s => s
  | d :: ds, s =>
    match imageFormat d.name with
    | none =>
      if isFolderRow pathLen d then
        scanLoop pathLen type cache ds
          { s with folderlist := s.folderlist.map fun l => folderEntry type d :: l }
      else
        scanLoop pathLen type cache ds s
    | some (format, nameLen) =>
      if 256 ≤ pathLen + 1 + d.name.length then
        scanLoop pathLen type cache ds s
      else if !d.alloc then
        s
      else
        match isoEntry cache type format nameLen d with
        | none => scanLoop pathLen type cache ds s
        | some g =>
          scanLoop pathLen type cache ds { s with glist := g :: s.glist, count := s.count + 1 }

/-- `scanForISO` with the lists it appends to: its value, the lists, and the `games.bin` it
leaves. A directory that does not open is `none`. -/
def scanForISO (e : ScanEnv) (path : Text) (type : UInt8) (dir : Option (List DirEntry))
    (bin : Option (List GameInfo)) (glist : List GameInfo) (folderlist : Option (List GameInfo)) :
    ℤ × List GameInfo × Option (List GameInfo) × Option (List GameInfo) :=
  match dir with
  | none => (-1, glist, folderlist, bin)
  | some rows =>
    if 255 ≤ path.length then
      (0, glist, folderlist, bin)
    else
      let cache := loadISOGameListCache e bin
      let s := scanLoop path.length type cache rows ⟨glist, folderlist, 0⟩
      (s.count, s.glist, s.folderlist, updateISOGameList e cache s.glist s.count bin)

/-! ### Paths -/

/-- A directory that is scanned: below the prefix the directory of a medium, or a folder in it.
`FOLDER_SUB_MAX` bounds the path of the folder. -/
structure Place where
  pre : Text
  media : UInt8
  sub : Text
  length_sub : sub.length < 128

/-- The directory of a medium. -/
def mediaDir (media : UInt8) : Text := if media = sceCdPS2CD then ['C', 'D'] else ['D', 'V', 'D']

/-- The path that `sbReadList` hands to `scanForISO`. -/
def scanPath (pre : Text) (media : UInt8) (sub : Text) : Text :=
  (pre ++ mediaDir media ++ if sub = [] then [] else '/' :: sub).take 255

/-- The path of the directory. -/
def Place.path (p : Place) : Text := scanPath p.pre p.media p.sub

/-- The path of a file in the directory. -/
def Place.file (p : Place) (sep : Char) (name : Text) : Text :=
  p.pre ++ mediaDir p.media ++ sep :: if p.sub = [] then name else p.sub ++ sep :: name

/-- `sbCreatePath` of an image, with `sbBrowseSub` as `sbReadList` sets it. The parts of a game of
`ul.cfg` have names of their own, and a folder has no path. -/
def sbCreatePath (p : Place) (sep : Char) (g : GameInfo) : Option Text :=
  let browseSub := p.sub.take 127
  let subseg := if browseSub = [] then [] else (browseSub ++ [sep]).take 129
  match g.format with
  | .usbld => none
  | .iso => some ((p.pre ++ mediaDir g.media ++ [sep] ++ subseg ++ g.name ++ g.extension).take 255)
  | .oldIso => some ((p.pre ++ mediaDir g.media ++ [sep] ++ subseg ++ g.startup ++ ['.'] ++
      g.name ++ g.extension).take 255)
  | .folder => some []

/-! ### What is collected -/

/-- The images of a directory with their entries, in the order of the directory. -/
def scanned (pathLen : ℕ) (type : UInt8) (cache : Option (List GameInfo)) :
    List DirEntry → List (DirEntry × GameInfo)
  | [] => []
  | d :: ds =>
    match imageFormat d.name with
    | none => scanned pathLen type cache ds
    | some (format, nameLen) =>
      if 256 ≤ pathLen + 1 + d.name.length then
        scanned pathLen type cache ds
      else if !d.alloc then
        []
      else
        match isoEntry cache type format nameLen d with
        | none => scanned pathLen type cache ds
        | some g => (d, g) :: scanned pathLen type cache ds

/-- The loop of `scanForISO` puts them in front of the list, the last one first, and counts
them. -/
theorem scanLoop_eq (pathLen : ℕ) (type : UInt8) (cache : Option (List GameInfo))
    (rows : List DirEntry) (s : ScanState) :
    (scanLoop pathLen type cache rows s).glist =
        ((scanned pathLen type cache rows).map Prod.snd).reverse ++ s.glist ∧
      (scanLoop pathLen type cache rows s).count =
        s.count + (scanned pathLen type cache rows).length := by
  fun_induction scanLoop pathLen type cache rows s with
  | case1 s => simp [scanned]
  | case2 s d ds hformat hfolder ih => simpa [scanned, hformat] using ih
  | case3 s d ds hformat hfolder ih => simpa [scanned, hformat] using ih
  | case4 s d ds format nameLen hformat hlong ih => simpa [scanned, hformat, hlong] using ih
  | case5 s d ds format nameLen hformat hlong halloc => simp [scanned, hformat, hlong, halloc]
  | case6 s d ds format nameLen hformat hlong halloc hentry ih =>
    simpa [scanned, hformat, hlong, halloc, hentry] using ih
  | case7 s d ds format nameLen hformat hlong halloc g hentry ih =>
    obtain ⟨hglist, hcount⟩ := ih
    rw [hglist, hcount, scanned, hformat]
    dsimp only
    rw [if_neg hlong, if_neg halloc, hentry]
    simp
    omega

/-- The folders of a directory, in the order of the directory. -/
def scannedFolders (pathLen : ℕ) (type : UInt8) (cache : Option (List GameInfo)) :
    List DirEntry → List GameInfo
  | [] => []
  | d :: ds =>
    match imageFormat d.name with
    | none =>
      if isFolderRow pathLen d then
        folderEntry type d :: scannedFolders pathLen type cache ds
      else
        scannedFolders pathLen type cache ds
    | some _ =>
      if 256 ≤ pathLen + 1 + d.name.length then
        scannedFolders pathLen type cache ds
      else if !d.alloc then
        []
      else
        scannedFolders pathLen type cache ds

theorem scanLoop_folderlist (pathLen : ℕ) (type : UInt8) (cache : Option (List GameInfo))
    (rows : List DirEntry) (s : ScanState) :
    (scanLoop pathLen type cache rows s).folderlist =
      s.folderlist.map fun l => (scannedFolders pathLen type cache rows).reverse ++ l := by
  fun_induction scanLoop pathLen type cache rows s with
  | case1 s => simp [scannedFolders]
  | case2 s d ds hformat hfolder ih =>
    rw [ih, scannedFolders, hformat, Option.map_map]
    simp [hfolder, Function.comp_def]
  | case3 s d ds hformat hfolder ih => simpa [scannedFolders, hformat, hfolder] using ih
  | case4 s d ds format nameLen hformat hlong ih =>
    simpa [scannedFolders, hformat, hlong] using ih
  | case5 s d ds format nameLen hformat hlong halloc =>
    simp [scannedFolders, hformat, hlong, halloc]
  | case6 s d ds format nameLen hformat hlong halloc hentry ih =>
    simpa [scannedFolders, hformat, hlong, halloc] using ih
  | case7 s d ds format nameLen hformat hlong halloc g hentry ih =>
    simpa [scannedFolders, hformat, hlong, halloc] using ih

/-- An entry, and the row it was made from. -/
theorem of_mem_scanned {pathLen : ℕ} {type : UInt8} {cache : Option (List GameInfo)}
    {rows : List DirEntry} {d : DirEntry} {g : GameInfo}
    (h : (d, g) ∈ scanned pathLen type cache rows) :
    d ∈ rows ∧ pathLen + 1 + d.name.length < 256 ∧ ∃ format nameLen,
      imageFormat d.name = some (format, nameLen) ∧
      isoEntry cache type format nameLen d = some g := by
  fun_induction scanned pathLen type cache rows with
  | case1 => cases h
  | case2 d' ds hformat ih => exact ⟨List.mem_cons_of_mem _ (ih h).1, (ih h).2⟩
  | case3 d' ds format nameLen hformat hlong ih =>
    exact ⟨List.mem_cons_of_mem _ (ih h).1, (ih h).2⟩
  | case4 d' ds format nameLen hformat hlong halloc => cases h
  | case5 d' ds format nameLen hformat hlong halloc hentry ih =>
    exact ⟨List.mem_cons_of_mem _ (ih h).1, (ih h).2⟩
  | case6 d' ds format nameLen hformat hlong halloc g' hentry ih =>
    obtain heq | h := List.mem_cons.mp h
    · obtain ⟨rfl, rfl⟩ := Prod.mk.inj heq
      exact ⟨List.mem_cons_self, by omega, format, nameLen, hformat, hentry⟩
    · exact ⟨List.mem_cons_of_mem _ (ih h).1, (ih h).2⟩

/-- The name has the old format. -/
def isOld (name : Text) : Bool := (imageFormat name).any fun f => f.1 == .oldIso

theorem imageFormat_cases {name : Text} {format : GameFormat} {n : ℕ}
    (h : imageFormat name = some (format, n)) :
    n ≤ isoGameNameMax ∧
      (format = .oldIso ∧ name.length = n + 16 ∧ name[11]? = some '.' ∨
        format = .iso ∧ name.length = n + 4) := by
  obtain ⟨hvalid, hle⟩ := Option.filter_eq_some_iff.mp h
  refine ⟨of_decide_eq_true hle, ?_⟩
  rw [isValidIsoName] at hvalid
  split at hvalid
  next => cases hvalid
  next hsize =>
    split at hvalid
    next =>
      split at hvalid
      next hold =>
        obtain ⟨rfl, rfl⟩ := Prod.mk.inj (Option.some.inj hvalid)
        exact .inl ⟨rfl, by omega, hold.2.2.2⟩
      next =>
        obtain ⟨rfl, rfl⟩ := Prod.mk.inj (Option.some.inj hvalid)
        exact .inr ⟨rfl, by omega⟩
    next => cases hvalid

/-- A name without its end, and its end. -/
theorem take_append_drop_take (name : Text) {n k : ℕ} (h : name.length = n + k) :
    name.take n ++ (name.drop n).take k = name := by
  have hk : (name.drop n).take k = name.drop n :=
    List.take_of_length_le (by rw [List.length_drop]; omega)
  rw [hk, List.take_append_drop]

theorem old_name {name : Text} {n : ℕ} (hlen : name.length = n + 16) :
    (name.drop gameStartupMax).take n ++
      (name.drop (gameStartupMax + n)).take isoGameExtensionMax = name.drop gameStartupMax := by
  rw [← List.drop_drop]
  refine take_append_drop_take _ ?_
  rw [List.length_drop, gameStartupMax, isoGameExtensionMax]
  omega

theorem old_file {name : Text} (hdot : name[11]? = some '.') :
    name.take (gameStartupMax - 1) ++ '.' :: name.drop gameStartupMax = name := by
  obtain ⟨hlt, hget⟩ := List.getElem?_eq_some_iff.mp hdot
  have hdrop : name.drop 11 = '.' :: name.drop 12 := by
    rw [List.drop_eq_getElem_cons hlt, hget]
  change name.take 11 ++ '.' :: name.drop 12 = name
  rw [← hdrop, List.take_append_drop]

/-! ### Where an entry comes from -/

/-- The boot file that a scan without a cache finds. -/
def bareStartup (type : UInt8) (d : DirEntry) : Option Text :=
  (imageFormat d.name).bind fun f => (isoEntry none type f.1 f.2 d).map GameInfo.startup

theorem bareStartup_congr {type : UInt8} {d d' : DirEntry} (hname : d'.name = d.name)
    (hboot : d'.boot = d.boot) : bareStartup type d' = bareStartup type d := by
  simp only [bareStartup, isoEntry, hname, hboot]

/-- An entry of the cache: its name is that of an image of the old format without the boot file in
front, or of any image whose boot file it has. -/
def Cached (type : UInt8) (seen : List DirEntry) (g : GameInfo) : Prop :=
  (g.name ++ g.extension).length ≤ isoGameNameMax + isoGameExtensionMax ∧
    ((∃ d ∈ seen, isOld d.name = true ∧ g.name ++ g.extension = d.name.drop gameStartupMax) ∨
      ∃ d ∈ seen, d.name = g.name ++ g.extension ∧ bareStartup type d = some g.startup)

theorem Cached.mono {type : UInt8} {seen seen' : List DirEntry} {g : GameInfo}
    (h : Cached type seen g) (hsub : seen ⊆ seen') : Cached type seen' g := by
  obtain ⟨hlen, ⟨d, hd, hold⟩ | ⟨d, hd, hname⟩⟩ := h
  · exact ⟨hlen, .inl ⟨d, hsub hd, hold⟩⟩
  · exact ⟨hlen, .inr ⟨d, hsub hd, hname⟩⟩

/-- **What the scan makes of an image**: its name without the boot file, an entry of the cache for
its name, or an entry with its own boot file. -/
theorem isoEntry_cases {cache : Option (List GameInfo)} {type : UInt8} {format : GameFormat}
    {n : ℕ} {d : DirEntry} {g : GameInfo} (hformat : imageFormat d.name = some (format, n))
    (h : isoEntry cache type format n d = some g) :
    g.media = type ∧ g.format = format ∧
      (isOld d.name = true ∧ format = .oldIso ∧ g.name ++ g.extension = d.name.drop gameStartupMax ∧
          g.startup = d.name.take (gameStartupMax - 1) ∧ bareStartup type d = some g.startup ∨
        (∃ c ∈ cache, ∃ g' ∈ c, isOld d.name = false ∧ format = .iso ∧ isoname g' = d.name ∧
          g.name = g'.name ∧ g.extension = g'.extension ∧ g.startup = g'.startup) ∨
        isOld d.name = false ∧ format = .iso ∧ g.name ++ g.extension = d.name ∧
          bareStartup type d = some g.startup) := by
  obtain ⟨-, ⟨rfl, hlen, hdot⟩ | ⟨rfl, hlen⟩⟩ := imageFormat_cases hformat
  · have hold : isOld d.name = true := by
      rw [isOld, hformat]
      rfl
    rw [isoEntry, if_pos rfl] at h
    obtain rfl := Option.some.inj h
    refine ⟨rfl, rfl, .inl ⟨hold, rfl, old_name hlen, rfl, ?_⟩⟩
    rw [bareStartup, hformat]
    rfl
  · have hold : isOld d.name = false := by
      rw [isOld, hformat]
      rfl
    rw [isoEntry, if_neg (by decide)] at h
    split at h
    next g' hquery =>
      obtain rfl := Option.some.inj h
      obtain ⟨c, hc, hfind⟩ := Option.bind_eq_some_iff.mp hquery
      have hname := List.find?_some hfind
      refine ⟨rfl, rfl, .inr (.inl ⟨c, hc, g', List.mem_of_find?_eq_some hfind, hold, rfl, ?_, rfl,
        rfl, rfl⟩)⟩
      exact (beq_iff_eq.mp hname).symm
    next =>
      obtain ⟨startup, hboot, rfl⟩ := Option.map_eq_some_iff.mp h
      refine ⟨rfl, rfl, .inr (.inr ⟨hold, rfl, take_append_drop_take d.name hlen, ?_⟩)⟩
      have hiso : ¬GameFormat.iso = GameFormat.oldIso := by decide
      rw [bareStartup, hformat, Option.bind_some, isoEntry]
      dsimp only
      rw [if_neg hiso, Option.bind_none, hboot]
      rfl

/-! ### Histories of scans -/

/-- A scan of the directory, and what was collected before it. -/
structure Scan where
  env : ScanEnv
  dir : Option (List DirEntry)
  glist : List GameInfo
  folderlist : Option (List GameInfo)

/-- The rows of the directory. -/
def Scan.rows (s : Scan) : List DirEntry := s.dir.getD []

/-- The images of a scan with their entries. -/
def produced (p : Place) (bin : Option (List GameInfo)) (s : Scan) : List (DirEntry × GameInfo) :=
  if 255 ≤ p.path.length then
    []
  else
    scanned p.path.length p.media (loadISOGameListCache s.env bin) s.rows

/-- `scanForISO` in the directory. -/
def Place.scan (p : Place) (bin : Option (List GameInfo)) (s : Scan) :
    ℤ × List GameInfo × Option (List GameInfo) × Option (List GameInfo) :=
  scanForISO s.env p.path p.media s.dir bin s.glist s.folderlist

/-- The `games.bin` after a scan. -/
def step (p : Place) (bin : Option (List GameInfo)) (s : Scan) :
    Option (Option (List GameInfo)) := some (p.scan bin s).2.2.2

/-- The list that `scanForISO` leaves. -/
theorem scan_glist (p : Place) (bin : Option (List GameInfo)) (s : Scan) :
    (p.scan bin s).2.1 = ((produced p bin s).map Prod.snd).reverse ++ s.glist := by
  rw [Place.scan, scanForISO.eq_def, produced, Scan.rows]
  cases s.dir with
  | none =>
    rw [Option.getD_none, scanned, ite_self]
    rfl
  | some rows =>
    dsimp only
    split
    next => rfl
    next => exact (scanLoop_eq _ _ _ _ _).1

theorem loaded_subset {e : ScanEnv} {bin : Option (List GameInfo)} {c : List GameInfo}
    (h : c ∈ loadISOGameListCache e bin) : bin = some c := by
  rw [loadISOGameListCache] at h
  split at h
  next => exact (Option.filter_eq_some_iff.mp h).1
  next => cases h

/-- `games.bin` stays as it is, goes, or holds the entries of the scan. -/
theorem scan_bin (p : Place) (bin : Option (List GameInfo)) (s : Scan) :
    (p.scan bin s).2.2.2 = bin ∨ (p.scan bin s).2.2.2 = none ∨
      (p.scan bin s).2.2.2 = some (((produced p bin s).map Prod.snd).reverse) := by
  rw [Place.scan, scanForISO.eq_def, produced, Scan.rows]
  cases s.dir with
  | none => exact .inl rfl
  | some rows =>
    dsimp only
    split
    next => exact .inl rfl
    next =>
      obtain ⟨hglist, hcount⟩ := scanLoop_eq p.path.length p.media
        (loadISOGameListCache s.env bin) rows ⟨s.glist, s.folderlist, 0⟩
      have hlen : ((scanned p.path.length p.media (loadISOGameListCache s.env bin) rows).map
          Prod.snd).reverse.length =
            0 + (scanned p.path.length p.media (loadISOGameListCache s.env bin) rows).length := by
        rw [List.length_reverse, List.length_map, Nat.zero_add]
      rw [hglist, hcount, updateISOGameList, List.take_left' hlen]
      split
      next =>
        split
        next =>
          cases s.env.save with
          | saved => exact .inr (.inr rfl)
          | unchanged => exact .inl rfl
          | removed => exact .inr (.inl rfl)
        next => exact .inr (.inl rfl)
      next => exact .inl rfl

/-- The entries of a scan come from what was cached, or from the rows. -/
theorem cached_of_scan {p : Place} {bin : Option (List GameInfo)} {s : Scan}
    {seen : List DirEntry} (hbin : ∀ c ∈ bin, ∀ g ∈ c, Cached p.media seen g) {d : DirEntry}
    {g : GameInfo} (h : (d, g) ∈ produced p bin s) : Cached p.media (seen ++ s.rows) g := by
  rw [produced] at h
  split at h
  next => cases h
  next =>
    obtain ⟨hd, -, format, n, hformat, hentry⟩ := of_mem_scanned h
    obtain ⟨hle, hlen⟩ := imageFormat_cases hformat
    obtain ⟨-, -, ⟨hold, -, hname, -⟩ | ⟨c, hc, g', hg', -, -, hiso, hname, hext, hstartup⟩ |
      ⟨-, hiso, hname, hbare⟩⟩ := isoEntry_cases hformat hentry
    · refine ⟨?_, .inl ⟨d, List.mem_append_right _ hd, hold, hname⟩⟩
      rw [hname, List.length_drop, gameStartupMax, isoGameExtensionMax]
      omega
    · have hcached := hbin c (loaded_subset hc) g' hg'
      rw [Cached, hname, hext, hstartup]
      exact hcached.mono (List.subset_append_left _ _)
    · refine ⟨?_, .inr ⟨d, List.mem_append_right _ hd, hname.symm, hbare⟩⟩
      rw [hname, isoGameExtensionMax]
      obtain ⟨hold, -⟩ | ⟨-, hlen⟩ := hlen
      · rw [hiso] at hold
        cases hold
      · omega

/-- The rows of all scans. -/
def seenRows (scans : List Scan) : List DirEntry := scans.flatMap Scan.rows

/-- Every entry of `games.bin` comes from a row of a scan. -/
theorem cached_of_run (p : Place) {scans : List Scan} {bin : Option (List GameInfo)}
    {seen : List DirEntry} {bin₀ : Option (List GameInfo)}
    (hbin₀ : ∀ c ∈ bin₀, ∀ g ∈ c, Cached p.media seen g)
    (hrun : Transition.run (step p) bin₀ scans = some bin) :
    ∀ c ∈ bin, ∀ g ∈ c, Cached p.media (seen ++ seenRows scans) g := by
  induction scans generalizing bin₀ seen with
  | nil =>
    obtain rfl := Option.some.inj hrun
    intro c hc g hg
    exact (hbin₀ c hc g hg).mono (List.subset_append_left _ _)
  | cons s scans ih =>
    obtain ⟨bin₁, hstep, hrest⟩ := Transition.run_cons_eq_some.mp hrun
    obtain rfl := Option.some.inj hstep
    have hbin₁ : ∀ c ∈ (p.scan bin₀ s).2.2.2, ∀ g ∈ c, Cached p.media (seen ++ s.rows) g := by
      intro c hc g hg
      obtain hsame | hnone | hnew := scan_bin p bin₀ s
      · rw [hsame] at hc
        exact (hbin₀ c hc g hg).mono (List.subset_append_left _ _)
      · rw [hnone] at hc
        cases hc
      · rw [hnew] at hc
        obtain rfl := Option.some.inj hc
        obtain ⟨⟨d, g'⟩, hmem, rfl⟩ := List.mem_map.mp (List.mem_reverse.mp hg)
        exact cached_of_scan hbin₀ hmem
    have hall := ih hbin₁ hrest
    have hrows : seenRows (s :: scans) = s.rows ++ seenRows scans := rfl
    rwa [List.append_assoc, ← hrows] at hall

/-! ### The path of an entry -/

theorem sbCreatePath_of_file {p : Place} {sep : Char} {g : GameInfo} {name : Text}
    (hpath : p.path.length < 255) (hlen : p.path.length + 1 + name.length < 256)
    (hmedia : g.media = p.media)
    (hname : g.format = .iso ∧ g.name ++ g.extension = name ∨
      g.format = .oldIso ∧ g.startup ++ '.' :: (g.name ++ g.extension) = name) :
    sbCreatePath p sep g = some (p.file sep name) := by
  have hsub : p.sub.take 127 = p.sub := List.take_of_length_le (by have := p.length_sub; omega)
  have hseg : (p.sub ++ [sep]).take 129 = p.sub ++ [sep] :=
    List.take_of_length_le (by simp; have := p.length_sub; omega)
  have hfull : (p.file sep name).length = p.path.length + 1 + name.length := by
    have hcut : p.path.length = min 255
        (p.pre ++ mediaDir p.media ++ if p.sub = [] then [] else '/' :: p.sub).length := by
      rw [Place.path, scanPath, List.length_take]
    rw [Place.file]
    split at hcut
    next hnil => simp [hnil] at hcut ⊢; omega
    next hne => simp [hne] at hcut ⊢; omega
  have htake : (p.file sep name).take 255 = p.file sep name := List.take_of_length_le (by omega)
  have hsplit : p.file sep name = p.pre ++ mediaDir p.media ++ [sep] ++
      (if p.sub = [] then [] else p.sub ++ [sep]) ++ name := by
    rw [Place.file]
    split <;> simp
  rw [sbCreatePath, hsub, hseg, hmedia]
  obtain ⟨hformat, rfl⟩ | ⟨hformat, rfl⟩ := hname
  · rw [hformat]
    dsimp only
    rw [List.append_assoc _ g.name, ← hsplit, htake]
  · rw [hformat]
    dsimp only
    rw [← htake, hsplit]
    simp only [List.append_assoc, List.cons_append, List.nil_append]

/-- The entries of a scan have the paths of their images. -/
theorem sbCreatePath_of_produced {p : Place} (sep : Char) {bin : Option (List GameInfo)} {s : Scan}
    {seen : List DirEntry} (hbin : ∀ c ∈ bin, ∀ g ∈ c, Cached p.media seen g) {d : DirEntry}
    {g : GameInfo} (h : (d, g) ∈ produced p bin s) :
    sbCreatePath p sep g = some (p.file sep d.name) := by
  rw [produced] at h
  split at h
  next => cases h
  next hpath =>
    obtain ⟨-, hfits, format, n, hformat, hentry⟩ := of_mem_scanned h
    obtain ⟨hle, hcases⟩ := imageFormat_cases hformat
    obtain ⟨hmedia, hgformat, hfrom⟩ := isoEntry_cases hformat hentry
    refine sbCreatePath_of_file (by omega) hfits hmedia ?_
    obtain ⟨-, hold, hname, hstartup, -⟩ | ⟨c, hc, g', hg', -, hiso, hisoname, hname, hext, -⟩ |
      ⟨-, hiso, hname, -⟩ := hfrom
    · refine .inr ⟨hgformat.trans hold, ?_⟩
      obtain ⟨-, -, hdot⟩ | ⟨hiso, -⟩ := hcases
      · rw [hname, hstartup, old_file hdot]
      · rw [hiso] at hold
        cases hold
    · refine .inl ⟨hgformat.trans hiso, ?_⟩
      have hcached := hbin c (loaded_subset hc) g' hg'
      rw [← hisoname, isoname, hname, hext, List.take_of_length_le hcached.1]
    · exact .inl ⟨hgformat.trans hiso, hname⟩

/-- The entries of a scan have the boot file of an image of that name, now or in an earlier scan,
unless the name is that of an image of the old format without its boot file. -/
theorem startup_of_produced {p : Place} {bin : Option (List GameInfo)} {s : Scan}
    {seen : List DirEntry} (hbin : ∀ c ∈ bin, ∀ g ∈ c, Cached p.media seen g) {d : DirEntry}
    {g : GameInfo} (h : (d, g) ∈ produced p bin s)
    (hclash : isOld d.name = false →
      ∀ o ∈ seen, isOld o.name = true → o.name.drop gameStartupMax ≠ d.name) :
    ∃ d' ∈ d :: seen, d'.name = d.name ∧ bareStartup p.media d' = some g.startup := by
  rw [produced] at h
  split at h
  next => cases h
  next =>
    obtain ⟨hd, -, format, n, hformat, hentry⟩ := of_mem_scanned h
    obtain ⟨-, -, hfrom⟩ := isoEntry_cases hformat hentry
    obtain ⟨-, -, -, -, hbare⟩ | ⟨c, hc, g', hg', hplain, -, hisoname, -, -, hstartup⟩ |
      ⟨-, -, -, hbare⟩ := hfrom
    · exact ⟨d, List.mem_cons_self, rfl, hbare⟩
    · obtain ⟨hlen, hfrom⟩ := hbin c (loaded_subset hc) g' hg'
      have hname : g'.name ++ g'.extension = d.name := by
        rw [← hisoname, isoname, List.take_of_length_le hlen]
      obtain ⟨o, ho, hold, hdrop⟩ | ⟨d', hd', hname', hbare⟩ := hfrom
      · exact absurd (hdrop.symm.trans hname) (hclash hplain o ho hold)
      · exact ⟨d', List.mem_cons_of_mem _ hd', hname'.trans hname, hstartup ▸ hbare⟩
    · exact ⟨d, List.mem_cons_self, rfl, hbare⟩

/-- **The cache of a directory.** After every history of scans that starts without `games.bin`, the
entries of the next scan are those of its images. The path of an entry is that of its image. Its
boot file is the one that a scan without a cache finds for the image of that name, now or in an
earlier scan, and so that of the very image when no image was replaced by another one under its
name; but for plain names that an image of the old format has behind its boot file, of which nothing
is said. -/
theorem cache_sound (p : Place) (sep : Char) {scans : List Scan} {bin : Option (List GameInfo)}
    (hrun : Transition.run (step p) none scans = some bin) (s : Scan) :
    (p.scan bin s).2.1 = ((produced p bin s).map Prod.snd).reverse ++ s.glist ∧
      ∀ d g, (d, g) ∈ produced p bin s →
        (d ∈ s.rows ∧ sbCreatePath p sep g = some (p.file sep d.name)) ∧
        ((isOld d.name = false →
            ∀ o ∈ seenRows scans, isOld o.name = true → o.name.drop gameStartupMax ≠ d.name) →
          (∃ d' ∈ d :: seenRows scans, d'.name = d.name ∧
            bareStartup p.media d' = some g.startup) ∧
          ((∀ d' ∈ seenRows scans, d'.name = d.name → d'.boot = d.boot) →
            bareStartup p.media d = some g.startup)) := by
  refine ⟨scan_glist p bin s, fun d g h => ?_⟩
  have hnone : ∀ c ∈ (none : Option (List GameInfo)), ∀ g ∈ c, Cached p.media [] g := by
    intro c hc
    cases hc
  have hbin : ∀ c ∈ bin, ∀ g ∈ c, Cached p.media (seenRows scans) g := cached_of_run p hnone hrun
  refine ⟨⟨?_, sbCreatePath_of_produced sep hbin h⟩, fun hclash => ?_⟩
  · rw [produced] at h
    split at h
    next => cases h
    next => exact (of_mem_scanned h).1
  · have hstartup := startup_of_produced hbin h hclash
    refine ⟨hstartup, fun hkept => ?_⟩
    obtain ⟨d', hd', hname, hbare⟩ := hstartup
    obtain rfl | hd' := List.mem_cons.mp hd'
    · exact hbare
    · rw [← bareStartup_congr hname (hkept d' hd' hname)]
      exact hbare

/-- The root of a drive. -/
def cdRoot : Place := ⟨['m', 'a', 's', 's', ':'], sceCdPS2CD, [], by decide⟩

/-- A scan of a directory with one image, "G.iso", that boots this file. -/
def scanOf (boot : Text) : Scan where
  env := ⟨true, fun _ => ⟨[], [], [], 0, 0, .usbld, 0⟩, .saved⟩
  dir := some [⟨['G', '.', 'i', 's', 'o'], false, some (['c', 'd', ':', '\\'] ++ boot), true⟩]
  glist := []
  folderlist := none

/-- An image that was replaced under its name is listed with the boot file of the old one. -/
theorem not_fresh_replaced :
    ∃ bin g, Transition.run (step cdRoot) none [scanOf ['A']] = some bin ∧
      (cdRoot.scan bin (scanOf ['B'])).2.1 = [g] ∧ g.startup = ['A'] ∧
      (cdRoot.scan none (scanOf ['B'])).2.1.map GameInfo.startup = [['B']] :=
  ⟨_, _, rfl, rfl, rfl, rfl⟩

/-- The second scan of the directory. -/
theorem cache_sound_kept :
    ∃ bin, Transition.run (step cdRoot) none [scanOf ['A']] = some bin ∧
      ∀ d g, (d, g) ∈ produced cdRoot bin (scanOf ['A']) →
        sbCreatePath cdRoot '/' g = some (cdRoot.file '/' d.name) ∧
        bareStartup cdRoot.media d = some g.startup := by
  refine ⟨_, rfl, fun d g h => ?_⟩
  have hrun : Transition.run (step cdRoot) none [scanOf ['A']] = some _ := rfl
  obtain ⟨-, hall⟩ := cache_sound cdRoot '/' hrun (scanOf ['A'])
  obtain ⟨⟨hd, hpath⟩, hstartup⟩ := hall d g h
  obtain rfl := List.mem_singleton.mp hd
  exact ⟨hpath, (hstartup (by decide)).2 (by decide)⟩

end Games

end OpenPS2Loader
