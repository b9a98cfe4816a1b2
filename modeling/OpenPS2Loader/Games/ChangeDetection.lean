import OpenPS2Loader.Games.IsoScan

/-!
# When games.bin is written again

`updateISOGameList` compares the games of a scan with the cache to find out whether `games.bin` has
to be written. Its inner loop runs `j` through the cache, but looks at the entry with number `i` in
every turn: the lists are compared place by place, and when the cached list is the beginning of the
scanned one the entry behind the end of the cache is looked at. With no game left it ends before it
comes to the removal of the file.

What is compared of an entry is its file, a name and an extension. The entries that the loops look
at are kept beside the outcome.

## Main definitions

* `Games.innerLoop`, `Games.outerLoop` — the loops, with the entries they look at
* `Games.updateAction` — what is done with `games.bin`
* `Games.DetectsChange` — a call does what it is for

## Main results

* `Games.updateISOGameList_eq` — the loops decide what `updateISOGameList` does
* `Games.detectsChange_iff_agrees`, `Games.detectsChange_iff`
-/

namespace OpenPS2Loader

namespace Games

/-! ### The loops -/

/-- What is compared of an entry. -/
def fileKey (g : GameInfo) : Text × Text := (g.name, g.extension)

/-- The two lists have the same files, in any order. -/
def SameFiles (l l' : List GameInfo) : Prop :=
  l.map fileKey ⊆ l'.map fileKey ∧ l'.map fileKey ⊆ l.map fileKey

instance (l l' : List GameInfo) : Decidable (SameFiles l l') :=
  inferInstanceAs (Decidable (_ ∧ _))

theorem SameFiles.refl (l : List GameInfo) : SameFiles l l :=
  ⟨List.Subset.refl _, List.Subset.refl _⟩

theorem SameFiles.symm {l l' : List GameInfo} (h : SameFiles l l') : SameFiles l' l := ⟨h.2, h.1⟩

theorem sameFiles_of_keys_eq {l l' : List GameInfo} (h : l.map fileKey = l'.map fileKey) :
    SameFiles l l' := by
  rw [SameFiles, h]
  exact ⟨List.Subset.refl _, List.Subset.refl _⟩

theorem sameFiles_nil_iff {l : List GameInfo} : SameFiles l [] ↔ l = [] := by
  constructor
  · intro h
    exact List.map_eq_nil_iff.mp (List.subset_nil.mp h.1)
  · rintro rfl
    exact SameFiles.refl []

/-- The inner loop of `updateISOGameList` for the game with number `i`, with `k` turns left: it
stopped early, and the entries it looked at. -/
def innerLoop (e : ScanEnv) (cache : List GameInfo) (i : ℕ) (g : GameInfo) : ℕ → Bool × List ℕ
  | 0 => (false, [])
  | k + 1 =>
    let c := cache.getD i (e.garbage i)
    if c.name = g.name ∧ c.extension = g.extension then
      (true, [i])
    else
      let r := innerLoop e cache i g k
      (r.1, i :: r.2)

/-- The outer loop of `updateISOGameList` from the game with number `i`: a game was added, and the
entries it looked at. -/
def outerLoop (e : ScanEnv) (cache : List GameInfo) : ℕ → List GameInfo → Bool × List ℕ
  | _, [] => (false, [])
  | i, game :: games =>
    let found := innerLoop e cache i game cache.length
    if found.1 then
      let r := outerLoop e cache (i + 1) games
      (r.1, found.2 ++ r.2)
    else
      (true, found.2)

/-- The entries of the cache that a call looks at. -/
def cacheReads (e : ScanEnv) (cache : Option (List GameInfo)) (head : List GameInfo) (count : ℕ) :
    List ℕ :=
  match cache with
  | some c =>
    if !head.isEmpty && decide (0 < count) then (outerLoop e c 0 (head.take count)).2 else []
  | none => []

/-- What is done with `games.bin`. -/
inductive CacheAction
  | keep
  | write (games : List GameInfo)
  | remove
  deriving DecidableEq

/-- The `games.bin` that is left. -/
def CacheAction.apply (save : SaveOutcome) (bin : Option (List GameInfo)) :
    CacheAction → Option (List GameInfo)
  | .keep => bin
  | .write games =>
    match save with
    | .saved => some games
    | .unchanged => bin
    | .removed => none
  | .remove => none

/-- `modified` of `updateISOGameList` behind its loops. -/
def modified (e : ScanEnv) (cache : Option (List GameInfo)) (head : List GameInfo) (count : ℕ) :
    Bool :=
  match cache with
  | some c => !head.isEmpty && decide (0 < count) &&
      ((outerLoop e c 0 (head.take count)).1 || count != c.length)
  | none => !head.isEmpty && decide (0 < count)

/-- What `updateISOGameList` does with `games.bin`. -/
def updateAction (e : ScanEnv) (cache : Option (List GameInfo)) (head : List GameInfo)
    (count : ℕ) : CacheAction :=
  if modified e cache head count then
    if !head.isEmpty && decide (0 < count) then .write (head.take count) else .remove
  else
    .keep

theorem innerLoop_fst (e : ScanEnv) (cache : List GameInfo) (i : ℕ) (g : GameInfo) (k : ℕ) :
    (innerLoop e cache i g k).1 =
      (List.range k).any fun _ => (cache.getD i (e.garbage i)).name == g.name &&
        (cache.getD i (e.garbage i)).extension == g.extension := by
  induction k with
  | zero => rfl
  | succ k ih =>
    rw [innerLoop, List.range_succ, List.any_append]
    dsimp only
    generalize cache.getD i (e.garbage i) = c at ih ⊢
    split
    next h => simp [h.1, h.2]
    next h =>
      have hne : (c.name == g.name && c.extension == g.extension) = false := by
        simpa using h
      rw [ih]
      simp [hne]

theorem outerLoop_fst (e : ScanEnv) (cache : List GameInfo) (i : ℕ) (games : List GameInfo) :
    (outerLoop e cache i games).1 = (games.zipIdx i).any fun p => !foundAt e cache p.2 p.1 := by
  induction games generalizing i with
  | nil => rfl
  | cons game games ih =>
    have hfound : (innerLoop e cache i game cache.length).1 = foundAt e cache i game :=
      innerLoop_fst e cache i game cache.length
    rw [outerLoop, List.zipIdx_cons, List.any_cons, hfound]
    dsimp only
    split
    next h => simp [h, ih]
    next h => simp [h]

/-- The loops decide what `updateISOGameList` does. -/
theorem updateISOGameList_eq (e : ScanEnv) (cache : Option (List GameInfo)) (head : List GameInfo)
    (count : ℕ) (bin : Option (List GameInfo)) :
    updateISOGameList e cache head count bin =
      (updateAction e cache head count).apply e.save bin := by
  have hmodified : listModified e cache head count = modified e cache head count := by
    cases cache with
    | none => rfl
    | some c => rw [listModified, modified, outerLoop_fst]
  rw [updateISOGameList, updateAction, hmodified]
  split
  · split <;> rfl
  · rfl

/-! ### What the loops compare -/

theorem innerLoop_reads (e : ScanEnv) (cache : List GameInfo) (i : ℕ) (g : GameInfo) (k : ℕ) :
    ∀ r ∈ (innerLoop e cache i g k).2, r = i := by
  induction k with
  | zero =>
    intro r hr
    cases hr
  | succ k ih =>
    intro r hr
    rw [innerLoop] at hr
    dsimp only at hr
    split at hr
    next => exact List.mem_singleton.mp hr
    next =>
      obtain rfl | hr := List.mem_cons.mp hr
      · rfl
      · exact ih r hr

/-- A loop that takes a turn looks at its entry. -/
theorem mem_innerLoop_reads (e : ScanEnv) (cache : List GameInfo) (i : ℕ) (g : GameInfo) {k : ℕ}
    (hk : 0 < k) : i ∈ (innerLoop e cache i g k).2 := by
  obtain ⟨k, rfl⟩ := Nat.exists_eq_add_of_le' hk
  rw [innerLoop]
  dsimp only
  split
  · exact List.mem_cons_self
  · exact List.mem_cons_self

/-- A game is found when the entry with its number has its file. -/
theorem innerLoop_found_iff (e : ScanEnv) {cache : List GameInfo} {i : ℕ} (g : GameInfo)
    (hi : i < cache.length) :
    (innerLoop e cache i g cache.length).1 = true ↔ fileKey cache[i] = fileKey g := by
  have hget : cache.getD i (e.garbage i) = cache[i] := by
    rw [List.getD_eq_getElem?_getD, List.getElem?_eq_getElem hi, Option.getD_some]
  rw [innerLoop_fst, hget, List.any_eq_true, fileKey, fileKey, Prod.mk.injEq]
  constructor
  · rintro ⟨-, -, h⟩
    simpa using h
  · rintro ⟨hname, hext⟩
    exact ⟨0, List.mem_range.mpr (by omega), by simp [hname, hext]⟩

/-- The rest of the cache from a place in it. -/
theorem drop_keys_eq {cache : List GameInfo} {i : ℕ} (hi : i < cache.length) :
    (cache.drop i).map fileKey = fileKey cache[i] :: (cache.drop (i + 1)).map fileKey := by
  rw [List.drop_eq_getElem_cons hi, List.map_cons]

/-- Entries behind the cache are looked at when its files are the first of more files. -/
theorem outerLoop_reads_iff (e : ScanEnv) {cache : List GameInfo} (games : List GameInfo) {i : ℕ}
    (hi : i ≤ cache.length) (hcache : cache ≠ []) :
    (∀ r ∈ (outerLoop e cache i games).2, r < cache.length) ↔
      ((cache.drop i).map fileKey <+: games.map fileKey → games.length ≤ cache.length - i) := by
  have hpos : 0 < cache.length := List.length_pos_of_ne_nil hcache
  induction games generalizing i with
  | nil =>
    constructor
    · intro _ _
      exact Nat.zero_le _
    · intro _ r hr
      cases hr
  | cons game games ih =>
    rw [outerLoop]
    dsimp only
    obtain hlt | rfl := Nat.lt_or_eq_of_le hi
    · rw [drop_keys_eq hlt, List.map_cons, List.cons_prefix_cons, List.length_cons]
      have hreads : ∀ r ∈ (innerLoop e cache i game cache.length).2, r < cache.length := by
        intro r hr
        rw [innerLoop_reads e cache i game cache.length r hr]
        exact hlt
      split
      next hfound =>
        have hkey := (innerLoop_found_iff e game hlt).mp hfound
        have hrest := ih (i := i + 1) hlt
        constructor
        · intro h hpre
          have := hrest.mp (fun r hr => h r (List.mem_append_right _ hr)) hpre.2
          omega
        · intro h r hr
          obtain hr | hr := List.mem_append.mp hr
          · exact hreads r hr
          · refine hrest.mpr (fun hpre => ?_) r hr
            have := h ⟨hkey, hpre⟩
            omega
      next hfound =>
        constructor
        · rintro - ⟨hkey, -⟩
          exact absurd ((innerLoop_found_iff e game hlt).mpr hkey) hfound
        · intro _ r hr
          exact hreads r hr
    · have hmem : cache.length ∈ (innerLoop e cache cache.length game cache.length).2 :=
        mem_innerLoop_reads e cache cache.length game hpos
      constructor
      · intro h
        have hbad : cache.length < cache.length := by
          apply h
          split
          · exact List.mem_append_left _ hmem
          · exact hmem
        omega
      · intro h
        have hnil : (cache.drop cache.length).map fileKey = [] := by
          rw [List.drop_length, List.map_nil]
        have := h (by rw [hnil]; exact List.nil_prefix)
        rw [List.length_cons] at this
        omega

/-- Where only the cache is looked at, no game is added when the files are the next of the cache. -/
theorem outerLoop_added_iff (e : ScanEnv) {cache : List GameInfo} (games : List GameInfo) {i : ℕ}
    (hi : i ≤ cache.length)
    (hreads : ∀ r ∈ (outerLoop e cache i games).2, r < cache.length) :
    (outerLoop e cache i games).1 = false ↔ games.map fileKey <+: (cache.drop i).map fileKey := by
  induction games generalizing i with
  | nil => simp [outerLoop]
  | cons game games ih =>
    rw [outerLoop] at hreads ⊢
    dsimp only at hreads ⊢
    obtain hlt | rfl := Nat.lt_or_eq_of_le hi
    · rw [drop_keys_eq hlt, List.map_cons, List.cons_prefix_cons]
      split
      next hfound =>
        have hkey := (innerLoop_found_iff e game hlt).mp hfound
        rw [if_pos hfound] at hreads
        rw [ih hlt fun r hr => hreads r (List.mem_append_right _ hr)]
        simp [hkey]
      next hfound =>
        constructor
        · intro h
          cases h
        · rintro ⟨hkey, -⟩
          exact absurd ((innerLoop_found_iff e game hlt).mpr hkey.symm) hfound
    · rw [List.drop_length, List.map_nil, List.prefix_nil, List.map_cons]
      obtain hzero | hpos := Nat.eq_zero_or_pos cache.length
      · rw [hzero, innerLoop, if_neg (by simp)]
        simp
      · have hmem := mem_innerLoop_reads e cache cache.length game hpos
        have hbad : cache.length < cache.length := by
          apply hreads
          split
          · exact List.mem_append_left _ hmem
          · exact hmem
        omega

/-! ### A call -/

/-- **A call does what it is for.** The list has the games of the scan, and behind them those of
earlier scans. -/
structure DetectsChange (e : ScanEnv) (cache : Option (List GameInfo))
    (games older : List GameInfo) : Prop where
  /-- It looks at the cache only. -/
  reads_lt : ∀ r ∈ cacheReads e cache (games ++ older) games.length, r < (cache.getD []).length
  /-- It touches `games.bin` when the files are not those of the cache, and only then. -/
  touches_iff : updateAction e cache (games ++ older) games.length ≠ .keep ↔
    ¬SameFiles games (cache.getD [])
  /-- Games are written. -/
  writes : games ≠ [] → updateAction e cache (games ++ older) games.length ≠ .keep →
    updateAction e cache (games ++ older) games.length = .write games
  /-- Without a game left, the file goes. -/
  removes : games = [] → cache.getD [] ≠ [] →
    updateAction e cache (games ++ older) games.length = .remove

/-- The lists of files agree place by place, or they have other files, of which the first are not
all those of the cache. -/
def Comparable (cache games : List GameInfo) : Prop :=
  cache.map fileKey = games.map fileKey ∨
    ¬SameFiles games cache ∧ games ≠ [] ∧
      (cache = [] ∨ ¬cache.map fileKey <+: games.map fileKey)

instance (cache games : List GameInfo) : Decidable (Comparable cache games) :=
  inferInstanceAs (Decidable (_ ∨ _))

theorem present_of_ne_nil {games older : List GameInfo} (hgames : games ≠ []) :
    (!(games ++ older).isEmpty && decide (0 < games.length)) = true := by
  simp [hgames, List.length_pos_of_ne_nil hgames]

theorem updateAction_of_modified (e : ScanEnv) (cache : Option (List GameInfo))
    (older : List GameInfo) {games : List GameInfo} (hgames : games ≠ []) :
    updateAction e cache (games ++ older) games.length =
      if modified e cache (games ++ older) games.length then .write games else .keep := by
  rw [updateAction, if_pos (present_of_ne_nil hgames), List.take_left]

theorem updateAction_nil (e : ScanEnv) (cache : Option (List GameInfo)) (older : List GameInfo) :
    updateAction e cache ([] ++ older) 0 = .keep := by
  have hmodified : modified e cache ([] ++ older) 0 = false := by
    cases cache with
    | none => simp [modified]
    | some c => simp [modified]
  rw [updateAction, if_neg (by rw [hmodified]; exact Bool.false_ne_true)]

/-- A call that looks at the cache only compares the lists place by place. -/
theorem modified_iff {e : ScanEnv} {cache games : List GameInfo} (older : List GameInfo)
    (hgames : games ≠ [])
    (hreads : ∀ r ∈ (outerLoop e cache 0 games).2, r < cache.length) :
    modified e (some cache) (games ++ older) games.length = true ↔
      cache.map fileKey ≠ games.map fileKey := by
  have hadded := outerLoop_added_iff e games (Nat.zero_le _) hreads
  rw [List.drop_zero] at hadded
  rw [modified, present_of_ne_nil hgames, List.take_left, Bool.true_and, Bool.or_eq_true,
    bne_iff_ne]
  constructor
  · rintro (h | h) heq
    · rw [hadded.mpr (heq ▸ List.prefix_refl _)] at h
      cases h
    · have := congrArg List.length heq
      rw [List.length_map, List.length_map] at this
      exact h this.symm
  · intro hne
    by_contra hnot
    obtain ⟨hnone, hlen⟩ := not_or.mp hnot
    have hpre := hadded.mp (Bool.eq_false_iff.mpr hnone)
    refine hne (hpre.eq_of_length ?_).symm
    rw [List.length_map, List.length_map]
    exact not_not.mp hlen

theorem cacheReads_some {e : ScanEnv} {cache games older : List GameInfo} (hgames : games ≠ []) :
    cacheReads e (some cache) (games ++ older) games.length = (outerLoop e cache 0 games).2 := by
  rw [cacheReads, if_pos (present_of_ne_nil hgames), List.take_left]

/-- Only the cache is looked at, unless its files are the first of more files. -/
theorem outerLoop_zero_reads_iff (e : ScanEnv) (cache games : List GameInfo) :
    (∀ r ∈ (outerLoop e cache 0 games).2, r < cache.length) ↔
      (cache = [] ∨ (cache.map fileKey <+: games.map fileKey → games.length ≤ cache.length)) := by
  by_cases hcache : cache = []
  · constructor
    · intro _
      exact .inl hcache
    · intro _ r hr
      subst hcache
      cases games with
      | nil => cases hr
      | cons game games => cases hr
  · rw [outerLoop_reads_iff e games (Nat.zero_le _) hcache, List.drop_zero, Nat.sub_zero]
    simp [hcache]

/-- **The comparison of a call.** With a cache, it does what it is for when the lists can be
compared place by place. -/
theorem detectsChange_iff_comparable (e : ScanEnv) (cache games older : List GameInfo) :
    DetectsChange e (some cache) games older ↔ Comparable cache games := by
  by_cases hgames : games = []
  · subst hgames
    constructor
    · intro h
      have hsame : SameFiles [] cache := by
        by_contra hother
        exact h.touches_iff.mpr hother (updateAction_nil e (some cache) older)
      rw [sameFiles_nil_iff.mp hsame.symm]
      exact .inl rfl
    · intro h
      have hcache : cache = [] := by
        obtain h | ⟨-, hne, -⟩ := h
        · exact List.map_eq_nil_iff.mp h
        · exact absurd rfl hne
      subst hcache
      refine ⟨?_, ?_, fun hne => absurd rfl hne, fun _ hne => absurd rfl hne⟩
      · intro r hr
        rw [cacheReads] at hr
        simp at hr
      · rw [List.length_nil, updateAction_nil]
        simp [SameFiles.refl]
  · have haction := updateAction_of_modified e (some cache) older hgames
    constructor
    · intro h
      have hreads := h.reads_lt
      rw [cacheReads_some hgames, Option.getD_some] at hreads
      by_cases hkeys : cache.map fileKey = games.map fileKey
      · exact .inl hkeys
      have hmodified := (modified_iff older hgames hreads).mpr hkeys
      rw [if_pos hmodified] at haction
      refine .inr ⟨h.touches_iff.mp (by rw [haction]; exact CacheAction.noConfusion), hgames, ?_⟩
      obtain hcache | hprefix := (outerLoop_zero_reads_iff e cache games).mp hreads
      · exact .inl hcache
      · refine .inr fun hpre => hkeys (hpre.eq_of_length_le ?_)
        rw [List.length_map, List.length_map]
        exact hprefix hpre
    · intro h
      have hreads : ∀ r ∈ (outerLoop e cache 0 games).2, r < cache.length := by
        refine (outerLoop_zero_reads_iff e cache games).mpr ?_
        obtain hkeys | ⟨-, -, hcache | hprefix⟩ := h
        · have := congrArg List.length hkeys
          rw [List.length_map, List.length_map] at this
          exact .inr fun _ => this.ge
        · exact .inl hcache
        · exact .inr fun hpre => absurd hpre hprefix
      have hmodified := modified_iff older hgames hreads
      refine ⟨?_, ?_, fun _ htouched => ?_, fun hnil => absurd hnil hgames⟩
      · rw [cacheReads_some hgames]
        exact hreads
      · rw [haction, Option.getD_some]
        obtain hkeys | ⟨hother, -⟩ := h
        · rw [if_neg (fun hm => hmodified.mp hm hkeys)]
          simp [sameFiles_of_keys_eq hkeys.symm]
        · rw [if_pos (hmodified.mpr fun hkeys => hother (sameFiles_of_keys_eq hkeys.symm))]
          simp [hother]
      · rw [haction] at htouched ⊢
        split at htouched
        next hm => rw [if_pos hm]
        next => exact absurd rfl htouched

/-- Without a cache, the games are written when there are some. -/
theorem detectsChange_none (e : ScanEnv) (games older : List GameInfo) :
    DetectsChange e none games older := by
  by_cases hgames : games = []
  · subst hgames
    refine ⟨?_, ?_, fun hne => absurd rfl hne, fun _ hne => absurd rfl hne⟩
    · intro r hr
      cases hr
    · rw [List.length_nil, updateAction_nil]
      simp [SameFiles.refl]
  · have hmodified : modified e none (games ++ older) games.length = true := by
      simp [modified, hgames, List.length_pos_of_ne_nil hgames]
    have haction := updateAction_of_modified e none older hgames
    rw [if_pos hmodified] at haction
    refine ⟨?_, ?_, fun _ _ => haction, fun hnil => absurd hnil hgames⟩
    · intro r hr
      cases hr
    · rw [haction, Option.getD_none, sameFiles_nil_iff]
      simp [hgames]

/-- When a call does what it is for. -/
def CallOk (cache : Option (List GameInfo)) (games : List GameInfo) : Prop :=
  ∀ c ∈ cache, Comparable c games

instance (cache : Option (List GameInfo)) (games : List GameInfo) :
    Decidable (CallOk cache games) :=
  inferInstanceAs (Decidable (∀ c ∈ cache, Comparable c games))

theorem detectsChange_iff_callOk (e : ScanEnv) (cache : Option (List GameInfo))
    (games older : List GameInfo) : DetectsChange e cache games older ↔ CallOk cache games := by
  cases cache with
  | none => simp [detectsChange_none, CallOk]
  | some c => simp [detectsChange_iff_comparable, CallOk]

/-! ### Histories of scans -/

/-- The directory was read. -/
def Scan.succeeds (p : Place) (s : Scan) : Bool := s.dir.isSome && decide (p.path.length < 255)

/-- The games that a scan lists. -/
def listed (p : Place) (bin : Option (List GameInfo)) (s : Scan) : List GameInfo :=
  ((produced p bin s).map Prod.snd).reverse

/-- `games.bin`, and the games of the last scan that read the directory. -/
structure History where
  bin : Option (List GameInfo)
  last : List GameInfo

/-- The step of a history. -/
def historyStep (p : Place) (h : History) (s : Scan) : Option History :=
  some ⟨(p.scan h.bin s).2.2.2, if s.succeeds p then listed p h.bin s else h.last⟩

/-- The scan finds what it has to write, `games.bin` can be written, and it can be read when there
is nothing to write. -/
def ScanOk (p : Place) (h : History) (s : Scan) : Prop :=
  s.succeeds p = true →
    CallOk (loadISOGameListCache s.env h.bin) (listed p h.bin s) ∧
      (SameFiles (listed p h.bin s) ((loadISOGameListCache s.env h.bin).getD []) ∨
        s.env.save = .saved) ∧
      (s.env.loadOk = true ∨ h.bin.getD [] = [] ∨ listed p h.bin s ≠ [])

instance (p : Place) (h : History) (s : Scan) : Decidable (ScanOk p h s) :=
  inferInstanceAs (Decidable (_ → _ ∧ (_ ∨ _) ∧ _))

/-- What a scan does with `games.bin`. -/
theorem scan_bin_eq (p : Place) (bin : Option (List GameInfo)) (s : Scan) :
    (p.scan bin s).2.2.2 =
      if s.succeeds p then
        (updateAction s.env (loadISOGameListCache s.env bin) (listed p bin s ++ s.glist)
          (listed p bin s).length).apply s.env.save bin
      else
        bin := by
  rw [Place.scan, scanForISO.eq_def, listed, produced, Scan.rows, Scan.succeeds]
  cases s.dir with
  | none => rfl
  | some rows =>
    dsimp only
    by_cases hlong : 255 ≤ p.path.length
    · rw [if_pos hlong, if_neg (by simp; omega)]
    · obtain ⟨hglist, hcount⟩ := scanLoop_eq p.path.length p.media
        (loadISOGameListCache s.env bin) rows ⟨s.glist, s.folderlist, 0⟩
      rw [if_neg hlong, if_neg hlong, if_pos (by simp; omega), hglist, hcount,
        updateISOGameList_eq, Option.getD_some, List.length_reverse, List.length_map, Nat.zero_add]

theorem loaded_getD {e : ScanEnv} {bin : Option (List GameInfo)}
    (hload : e.loadOk = true ∨ bin.getD [] = []) :
    (loadISOGameListCache e bin).getD [] = bin.getD [] := by
  cases bin with
  | none => simp [loadISOGameListCache]
  | some c =>
    rw [loadISOGameListCache]
    by_cases hc : c = []
    · subst hc
      split <;> rfl
    · have hload : e.loadOk = true := hload.resolve_right hc
      rw [if_pos hload, Option.filter_some, if_pos (by simp [hc])]

/-- **The step lemma.** -/
theorem sameFiles_of_step {p : Place} {h h' : History} {s : Scan}
    (hinv : SameFiles h.last (h.bin.getD [])) (hok : ScanOk p h s)
    (hstep : historyStep p h s = some h') : SameFiles h'.last (h'.bin.getD []) := by
  obtain rfl := Option.some.inj hstep
  dsimp only
  rw [scan_bin_eq]
  by_cases hsucc : s.succeeds p = true
  · rw [if_pos hsucc, if_pos hsucc]
    obtain ⟨hcall, hsave, hload⟩ := hok hsucc
    have hdetects := (detectsChange_iff_callOk s.env _ _ s.glist).mpr hcall
    by_cases hkeep : updateAction s.env (loadISOGameListCache s.env h.bin)
        (listed p h.bin s ++ s.glist) (listed p h.bin s).length = .keep
    · have hsame : SameFiles (listed p h.bin s)
          ((loadISOGameListCache s.env h.bin).getD []) := by
        by_contra hother
        exact hdetects.touches_iff.mpr hother hkeep
      have hread : s.env.loadOk = true ∨ h.bin.getD [] = [] := by
        obtain hload | hempty | hgames := hload
        · exact .inl hload
        · exact .inr hempty
        · by_contra hnot
          have hnone : loadISOGameListCache s.env h.bin = none := by
            rw [loadISOGameListCache, if_neg fun hload => hnot (.inl hload)]
          rw [hnone] at hsame
          exact hgames (sameFiles_nil_iff.mp hsame)
      rwa [hkeep, CacheAction.apply, ← loaded_getD hread]
    · have hgames : listed p h.bin s ≠ [] := by
        intro hnil
        rw [hnil] at hkeep
        exact hkeep (updateAction_nil s.env _ s.glist)
      rw [hdetects.writes hgames hkeep, hsave.resolve_left (hdetects.touches_iff.mp hkeep)]
      exact SameFiles.refl _
  · rw [if_neg hsucc, if_neg hsucc]
    exact hinv

/-- **When the changes of a directory are found.** A call looks at the cache only, writes
`games.bin` when the files of the scan are not those of the cache, and removes it when none is left,
if and only if there is no cache, or the two lists of files agree place by place, or they have
other files, some game is left, and the cached files are not the first of the scanned ones. When
all scans that read the directory are such, what is to be written can be written, and what is not
written again could be read, `games.bin` has the files of the last of them. -/
theorem detectsChange_iff (e : ScanEnv) (cache : Option (List GameInfo))
    (games older : List GameInfo) :
    (DetectsChange e cache games older ↔ CallOk cache games) ∧
    ∀ (p : Place) (bin : Option (List GameInfo)) (scans : List Scan) (h : History),
      Transition.RunOk (historyStep p) (ScanOk p) ⟨bin, bin.getD []⟩ scans →
      Transition.run (historyStep p) ⟨bin, bin.getD []⟩ scans = some h →
      SameFiles h.last (h.bin.getD []) := by
  refine ⟨detectsChange_iff_callOk e cache games older, ?_⟩
  intro p bin scans h hok hrun
  exact Transition.run_invariant_of_runOk (P := fun h => SameFiles h.last (h.bin.getD []))
    (fun _ _ _ hinv hok hstep => sameFiles_of_step hinv hok hstep) (SameFiles.refl _) hok hrun

/-- An image of a directory, that boots the file "A". -/
def anImage (name : Text) : DirEntry := ⟨name, false, some ['c', 'd', ':', '\\', 'A'], true⟩

/-- A scan of a directory with these rows. -/
def scanRows (rows : List DirEntry) : Scan where
  env := ⟨true, fun _ => ⟨[], [], [], 0, 0, .usbld, 0⟩, .saved⟩
  dir := some rows
  glist := []
  folderlist := none

/-- A directory that loses one of two images, and then gets another one. -/
def threeScans : List Scan :=
  [scanRows [anImage ['G', '.', 'i', 's', 'o'], anImage ['H', '.', 'i', 's', 'o']],
    scanRows [anImage ['G', '.', 'i', 's', 'o']],
    scanRows [anImage ['G', '.', 'i', 's', 'o'], anImage ['I', '.', 'i', 's', 'o']]]

theorem detectsChange_threeScans :
    ∃ h, Transition.run (historyStep cdRoot) ⟨none, []⟩ threeScans = some h ∧
      h.last.map fileKey = [(['I'], ['.', 'i', 's', 'o']), (['G'], ['.', 'i', 's', 'o'])] ∧
      SameFiles h.last (h.bin.getD []) :=
  ⟨_, rfl, rfl,
    (detectsChange_iff (scanRows []).env none [] []).2 cdRoot none threeScans _ (by decide) rfl⟩

/-- When the last image of a directory goes, its entry stays in `games.bin`. When an image is added
that the directory lists first, the entry behind the end of the cache is looked at. -/
theorem not_detectsChange_emptied :
    (∃ h, Transition.run (historyStep cdRoot) ⟨none, []⟩
        [scanRows [anImage ['G', '.', 'i', 's', 'o']], scanRows []] = some h ∧
      ¬SameFiles h.last (h.bin.getD [])) ∧
    (∃ bin, (cdRoot.scan none (scanRows [anImage ['G', '.', 'i', 's', 'o']])).2.2.2 = some bin ∧
      bin.length = 1 ∧
      1 ∈ cacheReads (scanRows []).env (some bin)
        (listed cdRoot bin (scanRows [anImage ['H', '.', 'i', 's', 'o'],
          anImage ['G', '.', 'i', 's', 'o']])) 2) := by
  refine ⟨⟨_, rfl, ?_⟩, _, rfl, rfl, ?_⟩
  · decide
  · decide

end Games

end OpenPS2Loader
