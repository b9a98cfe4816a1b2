import OpenPS2Loader.Config.Syntax
import OpenPS2Loader.Lib.LinkedList
import OpenPS2Loader.Lib.Transition

/-!
# Config sets as linked nodes

The operations on a config set follow the pointers of its nodes, from `head` on and over `tail`.
Here they are carried out on linked nodes, they are compared with the operations on lists of
`Config.Set`, and what every sequence of them keeps is collected.

A name of 32 or more characters is stored cut to 31 and is not found again under its full length,
so that every store of it adds a node. Sequences whose names are shorter keep the keys distinct.

## Main definitions

* `SetHeap` — a set of linked nodes, with the operations of `config.c`
* `Op`, `SetHeap.step` — the operations, and carrying one out
* `Op.ShortKeys` — an operation whose names have at most 31 characters
* `SetHeap.WellFormed`, `SetHeap.KeysDistinct`, `SetHeap.StoreLaw` — what is kept

## Main results

* `SetHeap.Sim` and `SetHeap.sim_configSetStr`, ... — the linked nodes carry out the operations on
  lists
* `SetHeap.run_representation` — what every sequence of operations keeps
-/

namespace OpenPS2Loader

namespace Config

/-- A `config_set_t`. -/
structure SetHeap where
  nodes : LinkedList ConfigValue
  modified : Bool
  format : Format

namespace SetHeap

/-! ### The operations -/

/-- `configAlloc`. -/
def configAlloc : SetHeap := ⟨.empty, false, .legacy⟩

/-- `getConfigItemForName`: the address of the node. There is no result when a pointer leads
nowhere. -/
def getConfigItemForName (s : SetHeap) (name : Text) : Option (Option ℕ) :=
  s.nodes.find (ConfigValue.named name)

/-- `addConfigValue`. -/
def addConfigValue (s : SetHeap) (key val : Text) : Option SetHeap :=
  (s.nodes.pushBack (allocConfigItem key val)).map fun nodes => { s with nodes := nodes }

/-- `configSetStr`. -/
def configSetStr (s : SetHeap) (key value : Text) : Option SetHeap :=
  if configKeyValidate key then do
    match ← s.getConfigItemForName key with
    | some a =>
      let it ← s.nodes.cells a
      if strncmpEq 256 it.data.val.text value then pure s
      else
        let nodes ← s.nodes.setData a { it.data with val := .strncpy value }
        pure { s with
          nodes := nodes
          modified := s.modified || !isRuntimeKey it.data.key.text }
    | none =>
      let s ← s.addConfigValue key value
      pure { s with modified := s.modified || !isRuntimeKey key }
  else some s

/-- `configGetStr`: the value, if the key is found. -/
def configGetStr (s : SetHeap) (key : Text) : Option (Option Text) :=
  if configKeyValidate key then do
    match ← s.getConfigItemForName key with
    | some a =>
      let it ← s.nodes.cells a
      pure (some it.data.val.text)
    | none => pure none
  else some none

/-- `configSetInt`. -/
def configSetInt (s : SetHeap) (key : Text) (value : Int32) : Option SetHeap :=
  s.configSetStr key (printInt value)

/-- `configRemoveKey`: one pass takes out every node that answers to the name. -/
def configRemoveKey (s : SetHeap) (key : Text) : Option SetHeap :=
  if configKeyValidate key then do
    let found ← s.getConfigItemForName key
    let nodes ← s.nodes.remove (ConfigValue.named key)
    pure { s with nodes := nodes, modified := s.modified || (found.isSome && !isRuntimeKey key) }
  else some s

/-- `configMerge` with a source whose nodes are `source`. -/
def configMerge (s : SetHeap) (source : List ConfigValue) : Option SetHeap :=
  source.foldlM (fun s it => s.configSetStr it.key.text it.val.text) s

/-- `configClear`. -/
def configClear (s : SetHeap) : Option SetHeap :=
  s.nodes.clear.map fun nodes => { s with nodes := nodes, modified := true }

instance : ConfigStore (Option SetHeap) where
  setStr s key val := s.bind fun s => s.configSetStr key val
  setFormat s format := s.map fun s => { s with format := format }
  clearModified s := s.map fun s => { s with modified := false }

end SetHeap

/-- A call on a config set. -/
inductive Op where
  | setStr (key value : Text)
  | setInt (key : Text) (value : Int32)
  | removeKey (key : Text)
  | merge (source : List ConfigValue)
  | clear
  /-- `configReadFileBuffer` -/
  | read (fb : FileBuffer)

/-- Carrying out a call. There is no result when a pointer leads nowhere, or when the file buffer
does not deliver its lines. -/
def SetHeap.step (s : SetHeap) : Op → Option SetHeap
  | .setStr key value => s.configSetStr key value
  | .setInt key value => s.configSetInt key value
  | .removeKey key => s.configRemoveKey key
  | .merge source => s.configMerge source
  | .clear => s.configClear
  | .read fb => (configReadFileBuffer fb (some s)).join

/-! ### The linked nodes carry out the operations on lists -/

namespace SetHeap

/-- The linked nodes are the nodes of the list, in this order. -/
def Sim (s : SetHeap) (t : ConfigSet) : Prop :=
  ∃ ns, s.nodes.Rep ns ∧ ns.map Prod.snd = t.items ∧ s.modified = t.modified ∧ s.format = t.format

theorem sim_configAlloc : Sim configAlloc Config.configAlloc :=
  ⟨[], LinkedList.rep_empty, rfl, rfl, rfl⟩

theorem overwrite_append {name value : Text} {pre post : List ConfigValue} {it : ConfigValue}
    (hpre : ∀ x ∈ pre, x.named name = false) (hit : it.named name = true) :
    overwrite name value (pre ++ it :: post) =
      pre ++ { it with val := .strncpy value } :: post := by
  induction pre with
  | nil => rw [List.nil_append, overwrite, if_pos hit, List.nil_append]
  | cons x pre ih =>
    rw [List.cons_append, overwrite, hpre x List.mem_cons_self, if_neg Bool.false_ne_true,
      ih fun y hy => hpre y (List.mem_cons_of_mem x hy), List.cons_append]

/-- A name is found at the node where the list has it first. -/
theorem getConfigItemForName_of_rep {s : SetHeap} {ns : List (ℕ × ConfigValue)}
    (h : s.nodes.Rep ns) (name : Text) :
    (s.getConfigItemForName name = some none ∧
        (ns.map Prod.snd).find? (ConfigValue.named name) = none) ∨
      ∃ pre a it post next, ns = pre ++ (a, it) :: post ∧
        (∀ x ∈ pre.map Prod.snd, x.named name = false) ∧ it.named name = true ∧
        s.getConfigItemForName name = some (some a) ∧ s.nodes.cells a = some ⟨it, next⟩ ∧
        (ns.map Prod.snd).find? (ConfigValue.named name) = some it := by
  have hfind := LinkedList.find_of_rep h (ConfigValue.named name)
  rw [List.find?_map]
  rcases hns : ns.find? fun n => n.2.named name with _ | ⟨a, it⟩
  · rw [hns] at hfind
    exact .inl ⟨hfind, by rw [show (ConfigValue.named name ∘ Prod.snd) = fun n : ℕ × ConfigValue =>
      n.2.named name from rfl, hns]; rfl⟩
  · rw [hns] at hfind
    obtain ⟨hit, pre, post, hsplit, hpre⟩ := List.find?_eq_some_iff_append.mp hns
    subst hsplit
    obtain ⟨next, hcell, -⟩ := h.cell
    refine .inr ⟨pre, a, it, post, next, rfl, ?_, hit, hfind, hcell, ?_⟩
    · intro x hx
      obtain ⟨n, hn, rfl⟩ := List.mem_map.mp hx
      simpa using hpre n hn
    · rw [show (ConfigValue.named name ∘ Prod.snd) = fun n : ℕ × ConfigValue => n.2.named name
        from rfl, hns]
      rfl

theorem sim_configSetStr {s : SetHeap} {t : ConfigSet} (h : Sim s t) (key value : Text) :
    ∃ s', s.configSetStr key value = some s' ∧ Sim s' (Config.configSetStr t key value) := by
  obtain ⟨ns, hrep, hitems, hmod, hfmt⟩ := h
  rw [configSetStr, Config.configSetStr, Config.getConfigItemForName, ← hitems]
  split_ifs
  · rcases getConfigItemForName_of_rep hrep key with
      ⟨hfind, hnone⟩ | ⟨pre, a, it, post, next, rfl, hpre, hit, hfind, hcell, hsome⟩
    · obtain ⟨nodes, hpush, hrep'⟩ := LinkedList.pushBack_of_rep hrep (allocConfigItem key value)
      refine ⟨{ s with nodes := nodes, modified := s.modified || !isRuntimeKey key }, ?_, ?_⟩
      · simp only [hfind, Option.bind_eq_bind, Option.bind_some, addConfigValue, hpush,
          Option.map_some]
        rfl
      · rw [hnone]
        exact ⟨_, hrep', by simp, by simp [hmod], hfmt⟩
    · rw [hsome]
      by_cases heq : strncmpEq 256 it.val.text value
      · refine ⟨s, ?_, ?_⟩
        · simp only [hfind, Option.bind_eq_bind, Option.bind_some, hcell, if_pos heq]
          rfl
        · simp only [if_pos heq]
          exact ⟨_, hrep, hitems, hmod, hfmt⟩
      · obtain ⟨nodes, hset, hrep'⟩ :=
          LinkedList.setData_of_rep hrep { it with val := .strncpy value }
        refine ⟨{ s with nodes := nodes, modified := s.modified || !isRuntimeKey it.key.text },
          ?_, ?_⟩
        · simp only [hfind, Option.bind_eq_bind, Option.bind_some, hcell, if_neg heq, hset]
          rfl
        · simp only [if_neg heq]
          refine ⟨_, hrep', ?_, by rw [hmod], hfmt⟩
          rw [List.map_append, List.map_cons, List.map_append, List.map_cons,
            overwrite_append hpre hit]
  · exact ⟨s, rfl, ns, hrep, hitems, hmod, hfmt⟩

theorem configGetStr_of_sim {s : SetHeap} {t : ConfigSet} (h : Sim s t) (key : Text) :
    s.configGetStr key = some (Config.configGetStr t key) := by
  obtain ⟨ns, hrep, hitems, -, -⟩ := h
  rw [configGetStr, Config.configGetStr, Config.getConfigItemForName, ← hitems]
  split_ifs
  · rcases getConfigItemForName_of_rep hrep key with
      ⟨hfind, hnone⟩ | ⟨pre, a, it, post, next, -, -, -, hfind, hcell, hsome⟩
    · rw [hfind, hnone]
      rfl
    · simp only [hfind, Option.bind_eq_bind, Option.bind_some, hcell, hsome]
      rfl
  · rfl

theorem sim_configRemoveKey {s : SetHeap} {t : ConfigSet} (h : Sim s t) (key : Text) :
    ∃ s', s.configRemoveKey key = some s' ∧ Sim s' (Config.configRemoveKey t key) := by
  obtain ⟨ns, hrep, hitems, hmod, hfmt⟩ := h
  rw [configRemoveKey, Config.configRemoveKey, ← hitems]
  split_ifs
  · obtain ⟨nodes, hremove, hrep'⟩ := LinkedList.remove_of_rep hrep (ConfigValue.named key)
    have hfound : s.getConfigItemForName key =
        some ((ns.find? fun n => n.2.named key).map Prod.fst) :=
      LinkedList.find_of_rep hrep (ConfigValue.named key)
    refine ⟨{ s with
        nodes := nodes
        modified := s.modified ||
          (((ns.find? fun n => n.2.named key).map Prod.fst).isSome && !isRuntimeKey key) },
      ?_, _, hrep', ?_, ?_, hfmt⟩
    · simp only [hfound, hremove, Option.bind_eq_bind, Option.bind_some]
      rfl
    · rw [List.filter_map]
      rfl
    · have hany : (ns.map Prod.snd).any (ConfigValue.named key) =
          ((ns.find? fun n => n.2.named key).map Prod.fst).isSome := by
        rw [Option.isSome_map, List.any_map, Bool.eq_iff_iff, List.find?_isSome, List.any_eq_true]
        rfl
      dsimp only
      rw [hany, hmod]
  · exact ⟨s, rfl, ns, hrep, hitems, hmod, hfmt⟩

theorem sim_configMerge {s : SetHeap} {t : ConfigSet} (h : Sim s t) (source : List ConfigValue) :
    ∃ s', s.configMerge source = some s' ∧ Sim s' (Config.configMerge t source) := by
  induction source generalizing s t with
  | nil => exact ⟨s, rfl, h⟩
  | cons it source ih =>
    obtain ⟨s₁, hs₁, h₁⟩ := sim_configSetStr h it.key.text it.val.text
    obtain ⟨s₂, hs₂, h₂⟩ := ih h₁
    refine ⟨s₂, ?_, h₂⟩
    rw [configMerge, List.foldlM_cons, hs₁]
    exact hs₂

theorem sim_configClear {s : SetHeap} {t : ConfigSet} (h : Sim s t) :
    ∃ s', s.configClear = some s' ∧ Sim s' (Config.configClear t) := by
  obtain ⟨ns, hrep, -, -, hfmt⟩ := h
  obtain ⟨nodes, hclear, hrep'⟩ := LinkedList.clear_of_rep hrep
  exact ⟨{ s with nodes := nodes, modified := true }, by rw [configClear, hclear]; rfl,
    [], hrep', rfl, rfl, hfmt⟩

theorem sim_readLines {s : SetHeap} {t : ConfigSet} (h : Sim s t) (ls : List Text) :
    ∃ s', readLines (some s) ls = some s' ∧ Sim s' (readLines t ls) := by
  refine readLines_rel (R := fun (s : Option SetHeap) t => ∃ s', s = some s' ∧ Sim s' t)
    ?_ ?_ ?_ ⟨s, rfl, h⟩ ls
  · rintro _ t key val ⟨s, rfl, h⟩
    exact sim_configSetStr h key val
  · rintro _ t format ⟨s, rfl, ns, hrep, hitems, hmod, -⟩
    exact ⟨_, rfl, ns, hrep, hitems, hmod, rfl⟩
  · rintro _ t ⟨s, rfl, ns, hrep, hitems, -, hfmt⟩
    exact ⟨_, rfl, ns, hrep, hitems, rfl, hfmt⟩

end SetHeap

/-! ### Names of at most 31 characters -/

/-- A log of the assignments that a file makes. -/
instance : ConfigStore (List (Text × Text)) where
  setStr log key val := log ++ [(key, val)]
  setFormat log _ := log
  clearModified log := log

/-- The names a file assigns, prefix or group included, with their values. -/
def assignments (fb : FileBuffer) : Option (List (Text × Text)) := configReadFileBuffer fb []

/-- The names of the call have at most 31 characters. The nodes of the source of a merge have such
names anyway; of a file, the names it assigns count. -/
def Op.ShortKeys : Op → Prop
  | .setStr key _ => ShortName key
  | .setInt key _ => ShortName key
  | .removeKey _ => True
  | .merge _ => True
  | .clear => True
  | .read fb => ∃ log, assignments fb = some log ∧ ∀ x ∈ log, ShortName x.1

theorem keysDistinct_readLines {s : ConfigSet} (hs : KeysDistinct s) {ls : List Text}
    (h : ∀ x ∈ readLines ([] : List (Text × Text)) ls, ShortName x.1) :
    KeysDistinct (readLines s ls) := by
  -- the keys are distinct as long as the names in the log are short
  refine readLines_rel
    (R := fun (s : ConfigSet) (log : List (Text × Text)) =>
      (∀ x ∈ log, ShortName x.1) → KeysDistinct s)
    ?_ (fun _ _ _ h => h) (fun _ _ h => h) (fun _ => hs) ls h
  intro s log key val hs hlog
  refine keysDistinct_configSetStr (hs fun x hx => hlog x (List.mem_append_left _ hx)) ?_ val
  exact hlog (key, val) (List.mem_append_right log List.mem_cons_self)

namespace SetHeap

/-- The nodes are a list from `head` on, without repetition, `tail` points to the last of them, and
the two pointers are null together. -/
def WellFormed (s : SetHeap) : Prop :=
  (∃ ns, s.nodes.Rep ns) ∧ (s.nodes.head = none ↔ s.nodes.tail = none)

/-- No two nodes have the same stored key. -/
def KeysDistinct (s : SetHeap) : Prop :=
  ∀ ns, s.nodes.Rep ns → (ns.map fun n => n.2.key).Nodup

/-- A value of at most 255 characters that is stored under the name `key` is read back under it, and
what is read under a name that is stored differently does not change. -/
def StoreLaw (s : SetHeap) (key value : Text) : Prop :=
  ∃ s', s.configSetStr key value = some s' ∧ s'.configGetStr key = some (some (cstr value)) ∧
    ∀ other, (cstr other).take 31 ≠ (cstr key).take 31 →
      s'.configGetStr other = s.configGetStr other

theorem step_sim {s : SetHeap} {t : ConfigSet} (h : Sim s t) (ht : Config.KeysDistinct t) {op : Op}
    (hop : op.ShortKeys) :
    ∃ s', s.step op = some s' ∧ ∃ t', Sim s' t' ∧ Config.KeysDistinct t' := by
  cases op with
  | setStr key value =>
    obtain ⟨s', hs', h'⟩ := sim_configSetStr h key value
    exact ⟨s', hs', _, h', keysDistinct_configSetStr ht hop value⟩
  | setInt key value =>
    obtain ⟨s', hs', h'⟩ := sim_configSetStr h key (printInt value)
    exact ⟨s', hs', _, h', keysDistinct_configSetStr ht hop _⟩
  | removeKey key =>
    obtain ⟨s', hs', h'⟩ := sim_configRemoveKey h key
    exact ⟨s', hs', _, h', keysDistinct_configRemoveKey ht key⟩
  | merge source =>
    obtain ⟨s', hs', h'⟩ := sim_configMerge h source
    exact ⟨s', hs', _, h', keysDistinct_configMerge ht source⟩
  | clear =>
    obtain ⟨s', hs', h'⟩ := sim_configClear h
    exact ⟨s', hs', _, h', List.nodup_nil⟩
  | read fb =>
    obtain ⟨log, hlog, hshort⟩ := hop
    rw [assignments, configReadFileBuffer] at hlog
    obtain ⟨ls, hls, rfl⟩ := Option.map_eq_some_iff.mp hlog
    obtain ⟨s', hs', h'⟩ := sim_readLines h ls
    refine ⟨s', ?_, _, h', keysDistinct_readLines ht hshort⟩
    rw [step, configReadFileBuffer, hls, Option.map_some, hs']
    rfl

/-- **What every sequence of calls keeps.** Start from an empty set, and make any calls whose names
have at most 31 characters. No call follows a pointer to nowhere; the list is well formed; no two
nodes have the same stored key; and a value stored under a name of at most 31 characters is read
back, while other names read what they read before. -/
theorem run_representation (ops : List Op) (h : ∀ op ∈ ops, op.ShortKeys) :
    ∃ s, Transition.run step configAlloc ops = some s ∧ s.WellFormed ∧ s.KeysDistinct ∧
      ∀ key value, configKeyValidate key = true → ShortName key → (cstr value).length ≤ 255 →
        s.StoreLaw key value := by
  have hstep : ∀ s op, (∃ t, Sim s t ∧ Config.KeysDistinct t) → Op.ShortKeys op →
      ∃ s', step s op = some s' ∧ ∃ t, Sim s' t ∧ Config.KeysDistinct t :=
    fun s op ⟨t, hsim, ht⟩ hop => step_sim hsim ht hop
  obtain ⟨s, hrun, t, ⟨ns, hrep, hitems, hmod, hfmt⟩, hdistinct⟩ :=
    Transition.run_total hstep ⟨_, sim_configAlloc, keysDistinct_configAlloc⟩ h
  have hsim : Sim s t := ⟨ns, hrep, hitems, hmod, hfmt⟩
  refine ⟨s, hrun, ⟨⟨ns, hrep⟩, hrep.head_eq_none_iff⟩, fun ms hms => ?_,
    fun key value hvalid hshort hlen => ?_⟩
  · rw [LinkedList.seg_unique hms.seg hrep.seg]
    rwa [Config.KeysDistinct, ← hitems, List.map_map] at hdistinct
  · obtain ⟨s', hs', hsim'⟩ := sim_configSetStr hsim key value
    refine ⟨s', hs', ?_, fun other hne => ?_⟩
    · rw [configGetStr_of_sim hsim', configGetStr_configSetStr_self t hvalid hshort,
        List.take_of_length_le hlen]
    · rw [configGetStr_of_sim hsim', configGetStr_of_sim hsim,
        configGetStr_configSetStr_ne t value hne]

/-- A file with a prefix, and calls that store, overwrite and remove. -/
def themeOps : List Op :=
  [.read (.openFileBufferBuffer "main0:\n  type=Background\n".toList),
    .setStr "title".toList "A".toList, .setInt "title".toList 7, .removeKey "main0_type".toList]

theorem run_representation_themeOps :
    themeOps.length = 4 ∧
    ∃ s, Transition.run step configAlloc themeOps = some s ∧ s.WellFormed ∧ s.KeysDistinct ∧
      ∀ key value, configKeyValidate key = true → ShortName key → (cstr value).length ≤ 255 →
        s.StoreLaw key value := by
  refine ⟨rfl, run_representation themeOps fun op hop => ?_⟩
  simp only [themeOps, List.mem_cons, List.not_mem_nil, or_false] at hop
  rcases hop with rfl | rfl | rfl | rfl
  · exact ⟨[("main0_type".toList, "Background".toList)], by decide +kernel, by decide⟩
  · exact (by decide : ShortName "title".toList)
  · exact (by decide : ShortName "title".toList)
  · trivial

/-- A name of 32 characters. -/
def longName : Text := List.replicate 32 'a'

/-- Two stores under a name of 32 characters leave two nodes with the same stored key, and neither
is found under the name. -/
theorem not_run_representation :
    ∃ s, Transition.run step configAlloc
        [.setStr longName "1".toList, .setStr longName "2".toList] = some s ∧
      ¬ s.KeysDistinct ∧ s.configGetStr longName = some none ∧
      ¬ s.StoreLaw longName "2".toList := by
  obtain ⟨s₁, hs₁, hsim₁⟩ := sim_configSetStr sim_configAlloc longName "1".toList
  obtain ⟨s₂, hs₂, hsim₂⟩ := sim_configSetStr hsim₁ longName "2".toList
  obtain ⟨s₃, hs₃, hsim₃⟩ := sim_configSetStr hsim₂ longName "2".toList
  refine ⟨s₂, ?_, fun hdistinct => ?_, ?_, ?_⟩
  · rw [Transition.run_cons, step, hs₁, Option.bind_some, Transition.run_cons, step, hs₂]
    rfl
  · obtain ⟨ns, hrep, hitems, -, -⟩ := hsim₂
    have hnd : ((ns.map Prod.snd).map (·.key)).Nodup := by
      rw [List.map_map]
      exact hdistinct ns hrep
    rw [hitems] at hnd
    exact absurd hnd (by decide +kernel)
  · rw [configGetStr_of_sim hsim₂]
    decide +kernel
  · rintro ⟨s', hs', hget, -⟩
    rw [hs₃, Option.some.injEq] at hs'
    rw [← hs', configGetStr_of_sim hsim₃] at hget
    exact absurd hget (by decide +kernel)

end SetHeap

end Config

end OpenPS2Loader
