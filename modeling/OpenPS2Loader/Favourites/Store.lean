import OpenPS2Loader.Favourites.Format
import OpenPS2Loader.Lib.Transition

/-!
# The favourites store

`addFavouriteItem`, `removeFavouriteByIdAndText` and `favRemoveByIndex` read `favourites.bin`,
change the list of records and write the whole file again. Two records have the same identity when
they have the same text and kind, modes that match (the slots of block devices are all the same)
and, but for applications, the same id.

What can go wrong in an operation is its `Env`: opening the file, reading it to its end, the
allocations, opening it for writing and writing it to its end. A file that cannot be read, because
of an error or because its version is a newer one, is read as no records at all, and the operations
do not tell this from an empty file.

## Main definitions

* `Favourites.Env`, `Favourites.Item`, `Favourites.Op` — one operation and its circumstances
* `Favourites.stored` — the records of a file
* `Favourites.step` — what an operation leaves
* `Favourites.Ok` — the file can be read, the write is not cut short, and the item fits in a record

## Main results

* `Favourites.step_cases` — what an operation does to the stored records
* `Favourites.store_laws`
-/

namespace OpenPS2Loader

namespace Favourites

open Transition

/-! ### The operations -/

/-- What happens in an operation. -/
structure Env where
  /-- The file opens for reading. -/
  readOpen : Bool
  /-- The number of bytes after which reading fails. -/
  readError : Option ℕ
  /-- The array of the reader can be allocated. -/
  readAlloc : Bool
  /-- The array of `addFavouriteItem` can be allocated. -/
  outAlloc : Bool
  /-- The image of `favWriteFile` can be allocated. -/
  imageAlloc : Bool
  /-- The file opens for writing. -/
  writeOpen : Bool
  /-- The number of bytes that are written when the write is cut short. -/
  shortWrite : Option ℕ

/-- Nothing goes wrong. -/
def Env.clean : Env := ⟨true, none, true, true, true, true, none⟩

/-- The records of a file. -/
def records (file : List UInt8) : List FavRaw := (favReadFile file).getD []

/-- The records of the store: none when there is no file. -/
def stored : Option (List UInt8) → List FavRaw
  | none => []
  | some file => records file

/-- `favReadFile` in an operation. -/
def favRead (e : Env) : Option (List UInt8) → List FavRaw
  | none => []
  | some file =>
    if e.readOpen && e.readAlloc then
      match e.readError with
      | none => records file
      | some n => records (file.take n)
    else
      []

/-- `favWriteFile`: whether it succeeded, and the file it leaves. -/
def favWriteFile (e : Env) (file : Option (List UInt8)) (recs : List FavRaw) :
    Bool × Option (List UInt8) :=
  let img := (favImage recs).getD []
  if e.imageAlloc && e.writeOpen then
    match e.shortWrite with
    | none => (true, some img)
    | some n => (decide (img.length ≤ n), some (img.take n))
  else
    (false, file)

/-- A C string. -/
abbrev CText : Type := {t : List UInt8 // 0 ∉ t}

/-- The arguments of the operations. The text may be `NULL`. -/
structure Item where
  mode : ℤ
  id : UInt32
  iconId : UInt32
  textId : UInt32
  text : Option CText
  kind : FavKind
  deriving DecidableEq

/-- The modes of block devices, `BDM_MODE` to `BDM_MODE_LAST`. -/
def isBdm (mode : ℤ) : Bool := 0 ≤ mode && mode ≤ 7

/-- `favModesMatch` -/
def favModesMatch (a b : ℤ) : Bool := isBdm a && isBdm b || a == b

/-- `favIdsMatchForMode` -/
def favIdsMatchForMode (mode : ℤ) (recId liveId : UInt32) : Bool :=
  mode == appMode || recId == liveId

/-- The test of `addFavouriteItem` and `removeFavouriteByIdAndText`. -/
def Item.names (x : Item) (r : FavRaw) : Bool :=
  favModesMatch r.mode x.mode && favIdsMatchForMode x.mode r.id x.id && r.kind == x.kind &&
    x.text.any fun t => r.text == t.1

/-- The new record of `addFavouriteItem`. `snprintf` cuts the text. -/
def Item.raw (x : Item) (t : CText) : FavRaw where
  mode := x.mode
  id := x.id
  iconId := x.iconId
  textId := x.textId
  kind := x.kind
  text := t.1.take (favTextMax - 1)
  length_text := by
    rw [List.length_take]
    exact lt_of_le_of_lt (Nat.min_le_left _ _) (by decide)
  zero_not_mem_text := fun h => t.2 (List.mem_of_mem_take h)

/-- `addFavouriteItem` -/
def addFavouriteItem (e : Env) (x : Item) (file : Option (List UInt8)) :
    Bool × Option (List UInt8) :=
  match x.text with
  | none => (false, file)
  | some t =>
    if t.1 = [] then
      (false, file)
    else
      let recs := favRead e file
      if recs.any x.names then
        (true, file)
      else if favMaxItems < recs.length + 1 then
        (false, file)
      else if e.outAlloc then
        favWriteFile e file (recs ++ [x.raw t])
      else
        (false, file)

/-- `removeFavouriteByIdAndText` -/
def removeFavouriteByIdAndText (e : Env) (x : Item) (file : Option (List UInt8)) :
    Bool × Option (List UInt8) :=
  let recs := favRead e file
  if recs = [] then
    (false, file)
  else
    favWriteFile e file (recs.filter fun r => !x.names r)

/-- An operation. `favRemoveByIndex` has the rows of the tab, `favArray`, and an index. -/
inductive Op
  | add (x : Item)
  | remove (x : Item)
  | removeByIndex (favArray : List Item) (favIndex : ℤ)

/-- The row of `favRemoveByIndex`, when `favValidIndex` accepts the index. -/
def rowAt (favArray : List Item) (favIndex : ℤ) : Option Item :=
  if 0 ≤ favIndex then favArray[favIndex.toNat]? else none

/-- `favRemoveByIndex` -/
def favRemoveByIndex (e : Env) (favArray : List Item) (favIndex : ℤ) (file : Option (List UInt8)) :
    Option (List UInt8) :=
  match rowAt favArray favIndex with
  | none => file
  | some x => (removeFavouriteByIdAndText e x file).2

/-- An operation in its circumstances. -/
def step (file : Option (List UInt8)) : Env × Op → Option (Option (List UInt8))
  | (e, .add x) => some (addFavouriteItem e x file).2
  | (e, .remove x) => some (removeFavouriteByIdAndText e x file).2
  | (e, .removeByIndex favArray favIndex) => some (favRemoveByIndex e favArray favIndex file)

/-- The records an operation is to take out. -/
def Op.names : Op → FavRaw → Bool
  | .add _, _ => false
  | .remove x, r => x.names r
  | .removeByIndex favArray favIndex, r => (rowAt favArray favIndex).any fun x => x.names r

/-! ### Reading and writing -/

theorem length_stored_le (file : Option (List UInt8)) : (stored file).length ≤ favMaxItems := by
  cases file with
  | none => exact Nat.zero_le _
  | some file =>
    obtain ⟨rs, hrs, hlen⟩ := favReadFile_total file
    rw [stored, records, hrs, Option.getD_some]
    exact hlen

/-- A file with the magic and a version that the reader does not have. -/
def unsupported (file : List UInt8) : Bool :=
  match rdHeader file with
  | none => false
  | some (magic, ver, _, _) =>
    magic.toNat == favMagic && (decide (ver < 1) || decide (favVersion < ver.toNat))

/-- The file can be read, if there is one. -/
def Readable (e : Env) : Option (List UInt8) → Prop
  | none => True
  | some file => e.readOpen = true ∧ e.readAlloc = true ∧ e.readError = none ∧
      unsupported file = false

instance (e : Env) (file : Option (List UInt8)) : Decidable (Readable e file) :=
  match file with
  | none => inferInstanceAs (Decidable True)
  | some _ => inferInstanceAs (Decidable (_ ∧ _))

theorem favRead_of_readable {e : Env} {file : Option (List UInt8)} (h : Readable e file) :
    favRead e file = stored file := by
  cases file with
  | none => rfl
  | some file =>
    obtain ⟨hopen, halloc, herror, -⟩ := h
    rw [favRead, hopen, halloc, herror]
    rfl

/-- The modes that a file can hold. -/
def Modes (recs : List FavRaw) : Prop := ∀ r ∈ recs, 0 ≤ r.mode ∧ r.mode < 2 ^ 16

instance (recs : List FavRaw) : Decidable (Modes recs) := List.decidableBAll _ _

theorem records_image {recs : List FavRaw} (hlen : recs.length ≤ favMaxItems)
    (hmodes : Modes recs) : records ((favImage recs).getD []) = recs := by
  have hread := favReadFile_favImage recs hlen hmodes
  obtain ⟨img, himg, hrecs⟩ := Option.bind_eq_some_iff.mp hread
  rw [himg, Option.getD_some, records, hrecs, Option.getD_some]

theorem unsupported_image {recs : List FavRaw} (hlen : recs.length ≤ favMaxItems) :
    unsupported ((favImage recs).getD []) = false := by
  have hcnt : recs.length < 2 ^ 16 := by
    rw [favMaxItems] at hlen
    omega
  rw [favImage_eq recs hlen, Option.getD_some, unsupported, rdHeader_header (by decide) hcnt]
  rfl

/-- A write that is not cut short leaves the file or stores the records. -/
theorem favWriteFile_cases {e : Env} (file : Option (List UInt8)) {recs : List FavRaw}
    (hshort : e.shortWrite = none) (hlen : recs.length ≤ favMaxItems) (hmodes : Modes recs) :
    favWriteFile e file recs = (false, file) ∨
      ∃ img, favWriteFile e file recs = (true, some img) ∧ stored (some img) = recs ∧
        unsupported img = false := by
  rw [favWriteFile, hshort]
  dsimp only
  split
  next => exact .inr ⟨_, rfl, records_image hlen hmodes, unsupported_image hlen⟩
  next => exact .inl rfl

/-! ### Identity -/

/-- The item of a record. -/
def FavRaw.item (r : FavRaw) : Item :=
  ⟨r.mode, r.id, r.iconId, r.textId, some ⟨r.text, r.zero_not_mem_text⟩, r.kind⟩

/-- No two records have the same identity. -/
def Distinct (recs : List FavRaw) : Prop := recs.Pairwise fun r s => s.item.names r = false

instance (recs : List FavRaw) : Decidable (Distinct recs) := List.instDecidablePairwise _

/-- The item fits in a record of the file. -/
def Item.Fits (x : Item) : Prop :=
  (0 ≤ x.mode ∧ x.mode < 2 ^ 16) ∧ x.text.all fun t => t.1.length < favTextMax

instance (x : Item) : Decidable x.Fits := inferInstanceAs (Decidable (_ ∧ _))

theorem favModesMatch_self (mode : ℤ) : favModesMatch mode mode = true := by
  rw [favModesMatch, beq_self_eq_true, Bool.or_true]

theorem favIdsMatchForMode_self (mode : ℤ) (id : UInt32) :
    favIdsMatchForMode mode id id = true := by
  rw [favIdsMatchForMode, beq_self_eq_true, Bool.or_true]

section Fits

variable {x : Item} {t : CText} (hfits : x.Fits) (htext : x.text = some t)

include hfits htext

theorem raw_text_of_fits : (x.raw t).text = t.1 := by
  have hlen := hfits.2
  rw [htext, Option.all_some, decide_eq_true_eq] at hlen
  exact List.take_of_length_le (by omega)

/-- The new record is the one that the item names, -/
theorem names_raw : x.names (x.raw t) = true := by
  have hmode : (x.raw t).mode = x.mode := rfl
  have hid : (x.raw t).id = x.id := rfl
  have hkind : (x.raw t).kind = x.kind := rfl
  rw [Item.names, raw_text_of_fits hfits htext, hmode, hid, hkind, htext, Option.any_some,
    favModesMatch_self, favIdsMatchForMode_self, beq_self_eq_true, beq_self_eq_true]
  rfl

/-- and it names what the item names. -/
theorem item_raw_names (r : FavRaw) : (x.raw t).item.names r = x.names r := by
  have hmode : (x.raw t).item.mode = x.mode := rfl
  have hid : (x.raw t).item.id = x.id := rfl
  have hkind : (x.raw t).item.kind = x.kind := rfl
  have hitem : (x.raw t).item.text.any (fun u => r.text == u.1) = (r.text == (x.raw t).text) := rfl
  rw [Item.names, Item.names, hmode, hid, hkind, hitem, raw_text_of_fits hfits htext, htext,
    Option.any_some]

end Fits

/-! ### What an operation does -/

/-- The file can be read, the write is not cut short, and an item that is added fits. -/
def Ok (file : Option (List UInt8)) : Env × Op → Prop
  | (e, op) => Readable e file ∧ e.shortWrite = none ∧
      match op with
      | .add x => x.Fits
      | .remove _ => True
      | .removeByIndex _ _ => True

instance (file : Option (List UInt8)) (a : Env × Op) : Decidable (Ok file a) :=
  match a with
  | (e, .add x) => inferInstanceAs (Decidable (Readable e file ∧ e.shortWrite = none ∧ x.Fits))
  | (e, .remove _) => inferInstanceAs (Decidable (Readable e file ∧ e.shortWrite = none ∧ True))
  | (e, .removeByIndex _ _) =>
    inferInstanceAs (Decidable (Readable e file ∧ e.shortWrite = none ∧ True))

section Operations

variable {e : Env} {x : Item} {file : Option (List UInt8)} (hread : Readable e file)
  (hshort : e.shortWrite = none) (hmodes : Modes (stored file))

include hread hshort hmodes

/-- `addFavouriteItem` finds the item, fails, or appends a record. -/
theorem addFavouriteItem_cases (hfits : x.Fits) :
    (∃ r ∈ stored file, x.names r = true) ∧ (addFavouriteItem e x file).2 = file ∨
      addFavouriteItem e x file = (false, file) ∨
      ∃ t img, x.text = some t ∧ (∀ r ∈ stored file, x.names r = false) ∧
        addFavouriteItem e x file = (true, some img) ∧
        stored (some img) = stored file ++ [x.raw t] ∧ unsupported img = false := by
  rw [addFavouriteItem, favRead_of_readable hread]
  split
  next => exact .inr (.inl rfl)
  next t htext =>
    split
    next => exact .inr (.inl rfl)
    next =>
      dsimp only
      split
      next hany => exact .inl ⟨List.any_eq_true.mp hany, rfl⟩
      next hany =>
        rw [Bool.not_eq_true, List.any_eq_false] at hany
        split
        next => exact .inr (.inl rfl)
        next hroom =>
          split
          next =>
            have hlen : (stored file ++ [x.raw t]).length ≤ favMaxItems := by
              rw [List.length_append, List.length_singleton]
              omega
            have hall : Modes (stored file ++ [x.raw t]) := by
              intro r hr
              obtain hr | hr := List.mem_append.mp hr
              · exact hmodes r hr
              · obtain rfl := List.mem_singleton.mp hr
                exact hfits.1
            obtain hfail | ⟨img, himg, hstored, hsupported⟩ :=
              favWriteFile_cases file hshort hlen hall
            · exact .inr (.inl hfail)
            · refine .inr (.inr ⟨t, img, htext, fun r hr => ?_, himg, hstored, hsupported⟩)
              exact Bool.eq_false_iff.mpr (hany r hr)
          next => exact .inr (.inl rfl)

/-- `removeFavouriteByIdAndText` fails, or drops what the item names. -/
theorem removeFavouriteByIdAndText_cases :
    removeFavouriteByIdAndText e x file = (false, file) ∨
      ∃ img, removeFavouriteByIdAndText e x file = (true, some img) ∧
        stored (some img) = (stored file).filter fun r => !x.names r := by
  rw [removeFavouriteByIdAndText, favRead_of_readable hread]
  split
  next => exact .inl rfl
  next =>
    have hlen : ((stored file).filter fun r => !x.names r).length ≤ favMaxItems :=
      (List.length_filter_le _ _).trans (length_stored_le file)
    have hall : Modes ((stored file).filter fun r => !x.names r) := by
      intro r hr
      exact hmodes r (List.mem_filter.mp hr).1
    obtain hfail | ⟨img, himg, hstored, -⟩ := favWriteFile_cases file hshort hlen hall
    · exact .inl hfail
    · exact .inr ⟨img, himg, hstored⟩

omit hmodes in
/-- A removal succeeds when nothing goes wrong and there are records. -/
theorem removeFavouriteByIdAndText_fst (himage : e.imageAlloc = true) (hopen : e.writeOpen = true)
    (hne : stored file ≠ []) : (removeFavouriteByIdAndText e x file).1 = true := by
  rw [removeFavouriteByIdAndText, favRead_of_readable hread]
  rw [if_neg hne, favWriteFile, himage, hopen, hshort]
  rfl

end Operations

/-- **What an operation does to the records**: nothing, it appends one that no record names, or it
drops those that it names. -/
theorem step_cases {file file' : Option (List UInt8)} {a : Env × Op} (hmodes : Modes (stored file))
    (hok : Ok file a) (hstep : step file a = some file') :
    file' = file ∨
      (∃ (x : Item) (t : CText), x.Fits ∧ x.text = some t ∧
        (∀ r ∈ stored file, x.names r = false) ∧ stored file' = stored file ++ [x.raw t]) ∨
      stored file' = (stored file).filter fun r => !a.2.names r := by
  obtain ⟨e, op⟩ := a
  obtain ⟨hread, hshort, hitem⟩ := hok
  have hremove : ∀ x, (removeFavouriteByIdAndText e x file).2 = file ∨
      stored (removeFavouriteByIdAndText e x file).2 =
        (stored file).filter fun r => !x.names r := by
    intro x
    obtain hfail | ⟨img, himg, hstored⟩ :=
      removeFavouriteByIdAndText_cases (x := x) hread hshort hmodes
    · exact .inl (by rw [hfail])
    · exact .inr (by rw [himg]; exact hstored)
  cases op with
  | add x =>
    obtain rfl := Option.some.inj hstep
    obtain ⟨-, hsame⟩ | hfail | ⟨t, img, htext, hnew, himg, hstored, -⟩ :=
      addFavouriteItem_cases hread hshort hmodes hitem
    · exact .inl hsame
    · exact .inl (by rw [hfail])
    · refine .inr (.inl ⟨x, t, hitem, htext, hnew, ?_⟩)
      rw [himg]
      exact hstored
  | remove x =>
    obtain rfl := Option.some.inj hstep
    exact (hremove x).imp_right .inr
  | removeByIndex favArray favIndex =>
    obtain rfl := Option.some.inj hstep
    cases hrow : rowAt favArray favIndex with
    | none =>
      refine .inl ?_
      rw [favRemoveByIndex, hrow]
    | some x =>
      rw [favRemoveByIndex, hrow]
      refine (hremove x).imp_right fun h => .inr (h.trans ?_)
      refine List.filter_congr fun r _ => ?_
      rw [Op.names, hrow, Option.any_some]

/-! ### The laws -/

/-- What stays true in a run: the modes fit, and no two records have the same identity. -/
theorem step_modes {file file' : Option (List UInt8)} {a : Env × Op} (hmodes : Modes (stored file))
    (hok : Ok file a) (hstep : step file a = some file') : Modes (stored file') := by
  obtain rfl | ⟨x, t, hfits, -, -, hstored⟩ | hstored := step_cases hmodes hok hstep
  · exact hmodes
  · rw [hstored]
    intro r hr
    obtain hr | hr := List.mem_append.mp hr
    · exact hmodes r hr
    · obtain rfl := List.mem_singleton.mp hr
      exact hfits.1
  · rw [hstored]
    intro r hr
    exact hmodes r (List.mem_filter.mp hr).1

theorem step_distinct {file file' : Option (List UInt8)} {a : Env × Op}
    (hmodes : Modes (stored file)) (hok : Ok file a) (hstep : step file a = some file')
    (hdistinct : Distinct (stored file)) : Distinct (stored file') := by
  obtain rfl | ⟨x, t, hfits, htext, hnew, hstored⟩ | hstored := step_cases hmodes hok hstep
  · exact hdistinct
  · rw [hstored, Distinct, List.pairwise_append]
    refine ⟨hdistinct, List.pairwise_singleton _ _, fun r hr s hs => ?_⟩
    obtain rfl := List.mem_singleton.mp hs
    rw [item_raw_names hfits htext]
    exact hnew r hr
  · rw [hstored]
    exact hdistinct.filter _

/-- An item that is not stored is added and removed again. -/
def AddRemove (file : Option (List UInt8)) : Prop :=
  ∀ (e e' : Env) (x : Item), Ok file (e, .add x) → (addFavouriteItem e x file).1 = true →
    (∀ r ∈ stored file, x.names r = false) → e'.readOpen = true → e'.readAlloc = true →
    e'.readError = none → e'.imageAlloc = true → e'.writeOpen = true → e'.shortWrite = none →
    (removeFavouriteByIdAndText e' x (addFavouriteItem e x file).2).1 = true ∧
      stored (removeFavouriteByIdAndText e' x (addFavouriteItem e x file).2).2 = stored file

theorem addRemove_of_modes {file : Option (List UInt8)} (hmodes : Modes (stored file)) :
    AddRemove file := by
  intro e e' x hok hadd hnew hopen halloc herror himage hwopen hshort
  obtain ⟨⟨r, hr, hname⟩, -⟩ | hfail | ⟨t, img, htext, -, himg, hstored, hsupported⟩ :=
    addFavouriteItem_cases hok.1 hok.2.1 hmodes hok.2.2
  · rw [hnew r hr] at hname
    cases hname
  · rw [hfail] at hadd
    cases hadd
  · have hread : Readable e' (some img) := ⟨hopen, halloc, herror, hsupported⟩
    have hne : stored (some img) ≠ [] := by
      rw [hstored]
      exact List.append_ne_nil_of_right_ne_nil _ (List.cons_ne_nil _ _)
    have hmodes' : Modes (stored (some img)) := by
      refine step_modes hmodes hok ?_
      rw [step, himg]
    have hfst := removeFavouriteByIdAndText_fst (x := x) hread hshort himage hwopen hne
    rw [himg]
    refine ⟨hfst, ?_⟩
    obtain hfail | ⟨img', himg', hstored'⟩ :=
      removeFavouriteByIdAndText_cases (x := x) hread hshort hmodes'
    · rw [hfail] at hfst
      cases hfst
    -- the records from before stay, and the new one goes
    · have hkeep : (stored file).filter (fun r => !x.names r) = stored file := by
        refine List.filter_eq_self.mpr fun r hr => ?_
        rw [hnew r hr]
        rfl
      have hdrop : [x.raw t].filter (fun r => !x.names r) = [] := by
        rw [List.filter_cons, names_raw hok.2.2 htext]
        rfl
      rw [himg']
      exact hstored'.trans (by rw [hstored, List.filter_append, hkeep, hdrop, List.append_nil])

/-- An operation keeps every record that it does not name, in order. -/
def Keeps (file : Option (List UInt8)) : Prop :=
  ∀ (e : Env) (op : Op) (file' : Option (List UInt8)), Ok file (e, op) →
    step file (e, op) = some file' →
    ((stored file).filter fun r => !op.names r).Sublist (stored file')

theorem keeps_of_modes {file : Option (List UInt8)} (hmodes : Modes (stored file)) :
    Keeps file := by
  intro e op file' hok hstep
  obtain rfl | ⟨x, t, -, -, -, hstored⟩ | hstored := step_cases hmodes hok hstep
  · exact List.filter_sublist
  · rw [hstored]
    exact List.filter_sublist.trans (List.sublist_append_left _ _)
  · rw [hstored]

/-- **The laws of the favourites store.** In every run whose operations can read the file, are not
cut short and add items that fit: no operation brings in a second record of the same identity, an
item that was not stored is removed again without a trace, one that was stored leaves the file as it
is, and every operation keeps the records that it does not name. -/
theorem store_laws {file file' : Option (List UInt8)} {ops : List (Env × Op)}
    (hmodes : Modes (stored file)) (hok : RunOk step Ok file ops)
    (hrun : run step file ops = some file') :
    (Distinct (stored file) → Distinct (stored file')) ∧ AddRemove file' ∧
      (∀ e x, Ok file' (e, .add x) → (∃ r ∈ stored file', x.names r = true) →
        (addFavouriteItem e x file').2 = file') ∧
      Keeps file' := by
  have hmodes' : Modes (stored file') :=
    run_invariant_of_runOk (P := fun f => Modes (stored f))
      (fun _ _ _ hm hok hstep => step_modes hm hok hstep) hmodes hok hrun
  refine ⟨fun hdistinct => ?_, addRemove_of_modes hmodes', fun e x hok' hnamed => ?_,
    keeps_of_modes hmodes'⟩
  · exact (run_invariant_of_runOk
      (P := fun f => Modes (stored f) ∧ Distinct (stored f))
      (fun _ _ _ h hok hstep => ⟨step_modes h.1 hok hstep, step_distinct h.1 hok hstep h.2⟩)
      ⟨hmodes, hdistinct⟩ hok hrun).2
  · obtain ⟨-, hsame⟩ | hfail | ⟨t, img, -, hnew, -⟩ :=
      addFavouriteItem_cases hok'.1 hok'.2.1 hmodes' hok'.2.2
    · exact hsame
    · rw [hfail]
    · obtain ⟨r, hr, hname⟩ := hnamed
      rw [hnew r hr] at hname
      cases hname

/-- The text "A". -/
def textA : CText := ⟨[65], by decide⟩

/-- The disc game "A" in the first slot. -/
def discA : Item := ⟨0, 0, 0, 0, some textA, .iso⟩

/-- Its record. -/
def discRecord : FavRaw := discA.raw textA

/-- The store with these records. -/
def storeOf (recs : List FavRaw) : Option (List UInt8) := some ((favImage recs).getD [])

theorem stored_storeOf {recs : List FavRaw} (hlen : recs.length ≤ favMaxItems)
    (hmodes : Modes recs) : stored (storeOf recs) = recs := records_image hlen hmodes

/-- An item that is stored is added with success, and gone after it is removed; and a file may have
the same record twice from the start. -/
theorem not_restored_discA :
    ((addFavouriteItem .clean discA (storeOf [discRecord])).1 = true ∧
      stored (removeFavouriteByIdAndText .clean discA
        (addFavouriteItem .clean discA (storeOf [discRecord])).2).2 ≠
          stored (storeOf [discRecord])) ∧
    ¬Distinct (stored (storeOf [discRecord, discRecord])) := by
  have hone : stored (storeOf [discRecord]) = [discRecord] := stored_storeOf (by decide) (by decide)
  have htwo : stored (storeOf [discRecord, discRecord]) = [discRecord, discRecord] :=
    stored_storeOf (by decide) (by decide)
  have hread : favRead .clean (storeOf [discRecord]) = [discRecord] := hone
  have hadd : addFavouriteItem .clean discA (storeOf [discRecord]) =
      (true, storeOf [discRecord]) := by
    rw [addFavouriteItem]
    dsimp only [discA]
    rw [hread]
    rfl
  have hremove : removeFavouriteByIdAndText .clean discA (storeOf [discRecord]) =
      (true, storeOf []) := by
    rw [removeFavouriteByIdAndText, hread]
    rfl
  refine ⟨⟨by rw [hadd], ?_⟩, ?_⟩
  · rw [hadd, hremove, hone, stored_storeOf (by decide) (by decide)]
    exact (List.cons_ne_nil _ _).symm
  · rw [htwo]
    decide

/-- The game "B" in the second slot, with the id 1. -/
def discB : Item := ⟨1, 1, 0, 0, some ⟨[66], by decide⟩, .iso⟩

/-- The application "C". -/
def appC : Item := ⟨appMode, 0, 0, 0, some ⟨[67], by decide⟩, .elf⟩

def discBRecord : FavRaw := discB.raw ⟨[66], by decide⟩

def appCRecord : FavRaw := appC.raw ⟨[67], by decide⟩

/-- To a file with two games an application is added, and the row of the first game is removed. -/
theorem store_laws_twoGames :
    ∃ file', run step (storeOf [discRecord, discBRecord])
        [(.clean, .add appC), (.clean, .removeByIndex [discA, discB, appC] 0)] = some file' ∧
      stored file' = [discBRecord, appCRecord] ∧
      (Distinct (stored (storeOf [discRecord, discBRecord])) → Distinct (stored file')) ∧
      AddRemove file' ∧
      (∀ e x, Ok file' (e, .add x) → (∃ r ∈ stored file', x.names r = true) →
        (addFavouriteItem e x file').2 = file') ∧
      Keeps file' := by
  have htwo : stored (storeOf [discRecord, discBRecord]) = [discRecord, discBRecord] :=
    stored_storeOf (by decide) (by decide)
  have hthree : stored (storeOf [discRecord, discBRecord, appCRecord]) =
      [discRecord, discBRecord, appCRecord] := stored_storeOf (by decide) (by decide)
  have hleft : stored (storeOf [discBRecord, appCRecord]) = [discBRecord, appCRecord] :=
    stored_storeOf (by decide) (by decide)
  have hmodes : Modes (stored (storeOf [discRecord, discBRecord])) := by
    rw [htwo]
    decide
  have hadd : step (storeOf [discRecord, discBRecord]) (.clean, .add appC) =
      some (storeOf [discRecord, discBRecord, appCRecord]) := by
    have hread : favRead .clean (storeOf [discRecord, discBRecord]) = [discRecord, discBRecord] :=
      htwo
    rw [step, addFavouriteItem]
    dsimp only [appC]
    rw [hread]
    rfl
  have hremove : step (storeOf [discRecord, discBRecord, appCRecord])
      (.clean, .removeByIndex [discA, discB, appC] 0) =
        some (storeOf [discBRecord, appCRecord]) := by
    have hread : favRead .clean (storeOf [discRecord, discBRecord, appCRecord]) =
        [discRecord, discBRecord, appCRecord] := hthree
    have hrow : rowAt [discA, discB, appC] 0 = some discA := rfl
    rw [step, favRemoveByIndex, hrow]
    dsimp only
    rw [removeFavouriteByIdAndText, hread]
    rfl
  have hrun : run step (storeOf [discRecord, discBRecord])
      [(.clean, .add appC), (.clean, .removeByIndex [discA, discB, appC] 0)] =
        some (storeOf [discBRecord, appCRecord]) := by
    rw [run_cons_eq_some]
    refine ⟨_, hadd, ?_⟩
    rw [run_cons_eq_some]
    exact ⟨_, hremove, rfl⟩
  have hok : RunOk step Ok (storeOf [discRecord, discBRecord])
      [(.clean, .add appC), (.clean, .removeByIndex [discA, discB, appC] 0)] := by
    rw [runOk_cons_of_eq_some hadd, runOk_cons_of_eq_some hremove]
    refine ⟨⟨⟨rfl, rfl, rfl, ?_⟩, rfl, by decide⟩, ⟨⟨rfl, rfl, rfl, ?_⟩, rfl, trivial⟩, trivial⟩
    · exact unsupported_image (by decide)
    · exact unsupported_image (by decide)
  exact ⟨_, hrun, hleft, store_laws hmodes hok hrun⟩

end Favourites

end OpenPS2Loader
