import OpenPS2Loader.Http.Catalog
import OpenPS2Loader.Http.CatalogReference

/-!
# The two catalog parsers agree, up to bare extensions

`httpcatalog.c` and `catalog_reference.py` are two hand-written parsers of one format. They are
compared through a grammar of the format: both splitters read exactly the rows of `CsvRow`, the
console at most four fields of them, and on the same fields both parsers make the same checks.

The one difference is the path check. The console wants the extension to be a *proper* suffix of
the path, so that a fourth field `.iso` is an unknown extension to it; the reference only asks for
a suffix.

## Main definitions

* `CsvRow` — the grammar of a row
* `Outcome`, `consoleLine`, `referenceLine` — what either program does with a line
* `BareExtensionRow` — the rows on which they differ

## Main results

* `httpSplitFields_eq_ok_iff`, `splitFields_eq_ok_iff` — both splitters against the grammar
* `httpCheckPath_eq_ok_iff` — the two path checks
* `catalog_parsers_agree_iff` — the two parsers agree off the bare extensions, and only there
-/

namespace OpenPS2Loader

namespace Catalog

/-! ### The grammar of a row -/

/-- The contents of a quoted field, with every quote doubled. -/
def escapeQuotes : Text → Text
  | [] => []
  | '"' :: s => '"' :: '"' :: escapeQuotes s
  | c :: s => c :: escapeQuotes s

/-- `CsvField raw value`: the text `raw` is a way to write the field `value`. -/
inductive CsvField : Text → Text → Prop
  | plain {s : Text} (quote : s.head? ≠ some '"') (comma : ',' ∉ s) : CsvField s s
  | quoted (s : Text) : CsvField ('"' :: escapeQuotes s ++ ['"']) s

/-- `CsvRow line fields`: the text `line` is a way to write the row `fields`. -/
inductive CsvRow : Text → List Text → Prop
  | last {raw value : Text} (field : CsvField raw value) : CsvRow raw [value]
  | cons {raw value line : Text} {fields : List Text} (field : CsvField raw value)
      (row : CsvRow line fields) : CsvRow (raw ++ ',' :: line) (value :: fields)

theorem httpQuotedField_escapeQuotes (s : Text) {rest : Text} (h : rest.head? ≠ some '"') :
    httpQuotedField (escapeQuotes s ++ '"' :: rest) = .ok (s, rest) := by
  induction s using escapeQuotes.induct with
  | case1 =>
    cases rest with
    | nil => rfl
    | cons c rest =>
      rw [escapeQuotes, List.nil_append, httpQuotedField]
      rintro p ⟨⟩
      simp at h
  | case2 s ih =>
    rw [escapeQuotes, List.cons_append, List.cons_append, httpQuotedField, ih]
    rfl
  | case3 c s hc ih =>
    have hc : c ≠ '"' := fun h => hc h
    rw [escapeQuotes, List.cons_append, httpQuotedField, ih]
    · rfl
    · exact fun p h _ => hc h
    · exact hc
    · exact hc

theorem eq_escapeQuotes_of_httpQuotedField {p s rest : Text}
    (h : httpQuotedField p = .ok (s, rest)) :
    p = escapeQuotes s ++ '"' :: rest ∧ rest.head? ≠ some '"' := by
  induction p using httpQuotedField.induct generalizing s with
  | case1 => cases h
  | case2 p ih =>
    rw [httpQuotedField] at h
    cases hq : httpQuotedField p with
    | error e => simp [hq, Except.map] at h
    | ok q =>
      obtain ⟨out, r⟩ := q
      simp only [hq, Except.map, Except.ok.injEq, Prod.mk.injEq] at h
      obtain ⟨rfl, rfl⟩ := h
      obtain ⟨hp, hr⟩ := ih hq
      rw [hp]
      exact ⟨rfl, hr⟩
  | case3 p hp =>
    rw [httpQuotedField] at h
    · cases h
      refine ⟨rfl, fun hr => ?_⟩
      obtain ⟨p, rfl⟩ := List.head?_eq_some_iff.mp hr
      exact hp p rfl
    · exact hp
  | case4 c p h₁ h₂ ih =>
    rw [httpQuotedField] at h
    · cases hq : httpQuotedField p with
      | error e => simp [hq, Except.map] at h
      | ok q =>
        obtain ⟨out, r⟩ := q
        simp only [hq, Except.map, Except.ok.injEq, Prod.mk.injEq] at h
        obtain ⟨rfl, rfl⟩ := h
        obtain ⟨hp, hr⟩ := ih hq
        rw [hp, escapeQuotes]
        · exact ⟨rfl, hr⟩
        · exact h₂
    · exact h₁
    · exact h₂

/-! ### The console's splitter reads the grammar -/

theorem httpNextField_none_iff {p field : Text} :
    httpNextField p = .ok (field, none) ↔ CsvField p field := by
  constructor
  · intro h
    unfold httpNextField at h
    split at h
    · split at h
      · cases h
      · rename_i hq
        cases h
        rw [(eq_escapeQuotes_of_httpQuotedField hq).1]
        exact .quoted _
      · cases h
      · cases h
    · rename_i hp
      simp only [Except.ok.injEq] at h
      obtain ⟨rfl, hc⟩ := Text.cutAt_eq_none.mp h
      refine .plain (fun hq => ?_) hc
      obtain ⟨s, rfl⟩ := List.head?_eq_some_iff.mp hq
      exact hp s rfl
  · rintro (⟨hq, hc⟩ | ⟨s⟩)
    · unfold httpNextField
      split
      · simp at hq
      · rw [Text.cutAt_of_not_mem hc]
    · rw [List.cons_append, httpNextField, httpQuotedField_escapeQuotes _ (by simp)]

theorem httpNextField_some_iff {p field rest : Text} :
    httpNextField p = .ok (field, some rest) ↔
      ∃ raw, CsvField raw field ∧ p = raw ++ ',' :: rest := by
  constructor
  · intro h
    unfold httpNextField at h
    split at h
    · split at h
      · cases h
      · cases h
      · rename_i hq
        cases h
        refine ⟨_, .quoted field, ?_⟩
        rw [(eq_escapeQuotes_of_httpQuotedField hq).1]
        simp
      · cases h
    · rename_i hp
      simp only [Except.ok.injEq] at h
      obtain ⟨rfl, hc⟩ := Text.cutAt_eq_some.mp h
      refine ⟨field, .plain (fun hq => ?_) hc, rfl⟩
      obtain ⟨s, rfl⟩ := List.head?_eq_some_iff.mp hq
      exact hp _ rfl
  · rintro ⟨raw, ⟨hq, hc⟩ | ⟨s⟩, rfl⟩
    · unfold httpNextField
      split
      · rename_i s h
        cases field with
        | nil => cases h
        | cons c field =>
          cases h
          simp at hq
      · rw [Text.cutAt_append hc]
    · rw [List.cons_append, List.cons_append, List.append_assoc, List.singleton_append,
        httpNextField, httpQuotedField_escapeQuotes _ (by simp)]
      rfl

theorem httpSplitFields_nil (room : ℕ) : httpSplitFields (room + 1) [] = .ok [[]] := by
  simp [httpSplitFields, httpNextField, Text.cutAt]

/-- The trailing comma is no special case: what follows it is an empty last field. -/
theorem httpSplitFields_succ (room : ℕ) (p : Text) :
    httpSplitFields (room + 1) p =
      match httpNextField p with
      | .error reject => .error reject
      | .ok (field, none) => .ok [field]
      | .ok (field, some rest) => (httpSplitFields room rest).map (field :: ·) := by
  rw [httpSplitFields]
  rcases httpNextField p with reject | ⟨field, _ | _ | ⟨c, rest⟩⟩
  · rfl
  · rfl
  · cases room with
    | zero => rfl
    | succ room =>
      simp only [httpSplitFields_nil]
      rfl
  · rfl

theorem httpSplitFields_eq_ok_iff {room : ℕ} {p : Text} {fields : List Text} :
    httpSplitFields room p = .ok fields ↔ CsvRow p fields ∧ fields.length ≤ room := by
  induction room generalizing p fields with
  | zero =>
    constructor
    · intro h
      cases h
    · rintro ⟨h, hl⟩
      cases h <;> simp at hl
  | succ room ih =>
    rw [httpSplitFields_succ]
    constructor
    · intro h
      split at h
      · cases h
      · rename_i hf
        cases h
        exact ⟨.last (httpNextField_none_iff.mp hf), by simp⟩
      · rename_i field rest hf
        cases hs : httpSplitFields room rest with
        | error e => simp [hs, Except.map] at h
        | ok fs =>
          simp only [hs, Except.map, Except.ok.injEq] at h
          obtain ⟨raw, hraw, rfl⟩ := httpNextField_some_iff.mp hf
          obtain ⟨hrow, hl⟩ := ih.mp hs
          subst h
          exact ⟨.cons hraw hrow, by simpa using hl⟩
    · rintro ⟨⟨hf⟩ | ⟨hf, hrow⟩, hl⟩
      · rw [httpNextField_none_iff.mpr hf]
      · rw [httpNextField_some_iff.mpr ⟨_, hf, rfl⟩]
        simp only [List.length_cons, Nat.add_le_add_iff_right] at hl
        simp only [ih.mpr ⟨hrow, hl⟩, Except.map]

/-! ### The reference splitter reads the same grammar -/

theorem quotedField_eq (buf p : Text) :
    (Reference.quotedField buf p).toOption =
      (httpQuotedField p).toOption.map fun (out, rest) => (buf ++ out, rest) := by
  induction buf, p using Reference.quotedField.induct with
  | case1 => rfl
  | case2 buf p ih =>
    rw [Reference.quotedField, httpQuotedField, ih]
    cases httpQuotedField p <;> simp [Except.toOption, Except.map]
  | case3 buf p hp =>
    rw [Reference.quotedField, httpQuotedField]
    · simp [Except.toOption]
    · exact hp
    · exact hp
  | case4 buf c p h₁ h₂ ih =>
    rw [Reference.quotedField, httpQuotedField, ih]
    · cases httpQuotedField p <;> simp [Except.toOption, Except.map]
    · exact h₁
    · exact h₂
    · exact h₁
    · exact h₂

theorem cutAt_eq_takeWhile (p : Text) :
    Text.cutAt ',' p = (p.takeWhile (· ≠ ','), (p.dropWhile (· ≠ ',')).tail?) := by
  induction p with
  | nil => rfl
  | cons c p ih =>
    rw [Text.cutAt]
    by_cases hc : c = ','
    · simp [hc]
    · simp [hc, ih]

theorem nextField_eq (p : Text) :
    (Reference.nextField p).toOption =
      (httpNextField p).toOption.map fun (field, next) => (field, next.elim [] (',' :: ·)) := by
  unfold Reference.nextField httpNextField
  split
  · rename_i p
    have h := quotedField_eq [] p
    simp only
    generalize httpQuotedField p = q at h ⊢
    generalize Reference.quotedField [] p = r at h ⊢
    rcases q with reject | ⟨field, _ | ⟨c, rest⟩⟩ <;> rcases r with err | ⟨field', rest'⟩ <;>
      simp only [Except.toOption, Option.map, reduceCtorEq, Option.some.injEq, Prod.mk.injEq,
        List.nil_append] at h
    · rfl
    · obtain ⟨rfl, rfl⟩ := h
      rfl
    · obtain ⟨rfl, rfl⟩ := h
      by_cases hc : c = ','
      · subst hc
        rfl
      · simp [hc, Except.toOption]
  · simp only [Except.toOption, Option.map, cutAt_eq_takeWhile, Option.some.injEq, Prod.mk.injEq,
      true_and]
    cases hd : p.dropWhile (· ≠ ',') with
    | nil => rfl
    | cons c rest =>
      have hc := List.head?_dropWhile_not (· ≠ ',') p
      simp_all

theorem splitFields_nil : Reference.splitFields [] = .ok [[]] := by
  rw [Reference.splitFields]
  rfl

theorem splitFields_eq (p : Text) :
    (Reference.splitFields p).toOption =
      match (httpNextField p).toOption with
      | none => none
      | some (field, none) => some [field]
      | some (field, some rest) => (Reference.splitFields rest).toOption.map (field :: ·) := by
  have h := nextField_eq p
  rw [Reference.splitFields]
  rcases hf : httpNextField p with reject | ⟨field, _ | rest⟩ <;> split <;> rename_i hn <;>
    simp only [hf, hn, Except.toOption, Option.map, reduceCtorEq, Option.some.injEq, Prod.mk.injEq,
      Option.elim, List.cons.injEq, and_false] at h
  · rfl
  · rw [h.1]
    rfl
  · obtain ⟨rfl, rfl, rfl⟩ := h
    simp only [Except.toOption, splitFields_nil, Option.map]
  · obtain ⟨rfl, rfl, rfl⟩ := h
    simp only [Except.toOption]
    cases Reference.splitFields _ <;> rfl

theorem toOption_eq_some {ε α : Type*} {x : Except ε α} {a : α} :
    x.toOption = some a ↔ x = .ok a := by
  cases x <;> simp [Except.toOption]

theorem splitFields_eq_ok_iff {p : Text} {fields : List Text} :
    Reference.splitFields p = .ok fields ↔ CsvRow p fields := by
  constructor
  · intro h
    induction hn : p.length using Nat.strong_induction_on generalizing p fields with
    | _ n ih =>
      subst hn
      have hp := toOption_eq_some.mpr h
      rw [splitFields_eq] at hp
      rcases hf : httpNextField p with reject | ⟨field, _ | rest⟩ <;>
        simp only [hf, Except.toOption, reduceCtorEq, Option.some.injEq] at hp
      · exact hp ▸ .last (httpNextField_none_iff.mp hf)
      · obtain ⟨fs, hfs, rfl⟩ := Option.map_eq_some_iff.mp hp
        obtain ⟨raw, hraw, rfl⟩ := httpNextField_some_iff.mp hf
        refine .cons hraw (ih rest.length ?_ (toOption_eq_some.mp hfs) rfl)
        simp only [List.length_append, List.length_cons]
        omega
  · intro h
    induction h with
    | last field =>
      rw [← toOption_eq_some, splitFields_eq, httpNextField_none_iff.mpr field]
      rfl
    | cons field row ih =>
      rw [← toOption_eq_some, splitFields_eq, httpNextField_some_iff.mpr ⟨_, field, rfl⟩]
      simp only [Except.toOption, ih, Option.map]

/-! ### The checks of the fields -/

/-- A printable ASCII character or a TAB. -/
def isPrintable (c : Char) : Bool := c == '\t' || (0x20 ≤ c.toNat && c.toNat ≤ 0x7E)

theorem isSpace_eq_isBlank {c : Char} (h : isPrintable c) : Reference.isSpace c = isBlank c := by
  have hc : ∀ d : Char, c = d ↔ c.toNat = d.toNat := fun d => Char.toNat_inj.symm
  rw [Bool.eq_iff_iff]
  simp only [isPrintable, Reference.isSpace, isBlank, Bool.or_eq_true, beq_iff_eq, hc,
    Bool.and_eq_true, decide_eq_true_eq, Char.reduceToNat] at h ⊢
  omega

theorem strip_eq_httpTrim {s : Text} (h : ∀ c ∈ s, isPrintable c) :
    Reference.strip s = httpTrim s :=
  Text.trim_congr fun c hc => isSpace_eq_isBlank (h c hc)

theorem eq_or_val_eq_of_toUpper_eq {c d : Char} (h : c.toUpper = d) :
    c = d ∨ c.val = d.val - ('A'.val - 'a'.val) := by
  unfold Char.toUpper at h
  split at h
  · right
    subst h
    exact (UInt32.add_sub_cancel _ _).symm
  · exact .inl h

theorem toUpper_eq_C {c : Char} : c.toUpper = 'C' ↔ c = 'C' ∨ c = 'c' :=
  ⟨fun h => (eq_or_val_eq_of_toUpper_eq h).imp_right Char.ext, by rintro (rfl | rfl) <;> rfl⟩

theorem toUpper_eq_D {c : Char} : c.toUpper = 'D' ↔ c = 'D' ∨ c = 'd' :=
  ⟨fun h => (eq_or_val_eq_of_toUpper_eq h).imp_right Char.ext, by rintro (rfl | rfl) <;> rfl⟩

theorem toUpper_eq_V {c : Char} : c.toUpper = 'V' ↔ c = 'V' ∨ c = 'v' :=
  ⟨fun h => (eq_or_val_eq_of_toUpper_eq h).imp_right Char.ext, by rintro (rfl | rfl) <;> rfl⟩

/-- The console's name for a medium of the reference. -/
def Reference.Media.toCat : Reference.Media → CatMedia
  | .cd => .cd
  | .dvd => .dvd

theorem catMedia_eq (m : Text) :
    (catMedia m).toOption = (Reference.parseMedia m).toOption.map Reference.Media.toCat := by
  rw [Reference.parseMedia, Reference.upper]
  match m with
  | [] => rfl
  | [c] => simp [catMedia, Except.toOption]
  | [c, d] =>
    simp only [catMedia, List.map_cons, List.map_nil, String.reduceToList, List.cons.injEq,
      toUpper_eq_C, toUpper_eq_D, and_true, reduceCtorEq, if_false, and_false]
    split_ifs <;> rfl
  | [d, v, d'] =>
    simp only [catMedia, List.map_cons, List.map_nil, String.reduceToList, List.cons.injEq,
      toUpper_eq_V, toUpper_eq_D, and_true, reduceCtorEq, if_false, and_false]
    split_ifs <;> rfl
  | a :: b :: c :: d :: m => simp [catMedia, Except.toOption]

/-! ### The check of the path -/

theorem httpCheckSegment_bind_eq_ok_iff (seg : Text) (x : Except CatReject Unit)
    (segments : List Text) (h : x = .ok () ↔ Reference.validateSegments segments = none) :
    (httpCheckSegment seg >>= fun _ => x) = .ok () ↔
      Reference.validateSegments (seg :: segments) = none := by
  rw [httpCheckSegment, Reference.validateSegments]
  by_cases h₀ : seg = []
  · simp [h₀, bind, Except.bind]
  by_cases h₁ : seg = ['.']
  · simp [h₁, bind, Except.bind]
  by_cases h₂ : seg = ['.', '.']
  · simp [h₂, bind, Except.bind]
  simpa [h₀, h₁, h₂, bind, Except.bind] using h

theorem httpCheckSegments_eq_ok_iff (path : Text) :
    httpCheckSegments path = .ok () ↔ Reference.validateSegments (path.splitOn '/') = none := by
  induction path using httpCheckSegments.induct with
  | case1 path seg h =>
    rw [httpCheckSegments, h]
    obtain ⟨rfl, hs⟩ := Text.cutAt_eq_none.mp h
    rw [List.splitOn_eq_singleton hs]
    have := httpCheckSegment_bind_eq_ok_iff path (pure ()) []
      (by simp [Reference.validateSegments, pure, Except.pure])
    rwa [bind_pure_unit] at this
  | case2 path seg rest h ih =>
    rw [httpCheckSegments, h]
    obtain ⟨rfl, hs⟩ := Text.cutAt_eq_some.mp h
    rw [List.splitOn_append_cons_self_of_not_mem hs]
    exact httpCheckSegment_bind_eq_ok_iff seg _ _ ih

theorem httpEndsWithNoCase_iff {s ext : Text} (hext : ext.map Char.toLower = ext) :
    httpEndsWithNoCase s ext = true ↔ ext <:+ Reference.lower s ∧ ext.length < s.length := by
  have hl : (Reference.lower s).length = s.length := List.length_map _
  rw [httpEndsWithNoCase, hext, Bool.and_eq_true, decide_eq_true_eq, beq_iff_eq, List.map_drop,
    List.suffix_iff_eq_drop, hl, and_comm, eq_comm]
  rfl

/-- A path that is nothing but an extension. -/
def BareExtension (path : Text) : Prop := Reference.lower path ∈ Reference.extKnown

theorem httpEndsWithNoCase_eq {path ext : Text} (hext : ext ∈ Reference.extKnown)
    (hb : ¬ BareExtension path) :
    httpEndsWithNoCase path ext = ext.isSuffixOf (Reference.lower path) := by
  have hlow : ext.map Char.toLower = ext := by
    revert ext
    decide
  rw [Bool.eq_iff_iff, httpEndsWithNoCase_iff hlow, List.isSuffixOf_iff_suffix]
  refine and_iff_left_of_imp fun hs => lt_of_le_of_ne ?_ fun hlen => hb ?_
  · simpa [Reference.lower] using hs.length_le
  · rw [BareExtension, ← hs.eq_of_length (by simpa [Reference.lower] using hlen)]
    exact hext

theorem not_httpEndsWithNoCase {path ext : Text} (hext : ext ∈ Reference.extKnown)
    (hb : BareExtension path) : httpEndsWithNoCase path ext = false := by
  have hlen : ∀ e ∈ Reference.extKnown, e.length = 4 := by decide
  have hpath : path.length = 4 := by
    rw [← hlen _ hb, Reference.lower, List.length_map]
  simp [httpEndsWithNoCase, hpath, hlen ext hext]

/-- **The path checks differ on bare extensions only.** The console asks for a proper suffix. -/
theorem httpCheckPath_eq_ok_iff (path : Text) :
    httpCheckPath path = .ok () ↔
      Reference.validatePath path = none ∧ ¬ BareExtension path := by
  have hseg := httpCheckSegments_eq_ok_iff path
  have hroot : "/".toList <+: path ↔ path.head? = some '/' := by
    cases path <;> simp [eq_comm]
  have hback : "\\".toList <:+: path ↔ path.contains '\\' = true := by
    rw [List.contains_iff_mem]
    exact List.singleton_infix_iff _ _
  have hctl : Reference.hasControlChars path = httpHasControlChars path := rfl
  have hmax : Reference.catalogPathMax = catPathMax := rfl
  simp only [httpCheckPath, Reference.validatePath, hroot, hback, hctl, hmax]
  rcases hs : httpCheckSegments path with reject | ⟨⟩
  · have hv : Reference.validateSegments (path.splitOn '/') ≠ none := by simp [← hseg, hs]
    obtain ⟨err, hv⟩ := Option.ne_none_iff_exists'.mp hv
    simp only [hv]
    split_ifs <;> simp
  simp only [hseg.mp hs]
  have hiso : ".iso".toList ∈ Reference.extKnown := by decide
  have hzso : ".zso".toList ∈ Reference.extKnown := by decide
  by_cases hb : BareExtension path
  · simp only [not_httpEndsWithNoCase hiso hb, not_httpEndsWithNoCase hzso hb, hb, not_true,
      and_false, Bool.not_false, Bool.and_self, if_true]
    split_ifs <;> simp
  · have hany : (!Reference.extKnown.any fun ext => ext.isSuffixOf (Reference.lower path)) =
        (!httpEndsWithNoCase path ".iso".toList && !httpEndsWithNoCase path ".zso".toList) := by
      simp only [httpEndsWithNoCase_eq hiso hb, httpEndsWithNoCase_eq hzso hb, Reference.extKnown,
        List.any_cons, List.any_nil, Bool.or_false, Bool.not_or]
    simp only [hany, hb]
    split_ifs <;> simp

/-- Both parsers derive the same title and path. -/
theorem parsePath_eq (title field : Text) :
    Reference.parsePath title field = ((catPath title field).1, (catPath title field).2.2) := by
  rw [Reference.parsePath, catPath]
  by_cases hf : field = []
  · have h : ∀ ext : Text, ext.map Char.toLower = ext →
        (ext.isSuffixOf (Reference.lower title) && decide (ext.length < title.length)) =
          httpEndsWithNoCase title ext := by
      intro ext hext
      rw [Bool.eq_iff_iff, httpEndsWithNoCase_iff hext]
      simp
    simp only [hf, ne_eq, not_true, if_false, Reference.splitExtension, Reference.extKnown,
      List.find?_cons, List.find?_nil, h _ (show ".iso".toList.map Char.toLower = _ from rfl),
      h _ (show ".zso".toList.map Char.toLower = _ from rfl)]
    cases httpEndsWithNoCase title ".iso".toList <;>
      cases httpEndsWithNoCase title ".zso".toList <;> rfl
  · simp [hf]

/-- A derived path is never a bare extension. -/
theorem not_bareExtension_catPath {title : Text} (h : title ≠ []) :
    ¬ BareExtension (catPath title []).2.2 := by
  intro hb
  have hlen : ∀ e ∈ Reference.extKnown, e.length = 4 := by decide
  have hl := hlen _ hb
  have ht := List.length_pos_iff.mpr h
  simp only [Reference.lower, List.length_map, catPath, ne_eq, not_true, if_false] at hl
  split_ifs at hl with he
  · have : 4 < title.length := by
      simp only [httpEndsWithNoCase, Bool.or_eq_true, Bool.and_eq_true, decide_eq_true_eq] at he
      exact he.elim And.left And.left
    simp only [List.length_append, List.length_take, List.length_map, List.length_drop] at hl
    omega
  · simp only [List.length_append, String.reduceToList, List.length_cons, List.length_nil] at hl
    omega

/-! ### The two parsers -/

/-- What a parser does with a line. -/
inductive Outcome
  | skip
  | reject
  | accept (startup path name : Text) (media : CatMedia) (supported : Bool)
  deriving DecidableEq, Repr

/-- The outcome of `httpCatalogParseLine`. -/
def consoleParse (line : Text) : Outcome :=
  match httpCatalogParseLine line with
  | .error _ => .reject
  | .ok row => .accept row.startup row.path row.title row.media row.supported

/-- The outcome of `parse_line`. -/
def referenceParse (line : Text) : Outcome :=
  match Reference.parseLine line with
  | .error _ => .reject
  | .ok row => .accept row.startup row.path row.title row.media.toCat row.supported

/-- What the console does with a line of the catalog. -/
def consoleLine (line : Text) : Outcome :=
  match httpCatalogSkipBlankOrComment line with
  | none => .skip
  | some line => consoleParse line

/-- What the reference does with a line of the catalog. -/
def referenceLine (line : Text) : Outcome :=
  match Reference.strippedLine line with
  | none => .skip
  | some line => referenceParse line

/-- The checks both parsers make on the startup and the title. -/
def namesOk (startup title : Text) : Prop :=
  startup ≠ [] ∧ httpHasControlChars startup = false ∧ startup.length ≤ catStartupMax ∧
    httpHasControlChars title = false ∧ title.length ≤ catTitleMax

instance (startup title : Text) : Decidable (namesOk startup title) :=
  inferInstanceAs (Decidable (_ ∧ _))

/-- What both parsers do with the fields of a row, given the path check. -/
def rowOutcome (pathOk : Text → Bool) (isIso : Text → Bool) (fields : List Text) : Outcome :=
  let startup := httpTrim (fields.getD 0 [])
  let title := catTitle startup (httpTrim (fields.getD 1 []))
  let row := catPath title (httpTrim (fields.getD 3 []))
  if namesOk startup title then
    match (catMedia (httpTrim (fields.getD 2 []))).toOption with
    | none => .reject
    | some media =>
      if pathOk row.2.2 then .accept startup row.2.2 row.1 media (isIso row.2.2) else .reject
  else .reject

section

variable {line : Text} {fields : List Text}

theorem consoleParse_eq (hs : httpSplitFields csvMaxFields line = .ok fields) :
    consoleParse line =
      rowOutcome (fun p => decide (httpCheckPath p = .ok ()))
        (httpEndsWithNoCase · ".iso".toList) fields := by
  rw [consoleParse, httpCatalogParseLine, hs, rowOutcome]
  simp only [bind, Except.bind, pure, Except.pure, throw, throwThe, MonadExceptOf.throw]
  generalize httpTrim (fields.getD 0 []) = startup
  generalize catTitle startup _ = title
  generalize catPath title _ = row
  generalize httpTrim (fields.getD 2 []) = m
  by_cases hn : namesOk startup title
  · obtain ⟨h₁, h₂, h₃, h₄, h₅⟩ := id hn
    simp only [if_pos hn, h₁, h₂, h₃.not_gt, h₄, h₅.not_gt, if_false]
    rcases hm : catMedia m with reject | media
    · rfl
    · rcases hp : httpCheckPath row.2.2 with reject | ⟨⟩ <;> simp [Except.toOption]
  · rw [if_neg hn]
    split_ifs with h₁ h₂ h₃ h₄ h₅
    iterate 5 rfl
    exact absurd ⟨h₁, by simpa using h₂, by simpa using h₃, by simpa using h₄,
      by simpa using h₅⟩ hn

theorem referenceParse_eq (hs : Reference.splitFields line = .ok fields)
    (hl : fields.length ≤ 4) (hp : ∀ f ∈ fields, ∀ c ∈ f, isPrintable c) :
    referenceParse line =
      rowOutcome (fun p => decide (Reference.validatePath p = none))
        (".iso".toList.isSuffixOf <| Reference.lower ·) fields := by
  have hstrip : ∀ i, Reference.strip (fields.getD i []) = httpTrim (fields.getD i []) := by
    intro i
    refine strip_eq_httpTrim ?_
    rcases lt_or_ge i fields.length with hi | hi
    · rw [List.getD_eq_getElem?_getD, List.getElem?_eq_getElem hi]
      exact hp _ (List.getElem_mem hi)
    · simp [List.getElem?_eq_none hi]
  have htitle : ∀ startup field,
      (Reference.parseTitle startup field).1 = catTitle startup field := by
    intro startup field
    rw [Reference.parseTitle, catTitle]
    split_ifs <;> rfl
  have hctl : Reference.hasControlChars = httpHasControlChars := rfl
  have hs₁ : Reference.gameStartupMax = catStartupMax := rfl
  have hs₂ : Reference.isoGameNameMax = catTitleMax := rfl
  rw [referenceParse, Reference.parseLine, hs, rowOutcome]
  simp only [bind, Except.bind, pure, Except.pure, throw, throwThe, MonadExceptOf.throw, hstrip,
    htitle, hctl, hs₁, hs₂, parsePath_eq, hl.not_gt, if_false, catMedia_eq]
  generalize httpTrim (fields.getD 0 []) = startup
  generalize catTitle startup _ = title
  generalize catPath title _ = row
  generalize httpTrim (fields.getD 2 []) = m
  by_cases hn : namesOk startup title
  · obtain ⟨h₁, h₂, h₃, h₄, h₅⟩ := id hn
    simp only [if_pos hn, h₁, h₂, h₃.not_gt, h₄, h₅.not_gt, if_false]
    rcases hm : Reference.parseMedia m with reject | media
    · rfl
    · rcases hp : Reference.validatePath row.2.2 with _ | err <;> simp [Except.toOption]
  · rw [if_neg hn]
    split_ifs with h₁ h₂ h₃ h₄ h₅
    iterate 5 rfl
    all_goals exact absurd ⟨h₁, by simpa using h₂, by simpa using h₃, by simpa using h₄,
      by simpa using h₅⟩ hn
end

/-- A row of four fields that passes every check before the path, and whose path is nothing but
an extension. -/
def BareExtensionRow (line : Text) : Prop :=
  ∃ startup title media path, CsvRow line [startup, title, media, path] ∧
    namesOk (httpTrim startup) (catTitle (httpTrim startup) (httpTrim title)) ∧
    (catMedia (httpTrim media)).isOk = true ∧ BareExtension (httpTrim path)

theorem eq_or_val_eq_of_toLower_eq {c d : Char} (h : c.toLower = d) :
    c = d ∨ c.val = d.val - ('a'.val - 'A'.val) := by
  unfold Char.toLower at h
  split at h
  · right
    subst h
    exact (UInt32.add_sub_cancel _ _).symm
  · exact .inl h

/-- The reference accepts every bare extension. -/
theorem validatePath_of_bareExtension {path : Text} (h : BareExtension path) :
    Reference.validatePath path = none := by
  have hdot : ∀ c : Char, c.toLower = '.' → c = '.' := fun c hc =>
    (eq_or_val_eq_of_toLower_eq hc).resolve_right fun hv => by
      rw [show c = Char.ofNat 14 from Char.ext hv] at hc
      exact absurd hc (by decide)
  have hcase : ∀ c d e : Char, e.val = d.val - ('a'.val - 'A'.val) → c.toLower = d →
      c = d ∨ c = e := fun c d e he hc =>
    (eq_or_val_eq_of_toLower_eq hc).imp_right fun hv => Char.ext (hv.trans he.symm)
  simp only [BareExtension, Reference.lower, Reference.extKnown, List.mem_cons, List.not_mem_nil,
    or_false, String.reduceToList, List.map_eq_cons_iff, List.map_eq_nil_iff] at h
  obtain ⟨c₀, _, rfl, h₀, c₁, _, rfl, h₁, c₂, _, rfl, h₂, c₃, _, rfl, h₃, rfl⟩ |
    ⟨c₀, _, rfl, h₀, c₁, _, rfl, h₁, c₂, _, rfl, h₂, c₃, _, rfl, h₃, rfl⟩ := h
  · obtain rfl := hdot _ h₀
    obtain rfl | rfl := hcase _ _ 'I' rfl h₁ <;> obtain rfl | rfl := hcase _ _ 'S' rfl h₂ <;>
      obtain rfl | rfl := hcase _ _ 'O' rfl h₃ <;> decide
  · obtain rfl := hdot _ h₀
    obtain rfl | rfl := hcase _ _ 'Z' rfl h₁ <;> obtain rfl | rfl := hcase _ _ 'S' rfl h₂ <;>
      obtain rfl | rfl := hcase _ _ 'O' rfl h₃ <;> decide

theorem bareExtension_catPath_iff {title field : Text} (h : title ≠ []) :
    BareExtension (catPath title field).2.2 ↔ BareExtension field := by
  by_cases hf : field = []
  · subst hf
    exact iff_of_false (not_bareExtension_catPath h) (by rw [BareExtension]; decide)
  · rw [catPath, if_pos hf]

theorem rowOutcome_eq_iff (fields : List Text) :
    rowOutcome (fun p => decide (httpCheckPath p = .ok ()))
          (httpEndsWithNoCase · ".iso".toList) fields =
        rowOutcome (fun p => decide (Reference.validatePath p = none))
          (".iso".toList.isSuffixOf <| Reference.lower ·) fields ↔
      ¬ (namesOk (httpTrim (fields.getD 0 []))
            (catTitle (httpTrim (fields.getD 0 [])) (httpTrim (fields.getD 1 []))) ∧
          (catMedia (httpTrim (fields.getD 2 []))).isOk = true ∧
          BareExtension (httpTrim (fields.getD 3 []))) := by
  simp only [rowOutcome, decide_eq_true_eq]
  generalize httpTrim (fields.getD 0 []) = startup
  generalize httpTrim (fields.getD 1 []) = title
  generalize httpTrim (fields.getD 2 []) = m
  generalize httpTrim (fields.getD 3 []) = field
  by_cases hn : namesOk startup (catTitle startup title)
  · have htitle : catTitle startup title ≠ [] := by
      rw [catTitle]
      split_ifs with h
      · exact h
      · exact hn.1
    rw [if_pos hn, if_pos hn, ← bareExtension_catPath_iff htitle]
    generalize catPath (catTitle startup title) field = row
    rcases hm : catMedia m with reject | media
    · simp [Except.toOption, Except.isOk, Except.toBool]
    by_cases hb : BareExtension row.2.2
    · simp [Except.toOption, Except.isOk, Except.toBool, hn, hb, httpCheckPath_eq_ok_iff,
        validatePath_of_bareExtension hb]
    · have hiso : ".iso".toList ∈ Reference.extKnown := by decide
      simp only [Except.toOption, hb, httpCheckPath_eq_ok_iff, httpEndsWithNoCase_eq hiso hb,
        not_false_eq_true, and_true, and_false]
  · simp only [hn, false_and, not_false_eq_true, if_false]

theorem mem_of_mem_escapeQuotes {s : Text} {c : Char} (h : c ∈ s) : c ∈ escapeQuotes s := by
  induction s using escapeQuotes.induct with
  | case1 => exact h
  | case2 s ih =>
    rw [escapeQuotes]
    grind
  | case3 d s hd ih =>
    rw [escapeQuotes]
    · grind
    · exact hd

theorem mem_line_of_mem_field {line : Text} {fields : List Text} (h : CsvRow line fields) :
    ∀ f ∈ fields, ∀ c ∈ f, c ∈ line := by
  have hfield : ∀ {raw value : Text}, CsvField raw value → ∀ c ∈ value, c ∈ raw := by
    rintro raw value (_ | ⟨s⟩) c hc
    · exact hc
    · simp [mem_of_mem_escapeQuotes hc]
  induction h with
  | last field =>
    intro f hf c hc
    rw [List.mem_singleton] at hf
    exact hfield field c (hf ▸ hc)
  | cons field row ih =>
    intro f hf c hc
    rw [List.mem_append, List.mem_cons]
    rcases List.mem_cons.mp hf with rfl | hf
    · exact .inl (hfield field c hc)
    · exact .inr (.inr (ih f hf c hc))

/-- The two line parsers, on any line. -/
theorem consoleParse_eq_referenceParse_iff {line : Text} (h : ∀ c ∈ line, isPrintable c) :
    consoleParse line = referenceParse line ↔ ¬ BareExtensionRow line := by
  rcases hs : httpSplitFields csvMaxFields line with reject | fields
  · have hc : consoleParse line = .reject := by
      rw [consoleParse, httpCatalogParseLine, hs]
      rfl
    have hrow : ∀ fields, CsvRow line fields → 4 < fields.length := by
      intro fields hf
      by_contra hl
      have := httpSplitFields_eq_ok_iff.mpr ⟨hf, not_lt.mp hl⟩
      simp [csvMaxFields, this] at hs
    have hr : referenceParse line = .reject := by
      rw [referenceParse, Reference.parseLine]
      rcases hf : Reference.splitFields line with err | fields
      · rfl
      · simp only [bind, Except.bind, throw, throwThe, MonadExceptOf.throw,
          if_pos (hrow fields (splitFields_eq_ok_iff.mp hf))]
    rw [hc, hr, eq_self, true_iff]
    rintro ⟨startup, title, media, path, hf, -⟩
    exact absurd (hrow _ hf) (by simp)
  · obtain ⟨hf, hl⟩ := httpSplitFields_eq_ok_iff.mp hs
    rw [consoleParse_eq hs, referenceParse_eq (splitFields_eq_ok_iff.mpr hf) hl
      fun f hmem c hc => h c (mem_line_of_mem_field hf f hmem c hc), rowOutcome_eq_iff, not_iff_not]
    constructor
    · rintro ⟨hn, hm, hb⟩
      have hnil : ¬ BareExtension (httpTrim []) := by
        rw [BareExtension]
        decide
      match fields, hl with
      | [startup, title, media, path], _ => exact ⟨_, _, _, _, hf, hn, hm, hb⟩
      | [], _ | [_], _ | [_, _], _ | [_, _, _], _ => exact absurd hb hnil
      | _ :: _ :: _ :: _ :: _ :: _, hl =>
        simp only [csvMaxFields, List.length_cons] at hl
        omega
    · rintro ⟨startup, title, media, path, hf', hn, hm, hb⟩
      have heq := (splitFields_eq_ok_iff.mpr hf).symm.trans (splitFields_eq_ok_iff.mpr hf')
      cases heq
      exact ⟨hn, hm, hb⟩

theorem httpCatalogSkipBlankOrComment_eq (line : Text) :
    httpCatalogSkipBlankOrComment line = Reference.strippedLine line := by
  have hb : (fun c => c == ' ' || c == '\t') = isBlank := rfl
  rw [httpCatalogSkipBlankOrComment, Reference.strippedLine, hb]
  rcases line.dropWhile isBlank with _ | ⟨c, rest⟩
  · rfl
  · by_cases hc : c = '#'
    · subst hc
      rfl
    · simp [hc, Ne.symm hc]

/-- **The two parsers agree, up to bare extensions.** On every line of printable ASCII characters
and TABs, `httpCatalogParseLine` and `parse_line` reject alike and accept with the same row, and
so do the two programs with the skip step before them, exactly when the line is not a row of four
valid fields whose path is nothing but an extension. -/
theorem catalog_parsers_agree_iff (line : Text) (h : ∀ c ∈ line, isPrintable c) :
    (consoleParse line = referenceParse line ↔ ¬ BareExtensionRow line) ∧
      (consoleLine line = referenceLine line ↔
        ∀ row, httpCatalogSkipBlankOrComment line = some row → ¬ BareExtensionRow row) := by
  refine ⟨consoleParse_eq_referenceParse_iff h, ?_⟩
  rw [consoleLine, referenceLine, ← httpCatalogSkipBlankOrComment_eq]
  rcases hs : httpCatalogSkipBlankOrComment line with _ | row
  · simp
  · have hrow : ∀ c ∈ row, isPrintable c := by
      intro c hc
      rw [httpCatalogSkipBlankOrComment] at hs
      refine h c ((List.dropWhile_sublist isBlank).subset ?_)
      split at hs <;> simp_all
    simp [consoleParse_eq_referenceParse_iff hrow]

/-- A row with leading blanks, a quoted title and no path. -/
def quotedLine : Text := " SLUS_200.02,\"Ridge, V\",cd".toList

theorem catalog_parsers_agree_on_quotedLine :
    (∀ c ∈ quotedLine, isPrintable c) ∧
      (consoleParse quotedLine = referenceParse quotedLine ↔ ¬ BareExtensionRow quotedLine) ∧
      (consoleLine quotedLine = referenceLine quotedLine ↔
        ∀ row, httpCatalogSkipBlankOrComment quotedLine = some row → ¬ BareExtensionRow row) :=
  ⟨by decide, catalog_parsers_agree_iff quotedLine (by decide)⟩

/-- A row of four valid fields whose path is an extension. -/
def bareLine : Text := "SLUS_200.02,Ridge Racer V,DVD,.ISO".toList

/-- On `bareLine` the console rejects and the reference accepts. -/
theorem not_catalog_parsers_agree :
    (∀ c ∈ bareLine, isPrintable c) ∧ consoleLine bareLine = .reject ∧
      referenceLine bareLine =
        .accept "SLUS_200.02".toList ".ISO".toList "Ridge Racer V".toList .dvd true := by
  have hs : httpSplitFields csvMaxFields bareLine =
      .ok ["SLUS_200.02".toList, "Ridge Racer V".toList, "DVD".toList, ".ISO".toList] := rfl
  obtain ⟨hrow, hl⟩ := httpSplitFields_eq_ok_iff.mp hs
  have hb : BareExtension ".ISO".toList := by
    rw [BareExtension]
    decide
  refine ⟨by decide, ?_, ?_⟩
  · have hc : consoleLine bareLine = consoleParse bareLine := rfl
    have hp : httpCheckPath ".ISO".toList ≠ .ok () := fun h =>
      ((httpCheckPath_eq_ok_iff _).mp h).2 hb
    have hr : ∀ pathOk isIso : Text → Bool, rowOutcome pathOk isIso
        ["SLUS_200.02".toList, "Ridge Racer V".toList, "DVD".toList, ".ISO".toList] =
        if pathOk ".ISO".toList then
          .accept "SLUS_200.02".toList ".ISO".toList "Ridge Racer V".toList .dvd
            (isIso ".ISO".toList)
        else .reject := fun _ _ => rfl
    rw [hc, consoleParse_eq hs, hr, decide_eq_false hp]
    rfl
  · have hc : referenceLine bareLine = referenceParse bareLine := rfl
    rw [hc, referenceParse_eq (splitFields_eq_ok_iff.mpr hrow) hl (by decide)]
    decide

end Catalog

end OpenPS2Loader
