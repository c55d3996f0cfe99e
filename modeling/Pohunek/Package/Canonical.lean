/-
# One stream per list of entries

The reader accepts exactly the streams the writer makes. Both are compared with
one description of a list of entries (`Listed`: valid paths in strictly
ascending order that do not collide, sizes within the limits) and of its bytes
(`stream`): `parseTar_ok_iff` and `buildTar_ok_iff`. The reader compares each
header with the one it would write, so what is left is that the fields of a
written header read back (`nameOf_headerBlock` and the lemmas beside it).

Key theorems: `parseEntry_ok_iff`, `parseTar_ok_iff`, `buildTar_ok_iff`,
`canonical_archive`.
-/
import Pohunek.Package.Archive

namespace Pohunek.Package

open Block Fallible List

/-! ### The header reads back -/

theorem octalField_length {width value : ℕ} (h : 0 < width) :
    (octalField width value).length = width := by
  simp only [octalField, length_append, length_map, digits_length, length_singleton]
  omega

theorem octalDigit_digit : ∀ d < 8, octalDigit (48 + d.toUInt8) = some d := by decide

/-- Digits that make a number of 64 bits are parsed. -/
theorem foldlM_pushOctal : ∀ {ds : List ℕ} {value : ℕ}, (∀ d ∈ ds, d < 8) →
    ds.foldl (fun value d => value * 8 + d) value < 2 ^ 64 →
    (ds.map fun d => 48 + d.toUInt8).foldlM pushOctal value =
    some (ds.foldl (fun value d => value * 8 + d) value)
  | [], _, _, _ => rfl
  | d :: ds, value, hdigits, hbound => by
    have hd := octalDigit_digit d (hdigits d mem_cons_self)
    have hle : ∀ (ds : List ℕ) (value : ℕ),
      value ≤ ds.foldl (fun value d => value * 8 + d) value := by
      intro ds
      induction ds with
      | nil => exact fun value => Nat.le_refl value
      | cons d ds ih =>
        intro value
        have hstep := ih (value * 8 + d)
        rw [foldl_cons]
        omega
    have hfirst : value * 8 + d < 2 ^ 64 := Nat.lt_of_le_of_lt (hle ds _) hbound
    have hpush : pushOctal value (48 + d.toUInt8) = some (value * 8 + d) := by
      rw [pushOctal, hd, Option.bind_some, if_pos hfirst]
    rw [map_cons, foldlM_cons, hpush]
    exact foldlM_pushOctal (fun e he => hdigits e (mem_cons_of_mem _ he)) hbound

theorem parseOctal_octalField {width value : ℕ} (hwidth : 2 ≤ width)
    (hvalue : value < 8 ^ (width - 1)) (hbound : value < 2 ^ 64) :
    parseOctal (octalField width value) = some value := by
  have hvalue' : (digits 8 (width - 1) value).foldl (fun value d => value * 8 + d) 0 = value :=
    ofDigits_digits hvalue
  have hne : (digits 8 (width - 1) value).map (fun d => 48 + d.toUInt8) ≠ [] := by
    rw [← length_pos_iff, length_map, digits_length]
    omega
  rw [parseOctal, octalField, getLast?_append_of_ne_nil _ (by simp), dropLast_concat, if_neg]
  · rw [foldlM_pushOctal (fun d hd => digits_lt (by decide) hd) (hvalue'.symm ▸ hbound), hvalue']
  · rintro (h | h)
    · exact h rfl
    · exact hne h

section Header

variable (name : Bytes) (size : ℕ) (executable : Bool)

/-- Where the fields behind the name lie. -/
def headerSpans : List (ℕ × ℕ) :=
  [(100, 8), (108, 8), (116, 8), (124, 12), (136, 12), (156, 1), (257, 6), (263, 2),
    (329, 8), (337, 8)]

theorem headerFields_spans :
    ((headerFields name size executable).drop 1).map
    (fun f => (f.1, f.2.length)) = headerSpans := by
  have hshort : ∀ value, (octalField shortFieldBytes value).length = 8 :=
    fun value => octalField_length (by decide)
  have hlong : ∀ value, (octalField sizeFieldBytes value).length = 12 :=
    fun value => octalField_length (by decide)
  simp only [headerFields, drop_succ_cons, drop_zero, map_cons, map_nil, hshort, hlong]
  rfl

variable {name}

theorem zeros_length (n : ℕ) : (zeros n).length = n := length_replicate

theorem headerFields_fit (hname : name.length ≤ nameBytes) :
    ∀ f ∈ headerFields name size executable, f.1 + f.2.length ≤ (zeros blockBytes).length := by
  have hspans : ∀ s ∈ headerSpans, s.1 + s.2 ≤ blockBytes := by decide
  have hcut : headerFields name size executable = (0, name) ::
    (headerFields name size executable).drop 1 := rfl
  intro f hf
  rw [zeros_length]
  rw [hcut] at hf
  rcases mem_cons.mp hf with rfl | hf
  · have hle : nameBytes ≤ blockBytes := by decide
    show 0 + name.length ≤ blockBytes
    omega
  · rw [← headerFields_spans name size executable] at hspans
    exact hspans _ (mem_map_of_mem hf)

theorem fields_length (hname : name.length ≤ nameBytes) :
    (writeFields (zeros blockBytes) (headerFields name size executable)).length = 512 := by
  rw [writeFields_length (headerFields_fit size executable hname), zeros_length]
  rfl

theorem checksum_length (value : ℕ) :
    (octalField (checksumFieldBytes - 1) value ++ [32]).length = 8 := by
  rw [length_append, octalField_length (by decide)]
  rfl

section

variable (hname : name.length ≤ nameBytes)
include hname

theorem spaces_length :
    (splice (writeFields (zeros blockBytes) (headerFields name size executable)) checksumOffset
      (List.replicate checksumFieldBytes 32)).length = 512 := by
  have hfields := fields_length size executable hname
  rw [splice_length, hfields]
  rw [hfields, length_replicate]
  decide

theorem headerBlock_length : (headerBlock name size executable).length = 512 := by
  have hspaces := spaces_length size executable hname
  simp only [headerBlock]
  rw [splice_length, hspaces]
  rw [checksum_length, hspaces]
  decide

/-- What lies outside of the checksum is that of the fields. -/
theorem slice_headerBlock {o w : ℕ} (h : o + w ≤ 148 ∨ 156 ≤ o) :
    slice (headerBlock name size executable) o w =
      slice (writeFields (zeros blockBytes) (headerFields name size executable)) o w := by
  have hfields := fields_length size executable hname
  have hreplicate : (List.replicate checksumFieldBytes (32 : UInt8)).length = 8 := length_replicate
  have hoffset : checksumOffset = 148 := rfl
  have hspaces := spaces_length size executable hname
  simp only [headerBlock]
  rcases h with hbefore | hafter
  · have hbefore' : o + w ≤ checksumOffset := hbefore
    rw [slice_splice_before (by rw [hspaces]; decide) hbefore',
      slice_splice_before (by rw [hfields]; decide) hbefore']
  · rw [slice_splice_after, slice_splice_after]
    · rw [hfields, hreplicate]
      decide
    · rw [hreplicate]
      exact hafter
    · rw [checksum_length, hspaces]
      decide
    · rw [checksum_length]
      exact hafter

/-- The `k`-th field behind the name is read back from the header. -/
theorem slice_headerField (k : ℕ) {f : ℕ × Bytes} {gs : List (ℕ × Bytes)}
    (hcut : (headerFields name size executable).drop (k + 1) = f :: gs) {o w : ℕ}
    {rest : List (ℕ × ℕ)} (hspans : headerSpans.drop k = (o, w) :: rest)
    (hapart : ∀ s ∈ rest, o + w ≤ s.1) (hsum : o + w ≤ 148 ∨ 156 ≤ o) :
    slice (headerBlock name size executable) o w = f.2 := by
  have hspan : (f.1, f.2.length) :: gs.map (fun g => (g.1, g.2.length)) = (o, w) :: rest := by
    rw [← hspans, ← headerFields_spans name size executable, ← map_drop, drop_drop,
      Nat.add_comm 1 k, hcut]
    rfl
  obtain ⟨hfirst, hrest⟩ := List.cons.inj hspan
  cases hfirst
  have hsplit : headerFields name size executable = (headerFields name size executable).take
    (k + 1) ++ f :: gs := by
    rw [← hcut, take_append_drop]
  rw [slice_headerBlock size executable hname hsum, hsplit]
  apply slice_field
  · rw [← hsplit]
    exact headerFields_fit size executable hname
  · intro g hg
    left
    rw [← hrest] at hapart
    exact hapart _ (mem_map_of_mem hg)

/-- The name is followed by zeros up to the mode. -/
theorem take_headerBlock :
    (headerBlock name size executable).take nameBytes = name ++ zeros
    (nameBytes - name.length) := by
  have hfit := headerFields_fit size executable hname
  have hcut : headerFields name size executable = [(0, name)] ++
    (headerFields name size executable).drop 1 := rfl
  have hfirst : writeFields (zeros blockBytes) [(0, name)] = name ++
    zeros (blockBytes - name.length) := by
    simp only [writeFields, foldl_cons, foldl_nil, splice, take_zero, nil_append,
      Nat.zero_add, zeros, drop_replicate]
  -- every other field lies behind the name
  have hbehind : ∀ s ∈ headerSpans, nameBytes ≤ s.1 := by decide
  rw [← headerFields_spans name size executable] at hbehind
  have hslice : slice (writeFields (zeros blockBytes) (headerFields name size executable)) 0
      nameBytes = slice (name ++ zeros (blockBytes - name.length)) 0 nameBytes := by
    conv_lhs => rw [hcut, writeFields_append]
    rw [slice_writeFields, hfirst]
    · intro f hf
      rw [writeFields_length]
      · exact hfit f (mem_of_mem_drop hf)
      · intro g hg
        rw [hcut] at hfit
        exact hfit g (mem_append_left _ hg)
    · exact fun f hf => .inl (hbehind _ (mem_map_of_mem hf))
  have hblock := slice_headerBlock size executable hname (o := 0) (w := nameBytes)
    (.inl (by decide))
  rw [hslice] at hblock
  simp only [slice, drop_zero] at hblock
  have hle : nameBytes ≤ blockBytes := by decide
  have hmin : min (nameBytes - name.length) (blockBytes - name.length) =
    nameBytes - name.length := by omega
  rw [hblock, take_append, take_of_length_le hname, zeros, take_replicate, hmin, zeros]

theorem nameOf_headerBlock (hnul : 0 ∉ name) :
    nameOf (headerBlock name size executable) = name := by
  rw [nameOf, take_headerBlock size executable hname, takeWhile_append_of_pos]
  · have hnone : (zeros (nameBytes - name.length)).takeWhile (fun b => decide (b ≠ 0)) = [] := by
      cases nameBytes - name.length with
      | zero => rfl
      | succ n => simp [zeros, replicate_succ]
    rw [hnone, append_nil]
  · intro b hb
    rw [decide_eq_true_eq]
    rintro rfl
    exact hnul hb

theorem parseOctal_sizeField (hsize : size ≤ maxSizeFieldValue) :
    parseOctal (sizeField (headerBlock name size executable)) = some size := by
  have hfield : slice (headerBlock name size executable) 124 12 = octalField sizeFieldBytes size :=
    slice_headerField size executable hname 3 rfl rfl (by decide) (by decide)
  have hoctal : maxSizeFieldValue < 8 ^ (sizeFieldBytes - 1) := by decide
  have hbits : maxSizeFieldValue < 2 ^ 64 := by decide
  rw [sizeField]
  show parseOctal (slice (headerBlock name size executable) 124 12) = some size
  rw [hfield]
  exact parseOctal_octalField (by decide) (hsize.trans_lt hoctal) (hsize.trans_lt hbits)

theorem modeIsExecutable_headerBlock :
    modeIsExecutable (headerBlock name size executable) = executable := by
  have hfield : slice (headerBlock name size executable) 100 8 =
      octalField shortFieldBytes (if executable then modeExecutable else modeFile) :=
    slice_headerField size executable hname 0 rfl rfl (by decide) (by decide)
  rw [modeIsExecutable]
  show decide (parseOctal (slice (headerBlock name size executable) 100 8) = some modeExecutable) =
    executable
  rw [hfield]
  cases executable
  · decide
  · decide

theorem typeflag_headerBlock :
    (headerBlock name size executable)[typeflagOffset]? = some typeflagRegular := by
  have hfield : slice (headerBlock name size executable) 156 1 = [typeflagRegular] :=
    slice_headerField size executable hname 5 rfl rfl (by decide) (by decide)
  have hzero := congrArg (·[0]?) hfield
  show (headerBlock name size executable)[156]? = _
  simpa only [slice, getElem?_take_of_lt Nat.zero_lt_one, getElem?_drop, Nat.add_zero,
    getElem?_cons_zero] using hzero

/-- A header is no zero block. -/
theorem headerBlock_nonzero :
    (headerBlock name size executable).all (· = 0) = false := by
  have hflag := mem_of_getElem? (typeflag_headerBlock size executable hname)
  rw [all_eq_false]
  exact ⟨_, hflag, by decide⟩

end

end Header

theorem encodeHeader_ok_iff {name block : Bytes} {size : ℕ} {executable : Bool} :
    encodeHeader name size executable = .ok block ↔
      name.length ≤ nameBytes ∧ size ≤ maxSizeFieldValue ∧
      block = headerBlock name size executable := by
  unfold encodeHeader
  split_ifs with hname hsize
  · exact ⟨nofun, fun h => absurd h.1 (Nat.not_le_of_lt hname)⟩
  · exact ⟨nofun, fun h => absurd h.2.1 (Nat.not_le_of_lt hsize)⟩
  · refine ⟨fun h => ⟨Nat.le_of_not_lt hname, Nat.le_of_not_lt hsize, (Except.ok.inj h).symm⟩,
      fun h => ?_⟩
    rw [h.2.2]

/-! ### Paths -/

/-- A path `validate_path` accepts. -/
structure ValidPath (limits : Limits) (path : Bytes) : Prop where
  nonempty : path ≠ []
  length : path.length ≤ min limits.maxPathBytes nameBytes
  text : utf8 path
  relative : path.head? ≠ some slash
  segments : ∀ segment ∈ path.splitOn slash, segment ≠ [] ∧ segment ≠ [46] ∧ segment ≠ [46, 46] ∧
    ∀ byte ∈ segment, isPathByte byte

theorem checkSegment_ok_iff {segment : Bytes} {u : Unit} : checkSegment segment = .ok u ↔
    segment ≠ [] ∧ segment ≠ [46] ∧ segment ≠ [46, 46] ∧ ∀ byte ∈ segment, isPathByte byte := by
  simp only [checkSegment, bind_ok_iff, require_ok_iff, exists_const, Bool.not_eq_true',
    isEmpty_eq_false_iff, Bool.and_eq_true, bne_iff_ne, all_eq_true, and_assoc]

variable {path : Bytes} {limits : Limits}

theorem validatePath_ok_iff {raw : Bytes} :
    validatePath limits raw = .ok path ↔ path = raw ∧ ValidPath limits raw := by
  simp only [validatePath, bind_ok_iff, require_ok_iff, pure_ok_iff, forM_ok_iff,
    checkSegment_ok_iff, exists_const,
    Bool.not_eq_true', isEmpty_eq_false_iff, decide_eq_true_eq, bne_iff_ne]
  constructor
  · rintro ⟨hne, hlength, htext, hrelative, hsegments, rfl⟩
    exact ⟨rfl, hne, hlength, htext, hrelative, hsegments⟩
  · rintro ⟨rfl, hne, hlength, htext, hrelative, hsegments⟩
    exact ⟨hne, hlength, htext, hrelative, hsegments, rfl⟩

theorem mem_intercalate {sep : Bytes} {b : UInt8} : ∀ {ls : List Bytes}, b ∈ sep.intercalate ls →
    b ∈ sep ∨ ∃ l ∈ ls, b ∈ l
  | [], h => by simp at h
  | [l], h => by
    rw [intercalate_singleton] at h
    exact .inr ⟨l, mem_singleton_self l, h⟩
  | l :: l' :: ls, h => by
    rw [intercalate_cons_cons] at h
    rcases mem_append.mp h with h | h
    · rcases mem_append.mp h with h | h
      · exact .inr ⟨l, mem_cons_self, h⟩
      · exact .inl h
    · rcases mem_intercalate h with h | ⟨m, hm, hb⟩
      · exact .inl h
      · exact .inr ⟨m, mem_cons_of_mem _ hm, hb⟩

/-- A valid path has no NUL. -/
theorem ValidPath.no_nul (h : ValidPath limits path) :
    0 ∉ path := by
  intro hzero
  rw [← @intercalate_splitOn _ path _ _ slash] at hzero
  rcases mem_intercalate hzero with hslash | ⟨segment, hsegment, hbyte⟩
  · exact absurd (mem_singleton.mp hslash) (by decide)
  · exact absurd ((h.segments segment hsegment).2.2.2 0 hbyte) (by decide)

theorem ValidPath.fits (h : ValidPath limits path) :
    path.length ≤ nameBytes :=
  h.length.trans (Nat.min_le_right _ _)

theorem mem_directoriesOf : ∀ {path directory : Bytes},
    directory ∈ directoriesOf path ↔ directory ++ [slash] <+: path
  | [], directory => by
    rw [directoriesOf]
    simp
  | byte :: path, directory => by
    rw [directoriesOf, mem_append, mem_map]
    cases directory with
    | nil =>
      rw [nil_append, cons_prefix_cons]
      constructor
      · rintro (h | ⟨d, -, hd⟩)
        · split_ifs at h with hbyte
          · exact ⟨hbyte.symm, nil_prefix⟩
          · exact nomatch h
        · exact nomatch hd
      · rintro ⟨hbyte, -⟩
        left
        rw [if_pos hbyte.symm]
        exact mem_singleton_self []
    | cons head directory =>
      rw [cons_append, cons_prefix_cons, ← mem_directoriesOf]
      constructor
      · rintro (h | ⟨d, hd, heq⟩)
        · split_ifs at h with hbyte
          · exact absurd (mem_singleton.mp h) nofun
          · exact nomatch h
        · obtain ⟨rfl, rfl⟩ := List.cons.inj heq
          exact ⟨rfl, hd⟩
      · rintro ⟨rfl, hd⟩
        exact .inr ⟨directory, hd, rfl⟩

theorem insert_ok_iff {index index' : PathIndex} : index.insert path = .ok index' ↔
    folded path ∉ index.files ∧ folded path ∉ index.directories ∧
      (∀ directory ∈ directoriesOf (folded path), directory ∉ index.files) ∧
      index' = ⟨folded path :: index.files, directoriesOf (folded path) ++ index.directories⟩ := by
  simp only [PathIndex.insert, bind_ok_iff, require_ok_iff, pure_ok_iff, exists_const,
    Bool.not_eq_true', contains_eq_mem, decide_eq_false_iff_not, any_eq_false, decide_eq_true_eq,
    eq_comm (b := index')]

/-! ### Lists of entries -/

variable {limits : Limits}

/-- What both the reader and the writer ask of entries behind the given paths. -/
def Listed (limits : Limits) : PathIndex → Option Bytes → List ArchiveEntry → Prop
  | _, _, [] => True
  | paths, last, entry :: entries =>
    ValidPath limits entry.path ∧ (∀ path, last = some path → pathKey path < pathKey entry.path) ∧
      entry.contents.length ≤ limits.maxFileBytes ∧ entry.contents.length ≤ maxSizeFieldValue ∧
      ∃ paths', paths.insert entry.path = .ok paths' ∧
      Listed limits paths' (some entry.path) entries

/-- The bytes of one entry. -/
def entryStream (entry : ArchiveEntry) : Bytes :=
  headerBlock entry.path entry.contents.length entry.executable ++ entry.contents ++
    zeros (paddingLen entry.contents.length)

/-- The tar stream of the entries. -/
def stream (entries : List ArchiveEntry) :
    Bytes := entries.flatMap entryStream ++ zeros endMarkerBytes

variable {entry : ArchiveEntry}

theorem entryStream_length (hpath : ValidPath limits entry.path) :
    (entryStream entry).length = entryBytes entry := by
  rw [entryStream, length_append, length_append, headerBlock_length _ _ hpath.fits, zeros_length]
  rfl

/-! ### The reader -/

theorem eq_zeros_of_all {l : Bytes} (h : l.all (· = 0) = true) : l = zeros l.length := by
  rw [zeros, eq_replicate_iff]
  exact ⟨rfl, fun b hb => of_decide_eq_true (all_eq_true.mp h b hb)⟩

theorem zeros_all (n : ℕ) : (zeros n).all (· = 0) = true := by
  rw [all_eq_true]
  intro b hb
  rw [eq_of_mem_replicate hb]
  rfl

/-- The comparisons with the path before it are one: it is strictly greater. -/
theorem ascending_iff {last : Option ArchiveEntry} :
    (last.all fun last => last.path != path) = true ∧
        (last.all fun last => decide (pathKey last.path ≤ pathKey path)) = true ↔
      ∀ entry, last = some entry → pathKey entry.path < pathKey path := by
  cases last with
  | none => simp
  | some last =>
    simp only [Option.all_some, bne_iff_ne, decide_eq_true_eq, Option.some.injEq, forall_eq',
      lt_iff_le_and_ne, ne_eq, pathKey_inj]
    exact and_comm

variable {rest : Bytes}

/-- The contents and the padding, read off the bytes behind the header. -/
theorem contents_prefix {size : ℕ} (hlength : size + paddingLen size ≤ rest.length)
    (hpadding : (slice rest size (paddingLen size)).all (· = 0) = true) :
    rest.take size ++ zeros (paddingLen size) <+: rest := by
  have hzeros := eq_zeros_of_all hpadding
  have hwidth : (slice rest size (paddingLen size)).length = paddingLen size := by
    rw [slice, length_take, length_drop]
    omega
  rw [hwidth] at hzeros
  rw [← hzeros, slice, ← take_add]
  exact take_prefix _ _

variable {entries : List ArchiveEntry} {paths : PathIndex} {paths' : PathIndex}

/-- **What one turn of the reader accepts**: the header and the bytes of an
entry that may follow the entries before it. -/
theorem parseEntry_ok_iff {block : Bytes} :
    parseEntry limits entries paths block rest = .ok (entry, paths') ↔
      entries.length < limits.maxFiles ∧ ValidPath limits entry.path ∧
      (∀ last, entries.getLast? = some last → pathKey last.path < pathKey entry.path) ∧
      paths.insert entry.path = .ok paths' ∧
      entry.contents.length ≤ limits.maxFileBytes ∧ entry.contents.length ≤ maxSizeFieldValue ∧
      block = headerBlock entry.path entry.contents.length entry.executable ∧
      entry.contents ++ zeros (paddingLen entry.contents.length) <+: rest := by
  simp only [parseEntry, bind_ok_iff, require_ok_iff, mapError_ok_iff, ofOption_ok_iff, pure_ok_iff,
    validatePath_ok_iff, encodeHeader_ok_iff, exists_const, decide_eq_true_eq, Prod.mk.injEq]
  constructor
  · rintro ⟨hcount, _, -, path, ⟨rfl, hpath⟩, hdistinct, hsorted, index, hinsert, size, -,
      hfile, canonical, ⟨-, hsize, hcanonical⟩, hblock, hlength, hpadding, rfl, rfl⟩
    have hcontents : (rest.take size).length = size := length_take_of_le (by omega)
    refine ⟨hcount, hpath, ascending_iff.mp ⟨hdistinct, hsorted⟩, hinsert, ?_, ?_, ?_, ?_⟩
    · rwa [hcontents]
    · rwa [hcontents]
    · rw [hcontents]
      exact hblock.symm.trans hcanonical
    · rw [hcontents]
      exact contents_prefix hlength hpadding
  · rintro ⟨hcount, hpath, hascending, hinsert, hfile, hsize, hblock, rest', rfl⟩
    obtain ⟨hdistinct, hsorted⟩ := ascending_iff.mpr hascending
    have hname := nameOf_headerBlock entry.contents.length entry.executable hpath.fits hpath.no_nul
    have hflag := typeflag_headerBlock entry.contents.length entry.executable hpath.fits
    rw [hblock, hname, modeIsExecutable_headerBlock _ _ hpath.fits]
    refine ⟨hcount, (), ?_, entry.path, ⟨rfl, hpath⟩, hdistinct, hsorted, paths', hinsert,
      entry.contents.length,
      parseOctal_sizeField _ _ hpath.fits hsize, hfile, _, ⟨hpath.fits, hsize, rfl⟩, rfl, ?_,
      ?_, ?_, rfl⟩
    · rw [getD_eq_getElem?_getD, hflag]
      rfl
    · simp only [length_append, zeros_length]
      omega
    · rw [slice, append_assoc, drop_left, take_append_of_le_length (zeros_length _).ge,
        take_of_length_le (zeros_length _).le]
      exact zeros_all _
    · rw [append_assoc, take_left]

variable {out : List ArchiveEntry}

/-- `finish_tar` accepts the end marker alone. -/
theorem finishTar_ok_iff :
    finishTar rest entries = .ok out ↔ rest = zeros endMarkerBytes ∧ out = entries := by
  simp only [finishTar, bind_ok_iff, require_ok_iff, pure_ok_iff, exists_const, Bool.and_eq_true,
    decide_eq_true_eq]
  constructor
  · rintro ⟨-, ⟨hlength, hzeros⟩, rfl⟩
    have hrest := eq_zeros_of_all hzeros
    rw [hlength] at hrest
    exact ⟨hrest, rfl⟩
  · rintro ⟨rfl, rfl⟩
    exact ⟨(zeros_length _).ge, ⟨zeros_length _, zeros_all _⟩, rfl⟩

theorem stream_cons (entry : ArchiveEntry) (entries : List ArchiveEntry) :
    stream (entry :: entries) = entryStream entry ++ stream entries := by
  rw [stream, flatMap_cons, append_assoc, stream]

/-- The block of an accepted entry and its bytes are the entry's stream. -/
theorem parseEntry_stream
    (h : parseEntry limits entries paths (rest.take blockBytes) (rest.drop blockBytes) =
      .ok (entry, paths')) : rest = entryStream entry ++ rest.drop (entryBytes entry) := by
  obtain ⟨-, hpath, -, -, -, -, hblock, behind, hbehind⟩ := parseEntry_ok_iff.mp h
  have hrest : rest = entryStream entry ++ behind := by
    rw [entryStream, ← hblock, append_assoc, append_assoc, ← append_assoc entry.contents, hbehind,
      take_append_drop]
  have hdrop : rest.drop (entryBytes entry) = behind := by
    rw [hrest, ← entryStream_length hpath, drop_left]
  rw [hdrop]
  exact hrest

theorem last_path_iff {p : Bytes → Prop} :
    (∀ path, entries.getLast?.map (·.path) = some path → p path) ↔ ∀ last,
    entries.getLast? = some last → p last.path := by
  cases entries.getLast? with
  | none => simp
  | some last => simp

/-- **The reader is sound**: what it accepts is the stream of what it returns. -/
theorem parseFrom_sound (h : parseFrom limits entries paths rest = .ok out) :
    ∃ new, out = entries ++ new ∧ Listed limits paths (entries.getLast?.map (·.path)) new ∧
      (new = [] ∨ out.length ≤ limits.maxFiles) ∧ rest = stream new := by
  induction entries, paths, rest using parseFrom.induct limits with
  | case1 entries paths rest hlength =>
    rw [parseFrom, dif_pos hlength] at h
    exact nomatch h
  | case2 entries paths rest hlength hzeros =>
    rw [parseFrom, dif_neg hlength, if_pos hzeros] at h
    obtain ⟨hrest, hout⟩ := finishTar_ok_iff.mp h
    exact ⟨[], by rw [hout, append_nil], trivial, .inl rfl, hrest⟩
  | case3 entries paths rest hlength hzeros e hentry =>
    rw [parseFrom, dif_neg hlength, if_neg hzeros, hentry] at h
    exact nomatch h
  | case4 entries paths rest hlength hzeros entry paths' hentry ih =>
    rw [parseFrom, dif_neg hlength, if_neg hzeros, hentry] at h
    obtain ⟨new, rfl, hlisted, hcount, hrest⟩ := ih h
    obtain ⟨hfiles, hpath, hascending, hinsert, hfile, hsize, -, -⟩ := parseEntry_ok_iff.mp hentry
    have hlast : (entries ++ [entry]).getLast?.map (·.path) = some entry.path := by simp
    rw [hlast] at hlisted
    refine ⟨entry :: new, by simp,
      ⟨hpath, last_path_iff.mpr hascending, hfile, hsize, paths', hinsert, hlisted⟩, ?_, ?_⟩
    · rcases hcount with rfl | hcount
      · right
        rw [append_nil, length_append, length_singleton]
        exact hfiles
      · exact .inr hcount
    · rw [stream_cons, ← hrest]
      exact parseEntry_stream hentry

/-- **The reader is complete**: it accepts the stream of every listed sequence
of entries. -/
theorem parseFrom_complete : ∀ {new entries : List ArchiveEntry} {paths : PathIndex},
    Listed limits paths (entries.getLast?.map (·.path)) new →
    (new = [] ∨ (entries ++ new).length ≤ limits.maxFiles) →
    parseFrom limits entries paths (stream new) = .ok (entries ++ new)
  | [], entries, paths, _, _ => by
    have hlength : ¬ (stream []).length < blockBytes := by
      rw [stream, flatMap_nil, nil_append, zeros_length]
      decide
    have hzeros : ((stream []).take blockBytes).all (· = 0) = true := by
      rw [stream, flatMap_nil, nil_append, zeros, take_replicate]
      exact zeros_all _
    rw [parseFrom, dif_neg hlength, if_pos hzeros, finishTar_ok_iff, append_nil]
    exact ⟨rfl, rfl⟩
  | entry :: new, entries, paths, ⟨hpath, hascending, hfile, hsize, paths', hinsert, hlisted⟩,
    hcount => by
    have hblock := headerBlock_length entry.contents.length entry.executable hpath.fits
    have hbytes := entryStream_length hpath
    have hcut : stream (entry :: new) =
      headerBlock entry.path entry.contents.length entry.executable ++
        (entry.contents ++ zeros (paddingLen entry.contents.length) ++ stream new) := by
      rw [stream_cons, entryStream, append_assoc, append_assoc, ← append_assoc entry.contents]
    have htake : (stream (entry :: new)).take blockBytes =
        headerBlock entry.path entry.contents.length entry.executable := by
      rw [hcut]
      exact take_left' hblock
    have hdrop : (stream (entry :: new)).drop blockBytes =
        entry.contents ++ zeros (paddingLen entry.contents.length) ++ stream new := by
      rw [hcut]
      exact drop_left' hblock
    have hlength : ¬ (stream (entry :: new)).length < blockBytes := by
      rw [hcut, length_append, hblock]
      exact Nat.not_lt_of_le (Nat.le_add_right _ _)
    have hcount' : (entries ++ entry :: new).length ≤ limits.maxFiles := hcount.resolve_left nofun
    rw [length_append, length_cons] at hcount'
    have hentry : parseEntry limits entries paths ((stream (entry :: new)).take blockBytes)
        ((stream (entry :: new)).drop blockBytes) = .ok (entry, paths') :=
      parseEntry_ok_iff.mpr ⟨by omega, hpath, last_path_iff.mp hascending, hinsert, hfile,
        hsize, htake, stream new, hdrop.symm⟩
    have hrest : (stream (entry :: new)).drop (entryBytes entry) = stream new := by
      rw [stream_cons, ← hbytes, drop_left]
    have hlast : (entries ++ [entry]).getLast?.map (·.path) = some entry.path := by simp
    rw [parseFrom, dif_neg hlength, if_neg, hentry]
    · show parseFrom limits (entries ++ [entry]) paths'
        ((stream (entry :: new)).drop (entryBytes entry)) = _
      rw [hrest, parseFrom_complete (hlast ▸ hlisted)]
      · rw [append_assoc, singleton_append]
      · right
        rw [length_append, length_append, length_singleton]
        omega
    · rw [htake, headerBlock_nonzero _ _ hpath.fits]
      exact Bool.false_ne_true

variable {tar : Bytes}

/-- **What `parse_tar` accepts.** -/
theorem parseTar_ok_iff : parseTar limits tar = .ok entries ↔
    Listed limits .empty none entries ∧ entries.length ≤ limits.maxFiles ∧
    tar = stream entries := by
  constructor
  · intro h
    obtain ⟨new, rfl, hlisted, hcount, rfl⟩ := parseFrom_sound h
    refine ⟨hlisted, ?_, rfl⟩
    rcases hcount with rfl | hcount
    · exact Nat.zero_le _
    · exact hcount
  · rintro ⟨hlisted, hcount, rfl⟩
    exact @parseFrom_complete _ _ [] _ hlisted (.inr hcount)

/-! ### The writer -/

variable {bytes : Bytes}

theorem writeEntry_ok_iff {previous : Option Bytes} {index : ℕ} :
    writeEntry limits paths previous index entry = .ok (bytes, paths') ↔
      previous ≠ some entry.path ∧ paths.insert entry.path = .ok paths' ∧
      entry.contents.length ≤ limits.maxFileBytes ∧ entry.contents.length ≤ maxSizeFieldValue ∧
      entry.path.length ≤ nameBytes ∧ bytes = entryStream entry := by
  have hbound : maxSizeFieldValue < usizeMax := by decide
  -- a size the header can hold is not cut off
  have hsize : ∀ n, min n usizeMax ≤ maxSizeFieldValue ↔ n ≤ maxSizeFieldValue := by
    intro n
    omega
  have hmin : ∀ n, n ≤ maxSizeFieldValue → min n usizeMax = n := by
    intro n hn
    omega
  simp only [writeEntry, bind_ok_iff, require_ok_iff, mapError_ok_iff, encodeHeader_ok_iff,
    pure_ok_iff, exists_const, bne_iff_ne, decide_eq_true_eq, Prod.mk.injEq, hsize]
  constructor
  · rintro ⟨hprevious, index, hinsert, hfile, header, ⟨hname, hfield, hheader⟩, hbytes, rfl⟩
    rw [hmin _ hfield] at hheader hfile
    refine ⟨hprevious, hinsert, hfile, hfield, hname, ?_⟩
    rw [← hbytes, hheader, entryStream]
  · rintro ⟨hprevious, hinsert, hfile, hfield, hname, hbytes⟩
    rw [hmin _ hfield]
    exact ⟨hprevious, paths', hinsert, hfile, _, ⟨hname, hfield, rfl⟩, hbytes.symm, rfl⟩

/-- **The writer** makes the stream of a sequence in ascending order iff it is
listed. -/
theorem writeEntries_ok_iff :
    ∀ {order : List (ℕ × ArchiveEntry)} {paths : PathIndex} {previous : Option Bytes}
    {bytes : Bytes}, (∀ p ∈ order, ValidPath limits p.2.path) →
    (order.map Prod.snd).Pairwise (fun left right => pathKey left.path ≤ pathKey right.path) →
    (∀ path, previous = some path → ∀ p ∈ order, pathKey path ≤ pathKey p.2.path) →
    (writeEntries limits paths previous order = .ok bytes ↔
      Listed limits paths previous (order.map Prod.snd) ∧
      bytes = (order.map Prod.snd).flatMap entryStream)
  | [], _, _, bytes, _, _, _ => by
    rw [writeEntries, map_nil, flatMap_nil]
    exact ⟨fun h => ⟨trivial, (Except.ok.inj h).symm⟩, fun h => congrArg Except.ok h.2.symm⟩
  | (index, entry) :: order, paths, previous, bytes, hpaths, hsorted, hprevious => by
    have hpath := hpaths _ mem_cons_self
    rw [map_cons, pairwise_cons] at hsorted
    -- in ascending order a path that differs from the one before is above it
    have hascending : previous ≠ some entry.path ↔ ∀ path, previous = some path →
      pathKey path < pathKey entry.path := by
      constructor
      · rintro hne path rfl
        refine lt_of_le_of_ne (hprevious path rfl _ mem_cons_self) fun heq => hne ?_
        rw [pathKey_inj.mp heq]
      · intro habove heq
        exact lt_irrefl _ (habove _ heq)
    have hrest : ∀ {paths' : PathIndex} {tail : Bytes},
      writeEntries limits paths' (some entry.path) order = .ok tail ↔
        Listed limits paths' (some entry.path) (order.map Prod.snd) ∧
          tail = (order.map Prod.snd).flatMap entryStream := by
      intro paths' tail
      refine writeEntries_ok_iff (fun p hp => hpaths p (mem_cons_of_mem _ hp)) hsorted.2 ?_
      rintro path heq p hp
      cases heq
      exact hsorted.1 _ (mem_map_of_mem hp)
    simp only [writeEntries, bind_ok_iff, Prod.exists, writeEntry_ok_iff, hrest,
      pure_ok_iff, map_cons, flatMap_cons, Listed]
    constructor
    · rintro ⟨head, paths', ⟨hne, hinsert, hfile, hsize, -, hhead⟩, tail, ⟨hlisted, htail⟩, hbytes⟩
      refine ⟨⟨hpath, hascending.mp hne, hfile, hsize, paths', hinsert, hlisted⟩, ?_⟩
      rw [← hbytes, hhead, htail]
    · rintro ⟨⟨-, habove, hfile, hsize, paths', hinsert, hlisted⟩, hbytes⟩
      exact ⟨_, paths', ⟨hascending.mpr habove, hinsert, hfile, hsize, hpath.fits, rfl⟩, _,
        ⟨hlisted, rfl⟩, hbytes.symm⟩

theorem checkPaths_ok_iff {u : Unit} :
    checkPaths limits entries = .ok u ↔ ∀ entry ∈ entries, ValidPath limits entry.path := by
  simp only [checkPaths, forM_ok_iff, bind_ok_iff, mapError_ok_iff, validatePath_ok_iff,
    pure_ok_iff]
  constructor
  · intro h entry hentry
    obtain ⟨i, hi, rfl⟩ := getElem_of_mem hentry
    obtain ⟨_, ⟨-, hpath⟩, -⟩ :=
      h (entries[i], i) (mem_zipIdx_iff_getElem?.mpr (getElem?_eq_getElem hi))
    exact hpath
  · intro h p hp
    have hmem : p.1 ∈ entries := mem_of_getElem? (mem_zipIdx_iff_getElem?.mp hp)
    exact ⟨_, ⟨rfl, h p.1 hmem⟩, trivial⟩

/-- Entries that fit the limit pass the check. -/
theorem checkExpanded_ok : ∀ {entries : List ArchiveEntry} {expanded : ℕ},
    expanded + (entries.map entryBytes).sum ≤ limits.maxExpandedBytes →
    checkExpanded limits expanded entries = .ok ()
  | [], _, _ => rfl
  | entry :: entries, expanded, h => by
    rw [map_cons, sum_cons] at h
    have hle := Nat.min_le_left (expanded + entryBytes entry) usizeMax
    rw [checkExpanded, bind_ok_iff]
    refine ⟨(), require_ok_iff.mpr (decide_eq_true ?_), checkExpanded_ok ?_⟩
    · omega
    · omega

theorem indexed_map_snd (entries : List ArchiveEntry) :
    (indexed entries).map Prod.snd = sortByPath entries := by
  have hsort : (indexed entries).map Prod.snd =
    sortByPath ((entries.zipIdx.map fun p => (p.2, p.1)).map Prod.snd) :=
    map_insertionSort _ _ Prod.snd _ fun _ _ _ _ => Iff.rfl
  rw [hsort, map_map]
  exact congrArg sortByPath (zipIdx_map_fst 0 entries)

theorem mem_sortByPath :
    entry ∈ sortByPath entries ↔ entry ∈ entries :=
  (perm_insertionSort _ entries).mem_iff

theorem sortByPath_pairwise (entries : List ArchiveEntry) :
    (sortByPath entries).Pairwise fun left right => pathKey left.path ≤ pathKey right.path := by
  have : IsTrans ArchiveEntry fun left right => pathKey left.path ≤ pathKey right.path :=
    ⟨fun _ _ _ => le_trans⟩
  have : Std.Total fun left right : ArchiveEntry => pathKey left.path ≤ pathKey right.path :=
    ⟨fun _ _ => le_total _ _⟩
  exact pairwise_insertionSort _ _

/-- **What the writer makes of entries in any order.** -/
theorem writeEntries_indexed (hpaths : ∀ entry ∈ entries, ValidPath limits entry.path) :
    writeEntries limits .empty none (indexed entries) = .ok bytes ↔
      Listed limits .empty none (sortByPath entries) ∧
      bytes = (sortByPath entries).flatMap entryStream := by
  rw [← indexed_map_snd]
  refine writeEntries_ok_iff (fun p hp => hpaths _ (mem_sortByPath.mp ?_)) ?_ nofun
  · rw [← indexed_map_snd]
    exact mem_map_of_mem hp
  · rw [indexed_map_snd]
    exact sortByPath_pairwise entries

/-- **What `build_archive` accepts**, up to the tar stream. -/
theorem buildTar_ok_iff : buildTar limits entries = .ok tar ↔
    entries.length ≤ limits.maxFiles ∧ (∀ entry ∈ entries, ValidPath limits entry.path) ∧
      checkExpanded limits endMarkerBytes entries = .ok () ∧
      Listed limits .empty none (sortByPath entries) ∧ tar = stream (sortByPath entries) := by
  simp only [buildTar, bind_ok_iff, require_ok_iff, checkPaths_ok_iff, pure_ok_iff, exists_const,
    decide_eq_true_eq]
  refine and_congr_right fun _ => and_congr_right fun hpaths => ?_
  simp only [writeEntries_indexed hpaths]
  constructor
  · rintro ⟨⟨⟩, hexpanded, _, ⟨hlisted, rfl⟩, rfl⟩
    exact ⟨hexpanded, hlisted, rfl⟩
  · rintro ⟨hexpanded, hlisted, rfl⟩
    exact ⟨(), hexpanded, _, ⟨hlisted, rfl⟩, rfl⟩

/-! ### Listed entries -/

theorem Listed.valid : ∀ {entries : List ArchiveEntry} {paths : PathIndex} {last : Option Bytes},
    Listed limits paths last entries → ∀ entry ∈ entries, ValidPath limits entry.path
  | [], _, _, _, _, h => nomatch h
  | _ :: _, _, _, ⟨hpath, _, _, _, _, _, hrest⟩, entry, hentry => by
    rcases mem_cons.mp hentry with rfl | hentry
    · exact hpath
    · exact hrest.valid entry hentry

theorem Listed.ascending :
    ∀ {entries : List ArchiveEntry} {paths : PathIndex} {last : Option Bytes},
    Listed limits paths last entries → entries.Pairwise
    (fun left right => pathKey left.path < pathKey right.path) ∧
      ∀ path, last = some path → ∀ entry ∈ entries, pathKey path < pathKey entry.path
  | [], _, _, _ => ⟨.nil, nofun⟩
  | first :: entries, _, _, ⟨_, habove, _, _, _, _, hrest⟩ => by
    obtain ⟨hpairwise, hfirst⟩ := hrest.ascending
    refine ⟨pairwise_cons.mpr ⟨hfirst first.path rfl, hpairwise⟩, fun path hlast entry hentry => ?_⟩
    rcases mem_cons.mp hentry with rfl | hentry
    · exact habove path hlast
    · exact (habove path hlast).trans (hfirst first.path rfl entry hentry)

/-- Listed entries are in the order of the writer. -/
theorem Listed.sorted {last : Option Bytes}
    (h : Listed limits paths last entries) : sortByPath entries = entries :=
  List.Pairwise.insertionSort_eq (h.ascending.1.imp le_of_lt)

theorem stream_length (h : ∀ entry ∈ entries, ValidPath limits entry.path) :
    (stream entries).length = endMarkerBytes + (entries.map entryBytes).sum := by
  have hmap : entries.map (fun entry => (entryStream entry).length) = entries.map entryBytes :=
    map_congr_left fun entry hentry => entryStream_length (h entry hentry)
  rw [stream, length_append, zeros_length, length_flatMap, hmap, Nat.add_comm]

/-- Neither path is the other, or a directory of it, when case is ignored. -/
def Apart (p q : Bytes) : Prop :=
  folded p ≠ folded q ∧ ¬ folded p ++ [slash] <+: folded q ∧ ¬ folded q ++ [slash] <+: folded p

/-- A path the index takes is apart from those it has taken. -/
theorem Listed.outside : ∀ {entries : List ArchiveEntry} {paths : PathIndex} {last : Option Bytes},
    Listed limits paths last entries → ∀ entry ∈ entries,
      folded entry.path ∉ paths.files ∧ folded entry.path ∉ paths.directories ∧
        ∀ directory ∈ directoriesOf (folded entry.path), directory ∉ paths.files
  | [], _, _, _, _, h => nomatch h
  | first :: entries, paths, _, ⟨_, _, _, _, paths', hinsert, hrest⟩, entry, hentry => by
    obtain ⟨hfile, hdirectory, hdirectories, rfl⟩ := insert_ok_iff.mp hinsert
    rcases mem_cons.mp hentry with rfl | hentry
    · exact ⟨hfile, hdirectory, hdirectories⟩
    · obtain ⟨hfile', hdirectory', hdirectories'⟩ := hrest.outside entry hentry
      exact ⟨fun h => hfile' (mem_cons_of_mem _ h), fun h => hdirectory' (mem_append_right _ h),
        fun directory hd h => hdirectories' directory hd (mem_cons_of_mem _ h)⟩

theorem Listed.apart : ∀ {entries : List ArchiveEntry} {paths : PathIndex} {last : Option Bytes},
    Listed limits paths last entries → (entries.map (·.path)).Pairwise Apart
  | [], _, _, _ => .nil
  | first :: entries, paths, _, ⟨_, _, _, _, paths', hinsert, hrest⟩ => by
    obtain ⟨-, -, -, rfl⟩ := insert_ok_iff.mp hinsert
    refine pairwise_cons.mpr ⟨fun path hpath => ?_, hrest.apart⟩
    obtain ⟨entry, hentry, rfl⟩ := mem_map.mp hpath
    obtain ⟨hfile, hdirectory, hdirectories⟩ := hrest.outside entry hentry
    refine ⟨fun heq => hfile ?_, fun hfront => ?_, fun hfront => hdirectory ?_⟩
    · rw [← heq]
      exact mem_cons_self
    · exact hdirectories _ (mem_directoriesOf.mpr hfront) mem_cons_self
    · exact mem_append_left _ (mem_directoriesOf.mpr hfront)

/-- Paths apart are no directories of each other. -/
theorem Apart.not_directory {p q : Bytes} (h : Apart p q) : ¬ p ++ [slash] <+: q ∧
    ¬ q ++ [slash] <+: p := by
  have hfold : ∀ {p q : Bytes}, p ++ [slash] <+: q → folded p ++ [slash] <+: folded q := by
    intro p q hfront
    have hmap := hfront.map asciiLower
    rw [map_append] at hmap
    exact hmap
  exact ⟨fun hfront => h.2.1 (hfold hfront), fun hfront => h.2.2 (hfold hfront)⟩

/-! ### Archives -/

/-- A tar stream that is read is what the writer makes of its entries. -/
theorem buildTar_parseTar (h : parseTar limits tar = .ok entries)
    (hexpanded : tar.length ≤ limits.maxExpandedBytes) : buildTar limits entries = .ok tar := by
  obtain ⟨hlisted, hcount, htar⟩ := parseTar_ok_iff.mp h
  rw [buildTar_ok_iff, hlisted.sorted]
  refine ⟨hcount, hlisted.valid, checkExpanded_ok ?_, hlisted, htar⟩
  rwa [← stream_length hlisted.valid, ← htar]

/-- A tar stream that is written is read back, sorted. -/
theorem parseTar_buildTar (h : buildTar limits entries = .ok tar) :
    parseTar limits tar = .ok (sortByPath entries) := by
  obtain ⟨hcount, -, -, hlisted, htar⟩ := buildTar_ok_iff.mp h
  have hlength : (sortByPath entries).length = entries.length :=
    (perm_insertionSort _ entries).length_eq
  exact parseTar_ok_iff.mpr ⟨hlisted, hlength ▸ hcount, htar⟩

section Codec

variable {zstd : Zstd} {δ : Type} [DecidableEq δ] {digest : Bytes → δ} {entries : List ArchiveEntry}

theorem readChecked_ok {expected : Option δ} {found : δ}
    (h : readChecked limits zstd digest bytes expected = .ok (found, entries)) :
    ∃ tar, parseTar limits tar = .ok entries ∧ tar.length ≤ limits.maxExpandedBytes ∧
      zstd.encode tar = bytes ∧ found = digest bytes := by
  simp only [readChecked, bind_ok_iff, require_ok_iff, pure_ok_iff, exists_const, decide_eq_true_eq,
    Prod.mk.injEq] at h
  obtain ⟨-, -, tar, hdecode, _, hparse, hencode, rfl, rfl⟩ := h
  exact ⟨tar, hparse, zstd.bounded _ _ _ hdecode, hencode, rfl⟩

theorem buildArchive_ok
    (h : buildArchive limits zstd digest entries = .ok bytes) :
    readChecked limits zstd digest bytes none = .ok (digest bytes, sortByPath entries) := by
  simp only [buildArchive, bind_ok_iff, pure_ok_iff] at h
  obtain ⟨tar, hbuild, ⟨found, entries'⟩, hread, rfl⟩ := h
  have hread' := hread
  simp only [readChecked, bind_ok_iff, require_ok_iff, pure_ok_iff, exists_const,
    Prod.mk.injEq] at hread'
  obtain ⟨-, -, out, hdecode, _, hparse, -, rfl, rfl⟩ := hread'
  rw [zstd.exact _ _ _ hdecode, parseTar_buildTar hbuild] at hparse
  rw [Except.ok.inj hparse]
  exact hread

end Codec

/-- **Canonical package archives.** A byte string that `parse_tar` accepts is
the stream the writer's loop makes of the entries it returns, and what
`build_archive` makes of them within the size limit; so two of them with the
same entries are one. What the builder makes is read back, sorted by path. The
paths of accepted entries are relative, without an empty, `.` or `..` segment,
distinct when case is ignored and never a directory of each other. The archives
around the streams inherit this through the codec. -/
theorem canonical_archive (limits : Limits) (zstd : Zstd) {δ : Type} [DecidableEq δ]
    (digest : Bytes → δ) :
    (∀ t entries, parseTar limits t = .ok entries →
      (∃ body, writeEntries limits .empty none (indexed entries) = .ok body ∧
      t = body ++ zeros endMarkerBytes) ∧
      (t.length ≤ limits.maxExpandedBytes → buildTar limits entries = .ok t) ∧
      (∀ t', parseTar limits t' = .ok entries → t' = t) ∧
      (∀ entry ∈ entries, entry.path.head? ≠ some slash ∧
        ∀ segment ∈ entry.path.splitOn slash, segment ≠ [] ∧ segment ≠ [46] ∧ segment ≠ [46, 46]) ∧
      (entries.map (·.path)).Pairwise
      (fun p q => Apart p q ∧ ¬ p ++ [slash] <+: q ∧ ¬ q ++ [slash] <+: p)) ∧
    (∀ entries tar, buildTar limits entries = .ok tar →
      parseTar limits tar = .ok (sortByPath entries)) ∧
    (∀ bytes expected found entries,
      readChecked limits zstd digest bytes expected = .ok (found, entries) →
      ∃ tar, parseTar limits tar = .ok entries ∧ buildTar limits entries = .ok tar ∧
        bytes = zstd.encode tar) ∧
    (∀ entries bytes, buildArchive limits zstd digest entries = .ok bytes →
      readChecked limits zstd digest bytes none = .ok (digest bytes, sortByPath entries)) := by
  refine ⟨fun t entries h => ?_, fun entries tar h => parseTar_buildTar h, ?_, ?_⟩
  · obtain ⟨hlisted, -, htar⟩ := parseTar_ok_iff.mp h
    refine ⟨?_, buildTar_parseTar h, ?_, ?_, ?_⟩
    · refine ⟨entries.flatMap entryStream, ?_, htar⟩
      rw [writeEntries_indexed hlisted.valid, hlisted.sorted]
      exact ⟨hlisted, rfl⟩
    · intro t' h'
      rw [htar]
      exact (parseTar_ok_iff.mp h').2.2
    · intro entry hentry
      have hpath := hlisted.valid entry hentry
      refine ⟨hpath.relative, fun segment hsegment => ?_⟩
      obtain ⟨hempty, hdot, hdots, -⟩ := hpath.segments segment hsegment
      exact ⟨hempty, hdot, hdots⟩
    · exact hlisted.apart.imp fun happart => ⟨happart, happart.not_directory⟩
  · intro bytes expected found entries h
    obtain ⟨tar, hparse, hexpanded, hencode, -⟩ := readChecked_ok h
    exact ⟨tar, hparse, buildTar_parseTar hparse hexpanded, hencode.symm⟩
  · exact fun entries bytes h => buildArchive_ok h

/-- A codec that stores the bytes. -/
def sampleZstd : Zstd where
  encode := id
  decode limits bytes :=
    if bytes.length ≤ limits.maxExpandedBytes then .ok bytes
      else .error (.expandedTooLarge limits.maxExpandedBytes)
  exact limits tar out h := by
    split_ifs at h
    exact (Except.ok.inj h).symm
  bounded limits bytes out h := by
    split_ifs at h with hbytes
    rwa [← Except.ok.inj h]

/-- `lib/b` with one byte, and `a` without any. -/
def sampleEntries : List ArchiveEntry := [⟨[108, 105, 98, 47, 98], [1], true⟩, ⟨[97], [], false⟩]

/-- The sample archive is read back with `a` in front. -/
theorem canonical_archive_sample : ∃ tar, buildTar .default sampleEntries = .ok tar ∧
    parseTar .default tar = .ok [⟨[97], [], false⟩, ⟨[108, 105, 98, 47, 98], [1], true⟩] ∧
    ∀ t', parseTar .default t' = .ok [⟨[97], [], false⟩, ⟨[108, 105, 98, 47, 98], [1], true⟩] →
    t' = tar := by
  have hsort : sortByPath sampleEntries =
    [⟨[97], [], false⟩, ⟨[108, 105, 98, 47, 98], [1], true⟩] := by decide +kernel
  have hbuild : (buildTar .default sampleEntries).isOk := by decide +kernel
  obtain ⟨tar, htar⟩ := isOk_iff.mp hbuild
  obtain ⟨hread, hwritten, -⟩ := canonical_archive .default sampleZstd id
  have hparse := hwritten _ _ htar
  rw [hsort] at hparse
  obtain ⟨-, -, hunique, -⟩ := hread _ _ hparse
  exact ⟨tar, htar, hparse, hunique⟩

end Pohunek.Package
