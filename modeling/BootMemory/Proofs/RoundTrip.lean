import Mathlib
import BootMemory.Archive.Reader
import BootMemory.Proofs.Actions

/-!
# Reading back what was written

The records of some files, one after the other, are read as exactly these files.  The writer and
the reader each work out where the name, the contents and the next record begin; here the reader
is followed over the fields that the writer has put down.  The zeros at the end of a record are
passed over unread, so those of the last record may be missing.
-/

namespace BootMemory

/-! ## Bytes in a row -/

namespace Bytes

variable {a b data : ByteArray} {i j : Nat}

theorem byteAt_append_right (a b : ByteArray) (i : Nat) :
    byteAt (a ++ b) (a.size + i) = byteAt b i := by
  simp [byteAt, ByteArray.getElem_append_right]

theorem slice_append_right (a b : ByteArray) (i count : Nat) :
    slice (a ++ b) (a.size + i) count = slice b i count := by
  simp [slice, Nat.add_assoc, byteAt_append_right]

theorem slice_toByteArray_append (values : List UInt8) (b : ByteArray) :
    slice (values.toByteArray ++ b) 0 values.length = values := by
  apply List.ext_getElem
  · simp
  · intro k _ hk
    have hsize : k < values.toByteArray.size := by simpa using hk
    simp [slice, byteAt, ByteArray.getElem_append_left hsize]
    omega

/-- What is read at a place is what was put down there. -/
theorem slice_of_split {values : List UInt8} {count : Nat}
    (hdata : data = a ++ (values.toByteArray ++ b)) (hi : i = a.size)
    (hcount : count = values.length) : slice data i count = values := by
  subst hdata hi hcount
  have hshift := slice_append_right a (values.toByteArray ++ b) 0 values.length
  rw [Nat.add_zero] at hshift
  rw [hshift, slice_toByteArray_append]

theorem byteAt_of_split {value : UInt8} (hdata : data = a ++ ([value].toByteArray ++ b))
    (hi : i = a.size) : byteAt data i = value := by
  have hslice := slice_of_split hdata hi (rfl : 1 = [value].length)
  simpa [slice] using hslice

theorem extract_of_split {values : ByteArray} (hdata : data = a ++ (values ++ b))
    (hi : i = a.size) (hj : j = a.size + values.size) : data.extract i j = values := by
  subst hdata hi hj
  have hshift := ByteArray.extract_append_size_add (a := a) (b := values ++ b) (i := 0)
    (j := values.size)
  rw [Nat.add_zero] at hshift
  rw [hshift, ByteArray.extract_append_eq_left rfl]

/-- The longer of two beginnings goes on with a part of the rest of the shorter one. -/
theorem exists_of_append_eq_append {a b c d : ByteArray} (heq : a ++ b = c ++ d)
    (hsize : d.size ≤ b.size) : ∃ tail, c = a ++ tail ∧ tail.size ≤ b.size := by
  have hcut : b = b.extract 0 (b.size - d.size) ++ b.extract (b.size - d.size) b.size := by
    rw [← ByteArray.extract_eq_extract_append_extract _ (Nat.zero_le _) (Nat.sub_le _ _),
      ByteArray.extract_zero_size]
  have hrest : (b.extract (b.size - d.size) b.size).size = d.size := by
    rw [ByteArray.size_extract]
    omega
  rw [hcut, ← ByteArray.append_assoc] at heq
  have hparts := (ByteArray.append_eq_append_iff_of_size_eq_right hrest).mp heq
  refine ⟨_, hparts.1.symm, ?_⟩
  rw [ByteArray.size_extract]
  omega

/-- Bytes that are read at the start of an array are its first ones. -/
theorem isPrefix_of_slice_eq {values : List UInt8} (hfits : values.length ≤ data.size)
    (hslice : slice data 0 values.length = values) : values <+: data.data.toList := by
  rw [List.prefix_iff_getElem?]
  intro k hk
  have hin : k < data.size := by omega
  have hbyte : byteAt data k = values[k] := by
    have hread := congrArg (·[k]?) hslice
    simpa [slice, hk] using hread
  rw [← hbyte, byteAt, dif_pos hin]
  simp [ByteArray.getElem_eq_getElem_data, hin]

end Bytes

theorem Text.fromUTF8?_eq_some {bytes : ByteArray} {text : String} :
    String.fromUTF8? bytes = some text ↔ text.toUTF8 = bytes := by
  unfold String.fromUTF8?
  constructor
  · intro htext
    split at htext
    next =>
      cases htext
      rfl
    next => cases htext
  · rintro rfl
    exact dif_pos text.isValidUTF8

namespace Archive

/-! ## The fields of a record -/

/-- A name and contents whose sizes can be said in a record. -/
structure Fits (file : ArchiveFile) : Prop where
  name : file.name.utf8ByteSize ≤ maxNameLength
  contents : file.contents.size < 2 ^ 64

/-- The record of a file without the zeros at its end. -/
def unpadded (file : ArchiveFile) : ByteArray :=
  (header file.name file.contents.size).toByteArray ++ file.contents

def encoded (file : ArchiveFile) : ByteArray :=
  unpadded file ++ (List.replicate (padding file.contents.size) 0).toByteArray

theorem record_eq_ok {file : ArchiveFile} (hname : file.name.utf8ByteSize ≤ maxNameLength) :
    record file = .ok (encoded file) := by
  simp [record, headerSize, Nat.not_lt.mpr hname, encoded, unpadded, bind, Except.bind, pure,
    Except.pure]

theorem record_eq_error {file : ArchiveFile} (hname : maxNameLength < file.name.utf8ByteSize) :
    record file = .error (.nameTooLong file.name.utf8ByteSize) := by
  simp [record, headerSize, hname, bind, Except.bind]

theorem length_header (name : String) (size : Nat) :
    (header name size).length = fixedHeaderSize + name.utf8ByteSize := by
  have hname : name.toUTF8.data.toList.length = name.utf8ByteSize := by simp
  simp only [header, List.length_append, length_toLittleEndian, hname]
  simp [magic, fixedHeaderSize]

theorem size_unpadded (file : ArchiveFile) :
    (unpadded file).size =
      fixedHeaderSize + file.name.utf8ByteSize + file.contents.size := by
  simp [unpadded, length_header]

theorem size_encoded (file : ArchiveFile) :
    (encoded file).size = (unpadded file).size + padding file.contents.size := by
  simp [encoded]

/-! ## Reading a record -/

theorem readRecord_append (before data : ByteArray) (offset : Nat) :
    readRecord (before ++ data) (before.size + offset) =
      (readRecord data offset).map fun found => (found.1, before.size + found.2) := by
  have hfits (i : Nat) : (before ++ data).size < before.size + i ↔ data.size < i := by
    rw [ByteArray.size_append]
    omega
  have hnumber (i : Nat) : numberAt (before ++ data) (before.size + i) = numberAt data i := by
    rw [numberAt, Bytes.slice_append_right, numberAt]
  have hbefore (i j : Nat) : before.size + i < before.size + j ↔ i < j := by omega
  simp only [readRecord, Nat.add_assoc, hfits, hnumber, hbefore, Bytes.slice_append_right,
    Bytes.byteAt_append_right, ByteArray.extract_append_size_add]
  generalize String.fromUTF8? _ = name?
  cases name? <;> simp only [apply_ite (Option.map _), Option.map_none, Option.map_some]

/-- A record, cut into its fields. -/
theorem unpadded_append (file : ArchiveFile) (rest : ByteArray) :
    unpadded file ++ rest = magic.toByteArray ++
      ((toLittleEndian 8 (fixedHeaderSize + file.name.utf8ByteSize)).toByteArray ++
        ((toLittleEndian 8 file.contents.size).toByteArray ++
          ([UInt8.ofNat file.name.utf8ByteSize].toByteArray ++
            (file.name.toUTF8 ++ (file.contents ++ rest))))) := by
  have hlength : file.name.toUTF8.data.toList.length = file.name.utf8ByteSize := by simp
  have hname : file.name.toUTF8.data.toList.toByteArray = file.name.toUTF8 :=
    ByteArray.ext (by simp)
  simp only [unpadded, header, List.toByteArray_append, ByteArray.append_assoc, hlength, hname]

theorem numberAt_of_split {data a b : ByteArray} {offset number : Nat}
    (hdata : data = a ++ ((toLittleEndian 8 number).toByteArray ++ b)) (hoffset : offset = a.size)
    (hnumber : number < 2 ^ 64) : numberAt data offset = number := by
  rw [numberAt, Bytes.slice_of_split hdata hoffset (length_toLittleEndian 8 number).symm,
    ofLittleEndian_toLittleEndian]
  exact Nat.mod_eq_of_lt hnumber

/-- The reader finds every field of a record where the writer has put it. -/
theorem readRecord_unpadded {file : ArchiveFile} (hfits : Fits file) (rest : ByteArray) :
    readRecord (unpadded file ++ rest) 0 = some (file, (encoded file).size) := by
  have hlength : file.name.utf8ByteSize < 256 := Nat.lt_succ_of_le hfits.name
  have hdata := unpadded_append file rest
  have hmagic : Bytes.slice (unpadded file ++ rest) 0 4 = magic :=
    Bytes.slice_of_split (a := ByteArray.empty) (by simpa using hdata) rfl rfl
  have hheader : numberAt (unpadded file ++ rest) 4 = fixedHeaderSize + file.name.utf8ByteSize :=
    numberAt_of_split hdata (by simp [magic]) (by simp only [fixedHeaderSize]; omega)
  have hsize : numberAt (unpadded file ++ rest) 12 = file.contents.size := by
    rw [← ByteArray.append_assoc] at hdata
    exact numberAt_of_split hdata (by simp [magic]) hfits.contents
  have hcount : (Bytes.byteAt (unpadded file ++ rest) 20).toNat = file.name.utf8ByteSize := by
    rw [← ByteArray.append_assoc, ← ByteArray.append_assoc] at hdata
    rw [Bytes.byteAt_of_split hdata (by simp [magic])]
    exact UInt8.toNat_ofNat_of_lt' hlength
  have hname : (unpadded file ++ rest).extract fixedHeaderSize
      (fixedHeaderSize + file.name.utf8ByteSize) = file.name.toUTF8 := by
    rw [← ByteArray.append_assoc, ← ByteArray.append_assoc, ← ByteArray.append_assoc] at hdata
    exact Bytes.extract_of_split hdata (by simp [magic, fixedHeaderSize])
      (by simp [magic, fixedHeaderSize])
  have hcontents : (unpadded file ++ rest).extract (fixedHeaderSize + file.name.utf8ByteSize)
      (fixedHeaderSize + file.name.utf8ByteSize + file.contents.size) = file.contents := by
    have hsplit : unpadded file ++ rest =
        (header file.name file.contents.size).toByteArray ++ (file.contents ++ rest) :=
      ByteArray.append_assoc
    exact Bytes.extract_of_split hsplit (by simp [length_header]) (by simp [length_header])
  have htext : String.fromUTF8? file.name.toUTF8 = some file.name :=
    Text.fromUTF8?_eq_some.mpr rfl
  simp only [readRecord, Nat.zero_add, hmagic, hheader, hsize, hcount, hname, hcontents, htext,
    ByteArray.size_append, size_unpadded, size_encoded]
  simp
  omega

/-! ## Reading records in a row -/

theorem filesFrom_of_none {data : ByteArray} {offset : Nat}
    (hread : readRecord data offset = none) : filesFrom data offset = [] := by
  rw [filesFrom]
  split
  · rfl
  · simp_all

theorem filesFrom_of_some {data : ByteArray} {offset next : Nat} {file : ArchiveFile}
    (hread : readRecord data offset = some (file, next)) :
    filesFrom data offset = file :: filesFrom data next := by
  rw [filesFrom]
  split <;> simp_all

theorem filesFrom_append (before data : ByteArray) (offset : Nat) :
    filesFrom (before ++ data) (before.size + offset) = filesFrom data offset := by
  induction offset using filesFrom.induct data with
  | case1 offset hnone =>
      rw [filesFrom_of_none hnone, filesFrom_of_none (by rw [readRecord_append, hnone]; rfl)]
  | case2 offset file next hsome ih =>
      rw [filesFrom_of_some hsome, ← ih]
      exact filesFrom_of_some (by rw [readRecord_append, hsome]; rfl)

theorem files_encoded_append {file : ArchiveFile} (hfits : Fits file) (rest : ByteArray) :
    files (encoded file ++ rest) = file :: files rest := by
  have hread := readRecord_unpadded hfits
    ((List.replicate (padding file.contents.size) 0).toByteArray ++ rest)
  rw [← ByteArray.append_assoc, ← encoded] at hread
  rw [files, filesFrom_of_some hread]
  exact congrArg _ (filesFrom_append (encoded file) rest 0)

/-- Nothing is read beyond the end of the data. -/
theorem readRecord_of_size_le {data : ByteArray} {offset : Nat} (hend : data.size ≤ offset) :
    readRecord data offset = none := by
  simp [readRecord, fixedHeaderSize]
  omega

/-- The zeros at the end of the last record may be missing. -/
theorem files_unpadded_append {file : ArchiveFile} (hfits : Fits file) {tail : ByteArray}
    (htail : tail.size ≤ padding file.contents.size) : files (unpadded file ++ tail) = [file] := by
  have hend : (unpadded file ++ tail).size ≤ (encoded file).size := by
    rw [ByteArray.size_append, size_encoded]
    omega
  rw [files, filesFrom_of_some (readRecord_unpadded hfits tail),
    filesFrom_of_none (readRecord_of_size_le hend)]

theorem magic_of_readRecord {data : ByteArray} {offset next : Nat} {file : ArchiveFile}
    (hread : readRecord data offset = some (file, next)) :
    Bytes.slice data offset magic.length = magic := by
  have hlength : magic.length = 4 := rfl
  unfold readRecord at hread
  grind

theorem files_of_not_magic {data : ByteArray} (hdata : ¬ magic <+: data.data.toList) :
    files data = [] := by
  apply filesFrom_of_none
  cases hread : readRecord data 0 with
  | none => rfl
  | some found =>
      obtain ⟨file, next⟩ := found
      have hfits : 0 + fixedHeaderSize ≤ data.size := (lt_of_readRecord hread).1
      have hlength : magic.length ≤ fixedHeaderSize := by decide
      exact absurd (Bytes.isPrefix_of_slice_eq (by omega) (magic_of_readRecord hread)) hdata

/-- Records one after the other. -/
def inARow (records : List ByteArray) : ByteArray :=
  records.foldr (· ++ ·) ByteArray.empty

@[simp] theorem inARow_nil : inARow [] = ByteArray.empty := rfl

@[simp] theorem inARow_cons (record : ByteArray) (records : List ByteArray) :
    inARow (record :: records) = record ++ inARow records := rfl

@[simp] theorem inARow_append (records others : List ByteArray) :
    inARow (records ++ others) = inARow records ++ inARow others := by
  induction records with
  | nil => simp
  | cons record records ih => simp [ih, ByteArray.append_assoc]

theorem mapM_record {list : List ArchiveFile} (hfits : ∀ file ∈ list, Fits file) :
    list.mapM record = .ok (list.map encoded) := by
  induction list with
  | nil => rfl
  | cons file list ih =>
      rw [List.forall_mem_cons] at hfits
      rw [List.mapM_cons, record_eq_ok hfits.1.name, ih hfits.2]
      rfl

theorem files_inARow_append {list : List ArchiveFile} (hfits : ∀ file ∈ list, Fits file)
    (rest : ByteArray) : files (inARow (list.map encoded) ++ rest) = list ++ files rest := by
  induction list with
  | nil => simp
  | cons file list ih =>
      rw [List.forall_mem_cons] at hfits
      rw [List.map_cons, inARow_cons, ByteArray.append_assoc, files_encoded_append hfits.1,
        ih hfits.2, List.cons_append]

@[simp] theorem files_empty : files ByteArray.empty = [] :=
  filesFrom_of_none (readRecord_of_size_le (Nat.zero_le _))

theorem files_inARow {list : List ArchiveFile} (hfits : ∀ file ∈ list, Fits file) :
    files (inARow (list.map encoded)) = list := by
  have hread := files_inARow_append hfits ByteArray.empty
  simpa using hread

/-- How many zeros stand at the end of the last record. -/
def finalPadding (list : List ArchiveFile) : Nat :=
  (list.getLast?.map fun file => padding file.contents.size).getD 0

theorem files_of_shortened {list : List ArchiveFile} (hfits : ∀ file ∈ list, Fits file)
    {data missing : ByteArray} (hdata : inARow (list.map encoded) = data ++ missing)
    (hmissing : missing.size ≤ finalPadding list) : files data = list := by
  obtain rfl | ⟨front, last, rfl⟩ := List.eq_nil_or_concat list
  · have hempty := ByteArray.append_eq_empty_iff.mp hdata.symm
    rw [hempty.1, files_empty]
  · simp only [List.concat_eq_append, List.forall_mem_append, List.forall_mem_singleton] at hfits
    simp only [List.concat_eq_append, List.map_append, List.map_cons, List.map_nil, inARow_append,
      inARow_cons, inARow_nil, ByteArray.append_empty, encoded] at hdata
    have hpad : missing.size ≤ padding last.contents.size := by simpa [finalPadding] using hmissing
    rw [← ByteArray.append_assoc] at hdata
    obtain ⟨tail, rfl, htail⟩ := Bytes.exists_of_append_eq_append hdata (by simpa using hpad)
    have hshort : tail.size ≤ padding last.contents.size := by simpa using htail
    rw [ByteArray.append_assoc, files_inARow_append hfits.1, files_unpadded_append hfits.2 hshort,
      List.concat_eq_append]

/-! ## What an archive holds -/

/-- Reading `data` gives the files of `list` in order, and looking a name up gives the first of them
that has it. -/
structure Holds (data : ByteArray) (list : List ArchiveFile) : Prop where
  files : files data = list
  found (name : String) (contents : ByteArray) : lookup data name = some contents ↔
    ∃ before after, list = before ++ ⟨name, contents⟩ :: after ∧
      ∀ file ∈ before, file.name ≠ name
  missing (name : String) : lookup data name = none ↔ ∀ file ∈ list, file.name ≠ name

theorem holds_of_files {data : ByteArray} {list : List ArchiveFile} (hfiles : files data = list) :
    Holds data list where
  files := hfiles
  found name contents := by
    simp only [lookup, hfiles, Option.map_eq_some_iff, List.find?_eq_some_iff_append, beq_iff_eq,
      Bool.not_eq_true', beq_eq_false_iff_ne]
    constructor
    · rintro ⟨⟨_, _⟩, ⟨rfl, before, after, hsplit, hbefore⟩, rfl⟩
      exact ⟨before, after, hsplit, hbefore⟩
    · rintro ⟨before, after, hsplit, hbefore⟩
      exact ⟨⟨name, contents⟩, ⟨rfl, before, after, hsplit, hbefore⟩, rfl⟩
  missing name := by simp [lookup, hfiles]

theorem Holds.lookup_of_nodup {data : ByteArray} {list : List ArchiveFile}
    (hholds : Holds data list) (hnodup : (list.map ArchiveFile.name).Nodup) {file : ArchiveFile}
    (hfile : file ∈ list) :
    lookup data file.name = some file.contents := by
  obtain ⟨before, after, rfl⟩ := List.append_of_mem hfile
  refine (hholds.found _ _).mpr ⟨before, after, rfl, ?_⟩
  intro other hother heq
  rw [List.map_append, List.map_cons, List.nodup_append] at hnodup
  exact hnodup.2.2 _ (List.mem_map_of_mem hother) _ List.mem_cons_self heq

/-- Every list of files is read back from its records, with anything behind them that is not a
record and without the zeros at their end. -/
theorem files_are_read_back {list : List ArchiveFile} (hfits : ∀ file ∈ list, Fits file) :
    ∃ records, list.mapM record = .ok records ∧ Holds (inARow records) list ∧
      (∀ rest : ByteArray, ¬ magic <+: rest.data.toList → Holds (inARow records ++ rest) list) ∧
      ∀ data missing, inARow records = data ++ missing → missing.size ≤ finalPadding list →
        Holds data list := by
  refine ⟨list.map encoded, mapM_record hfits, holds_of_files (files_inARow hfits), ?_, ?_⟩
  · intro rest hrest
    apply holds_of_files
    rw [files_inARow_append hfits, files_of_not_magic hrest, List.append_nil]
  · intro data missing hdata hmissing
    exact holds_of_files (files_of_shortened hfits hdata hmissing)

/-- A file without a name and two files of one name, the first of them empty. -/
def namesakes : List ArchiveFile :=
  [⟨"", [1, 2, 3].toByteArray⟩, ⟨"a", ByteArray.empty⟩, ⟨"a", [5].toByteArray⟩]

theorem fits_namesakes : ∀ file ∈ namesakes, Fits file := by
  intro file hfile
  simp only [namesakes, List.mem_cons, List.not_mem_nil, or_false] at hfile
  rcases hfile with rfl | rfl | rfl <;> constructor <;> decide

theorem files_are_read_back_namesakes :
    (∀ file ∈ namesakes, Fits file) ∧
      ∃ records, namesakes.mapM record = .ok records ∧ files (inARow records) = namesakes ∧
        lookup (inARow records) "" = some [1, 2, 3].toByteArray ∧
        lookup (inARow records) "a" = some ByteArray.empty ∧
        lookup (inARow records) "b" = none ∧
        ∀ data missing, inARow records = data ++ missing → missing.size ≤ 7 →
          files data = namesakes := by
  obtain ⟨records, hrecords, hholds, _, hshort⟩ := files_are_read_back fits_namesakes
  refine ⟨fits_namesakes, records, hrecords, hholds.files, ?_, ?_, ?_, ?_⟩
  · exact (hholds.found _ _).mpr ⟨[], _, rfl, by simp⟩
  · exact (hholds.found _ _).mpr ⟨[⟨"", [1, 2, 3].toByteArray⟩], _, rfl, by simp⟩
  · exact (hholds.missing _).mpr (by simp [namesakes])
  · intro data missing hdata hmissing
    exact (hshort data missing hdata hmissing).files

end Archive

end BootMemory
