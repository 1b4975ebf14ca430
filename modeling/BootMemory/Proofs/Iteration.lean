import BootMemory.Proofs.Numbers
import BootMemory.Proofs.RoundTrip

/-!
# Iterating over an archive

The reader adds up offsets that it has read from the data, which may hold anything.  Here an
iterator does this in words: sums of what was read are checked and end the iteration when they
overflow, while an overflow of any other sum, and an access outside bytes that were found, is a
fault.  No data of less than 2^63 bytes makes it fault.  It yields the records of the format, each
of which is a rule on the bytes from an offset on, until there is none.
-/

namespace BootMemory

/-! ## Bytes of a part -/

namespace Bytes

variable {data : ByteArray} {i j k : Nat}

theorem byteAt_extract (hk : i + k < j) :
    byteAt (data.extract i j) k = byteAt data (i + k) := by
  by_cases hin : i + k < data.size
  · have hpart : k < (data.extract i j).size := by
      rw [ByteArray.size_extract]
      omega
    rw [byteAt, byteAt, dif_pos hpart, dif_pos hin, ByteArray.getElem_extract]
  · have hpart : ¬ k < (data.extract i j).size := by
      rw [ByteArray.size_extract]
      omega
    rw [byteAt, byteAt, dif_neg hpart, dif_neg hin]

theorem slice_extract {count : Nat} (hk : i + k + count ≤ j) :
    slice (data.extract i j) k count = slice data (i + k) count := by
  apply List.map_congr_left
  intro l hl
  rw [List.mem_range] at hl
  rw [byteAt_extract (by omega), Nat.add_assoc]

end Bytes

theorem ofLittleEndian_lt (bytes : List UInt8) : ofLittleEndian bytes < 256 ^ bytes.length := by
  induction bytes with
  | nil => exact Nat.one_pos
  | cons byte rest ih =>
      have hbyte := byte.toNat_lt
      rw [ofLittleEndian, List.length_cons, Nat.pow_succ]
      omega

namespace Archive

/-! ## The format -/

/-- A record at a place in data: where it starts, its file, and the bounds of its contents. -/
structure Located where
  offset : Nat
  file : ArchiveFile
  start : Nat
  stop : Nat

namespace Located

/-- The end of the name in a header at `offset`. -/
def nameStop (data : ByteArray) (offset : Nat) : Nat :=
  offset + fixedHeaderSize + (Bytes.byteAt data (offset + 20)).toNat

/-- The record stands in `data`: its header starts with the magic number and says where the
contents start and stop, the name follows the fixed part of the header and ends before the
contents, and all of it is there. -/
structure Stands (p : Located) (data : ByteArray) : Prop where
  fixed : p.offset + fixedHeaderSize ≤ data.size
  magic : Bytes.slice data p.offset 4 = magic
  start : p.start = p.offset + numberAt data (p.offset + 4)
  stop : p.stop = p.start + numberAt data (p.offset + 12)
  named : nameStop data p.offset ≤ p.start
  nameFits : nameStop data p.offset ≤ data.size
  name : p.file.name.toUTF8 =
    data.extract (p.offset + fixedHeaderSize) (nameStop data p.offset)
  fits : p.stop ≤ data.size
  contents : p.file.contents = data.extract p.start p.stop

def next (p : Located) : Nat :=
  p.stop + padding (p.stop - p.start)

end Located

theorem padding_spec (size : Nat) : padding size < 8 ∧ 8 ∣ size + padding size := by
  simp only [padding, alignment]
  omega

namespace Located

variable {data : ByteArray} {p q : Located}

theorem Stands.ordered (hp : p.Stands data) :
    p.offset + fixedHeaderSize ≤ p.start ∧ p.start ≤ p.stop ∧ p.stop ≤ p.next := by
  have hnamed := hp.named
  have hstop := hp.stop
  unfold nameStop at hnamed
  unfold next
  omega

/-- The next record is looked for where the contents have been filled up to a multiple of eight
bytes. -/
theorem Stands.filled (hp : p.Stands data) :
    p.stop ≤ p.next ∧ p.next < p.stop + 8 ∧ 8 ∣ p.next - p.start := by
  have hpad := padding_spec (p.stop - p.start)
  have hordered := hp.ordered
  have hnext : p.next = p.stop + padding (p.stop - p.start) := rfl
  omega

/-- The bytes from an offset on make at most one record. -/
theorem Stands.unique (hp : p.Stands data) (hq : q.Stands data) (hoffset : q.offset = p.offset) :
    q = p := by
  obtain ⟨offset, ⟨name, contents⟩, start, stop⟩ := p
  obtain ⟨offset', ⟨name', contents'⟩, start', stop'⟩ := q
  obtain rfl : offset' = offset := hoffset
  obtain rfl : start' = start := hq.start.trans hp.start.symm
  obtain rfl : stop' = stop := hq.stop.trans hp.stop.symm
  obtain rfl : contents' = contents := hq.contents.trans hp.contents.symm
  obtain rfl : name' = name := String.toByteArray_inj.mp (hq.name.trans hp.name.symm)
  rfl

end Located

theorem readRecord_of_stands {data : ByteArray} {p : Located} (hp : p.Stands data) :
    readRecord data p.offset = some (p.file, p.next) := by
  have hname := Text.fromUTF8?_eq_some.mpr hp.name
  have hstop : p.stop =
      p.offset + numberAt data (p.offset + 4) + numberAt data (p.offset + 12) := by
    rw [hp.stop, hp.start]
  have hsize : p.stop - p.start = numberAt data (p.offset + 12) := by
    rw [hp.stop, Nat.add_sub_cancel_left]
  have hfixed := hp.fixed
  have hnamed := hp.named
  have hnameFits := hp.nameFits
  have hfits := hp.fits
  rw [hp.start] at hnamed
  rw [hstop] at hfits
  unfold Located.nameStop at hname hnamed hnameFits
  simp only [readRecord]
  rw [if_neg (by omega), if_neg (fun hbad => hbad hp.magic), if_neg (by omega), if_neg (by omega),
    hname]
  simp only
  rw [if_neg (by omega), Located.next, hsize, ← hstop, ← hp.start, ← hp.contents]

theorem stands_of_readRecord {data : ByteArray} {offset next : Nat} {file : ArchiveFile}
    (hread : readRecord data offset = some (file, next)) :
    ∃ p : Located, p.Stands data ∧ p.offset = offset ∧ p.file = file ∧ p.next = next := by
  simp only [readRecord] at hread
  split at hread
  next => cases hread
  next hfixed =>
  split at hread
  next => cases hread
  next hmagic =>
  split at hread
  next => cases hread
  next hnamed =>
  split at hread
  next => cases hread
  next hnameFits =>
  split at hread
  next => cases hread
  next name hname =>
  split at hread
  next => cases hread
  next hfits =>
    obtain ⟨rfl, rfl⟩ := Prod.mk.inj (Option.some.inj hread)
    refine ⟨⟨offset, _, offset + numberAt data (offset + 4),
      offset + numberAt data (offset + 4) + numberAt data (offset + 12)⟩, ?_, rfl, rfl, ?_⟩
    · exact {
        fixed := Nat.not_lt.mp hfixed
        magic := not_not.mp hmagic
        start := rfl
        stop := rfl
        named := Nat.not_lt.mp hnamed
        nameFits := Nat.not_lt.mp hnameFits
        name := Text.fromUTF8?_eq_some.mp hname
        fits := Nat.not_lt.mp hfits
        contents := rfl }
    · rw [Located.next, Nat.add_sub_cancel_left]

theorem readRecord_eq_some_iff {data : ByteArray} {offset next : Nat} {file : ArchiveFile} :
    readRecord data offset = some (file, next) ↔
      ∃ p : Located, p.Stands data ∧ p.offset = offset ∧ p.file = file ∧ p.next = next := by
  constructor
  · exact stands_of_readRecord
  · rintro ⟨p, hp, rfl, rfl, rfl⟩
    exact readRecord_of_stands hp

theorem readRecord_eq_none_iff {data : ByteArray} {offset : Nat} :
    readRecord data offset = none ↔ ∀ p : Located, p.Stands data → p.offset ≠ offset := by
  constructor
  · rintro hnone p hp rfl
    cases hnone.symm.trans (readRecord_of_stands hp)
  · intro hnone
    cases hread : readRecord data offset with
    | none => rfl
    | some found =>
        obtain ⟨p, hp, hoffset, _⟩ := stands_of_readRecord hread
        exact absurd hoffset (hnone p hp)

/-! ## Records one after the other -/

/-- The records from `offset` on: each stands where the one before it says, and none where the
last one says. -/
inductive Lists (data : ByteArray) : Nat → List Located → Prop
  | stop {offset : Nat} (hnone : ∀ p : Located, p.Stands data → p.offset ≠ offset) :
      Lists data offset []
  | step {p : Located} {rest : List Located} (hp : p.Stands data)
      (hrest : Lists data p.next rest) : Lists data p.offset (p :: rest)

/-- The records that the reader goes through from `offset` on. -/
def recordsFrom (data : ByteArray) (offset : Nat) : List Located :=
  match _h : readRecord data offset with
  | none => []
  | some (file, next) =>
      { offset, file
        start := offset + numberAt data (offset + 4)
        stop := offset + numberAt data (offset + 4) + numberAt data (offset + 12) } ::
          recordsFrom data next
termination_by data.size - offset
decreasing_by
  have := lt_of_readRecord _h
  simp only [fixedHeaderSize] at this
  omega

def records (data : ByteArray) : List Located :=
  recordsFrom data 0

section Lists

variable {data : ByteArray} {offset : Nat} {p : Located} {list : List Located}

theorem recordsFrom_of_none (hnone : readRecord data offset = none) :
    recordsFrom data offset = [] := by
  rw [recordsFrom]
  split <;> simp_all

theorem recordsFrom_of_stands (hp : p.Stands data) :
    recordsFrom data p.offset = p :: recordsFrom data p.next := by
  have hread := readRecord_of_stands hp
  rw [recordsFrom]
  split
  next hnone => cases hnone.symm.trans hread
  next file next hsome =>
    obtain ⟨rfl, rfl⟩ := Prod.mk.inj (Option.some.inj (hsome.symm.trans hread))
    rw [← hp.start, ← hp.stop]

theorem Lists.eq_recordsFrom (hlists : Lists data offset list) :
    recordsFrom data offset = list := by
  induction hlists with
  | stop hnone => exact recordsFrom_of_none (readRecord_eq_none_iff.mpr hnone)
  | step hp _ ih => rw [recordsFrom_of_stands hp, ih]

theorem lists_recordsFrom (data : ByteArray) (offset : Nat) :
    Lists data offset (recordsFrom data offset) := by
  induction offset using recordsFrom.induct data with
  | case1 offset hnone =>
      rw [recordsFrom_of_none hnone]
      exact .stop (readRecord_eq_none_iff.mp hnone)
  | case2 offset file next hsome ih =>
      obtain ⟨p, hp, rfl, _, rfl⟩ := stands_of_readRecord hsome
      rw [recordsFrom_of_stands hp]
      exact .step hp ih

theorem filesFrom_eq_map (hlists : Lists data offset list) :
    filesFrom data offset = list.map Located.file := by
  induction hlists with
  | stop hnone => exact filesFrom_of_none (readRecord_eq_none_iff.mpr hnone)
  | step hp _ ih => rw [filesFrom_of_some (readRecord_of_stands hp), ih, List.map_cons]

theorem Lists.stands (hlists : Lists data offset list) : ∀ p ∈ list, p.Stands data := by
  induction hlists with
  | stop _ => simp
  | step hp _ ih => exact List.forall_mem_cons.mpr ⟨hp, ih⟩

theorem Lists.offset_le (hlists : Lists data offset list) : ∀ p ∈ list, offset ≤ p.offset := by
  induction hlists with
  | stop _ => simp
  | step hp _ ih =>
      have hordered := hp.ordered
      refine List.forall_mem_cons.mpr ⟨le_rfl, fun q hq => ?_⟩
      exact le_trans (by omega) (ih q hq)

theorem files_eq_map (data : ByteArray) : files data = (records data).map Located.file :=
  filesFrom_eq_map (lists_recordsFrom data 0)

/-- No contents start before those of the records in front have stopped. -/
theorem Lists.pairwise (hlists : Lists data offset list) :
    list.Pairwise fun p q => p.stop ≤ q.start := by
  induction hlists with
  | stop _ => exact List.Pairwise.nil
  | step hp hrest ih =>
      refine List.Pairwise.cons (fun q hq => ?_) ih
      have hafter := hrest.offset_le q hq
      have hordered := hp.ordered
      have hqOrdered := (hrest.stands q hq).ordered
      omega

theorem Lists.length_le (hlists : Lists data offset list) :
    fixedHeaderSize * list.length ≤ data.size - offset := by
  induction hlists with
  | stop _ => exact Nat.zero_le _
  | @step p rest hp _ ih =>
      -- the fixed part of the header is this record's own
      have hfixed := hp.fixed
      have hordered := hp.ordered
      rw [List.length_cons, Nat.mul_succ]
      omega

end Lists

/-! ## Iterating in words -/

/-- A step that may find nothing, and that a fault may end. -/
abbrev Finding (α : Type) := OptionT (Except Fault) α

/-- A sum that finds nothing if it leaves the word. -/
def sum (a b : Word) : Finding Word :=
  if a.toNat + b.toNat < 2 ^ 64 then pure (a + b) else failure

/-- The bytes from `start` to `stop`, if all of them are there. -/
def between (data : ByteArray) (start stop : Word) : Finding ByteArray :=
  if start.toNat ≤ stop.toNat ∧ stop.toNat ≤ data.size then
    pure (data.extract start.toNat stop.toNat)
  else failure

def numberFrom (data : ByteArray) (start : Word) : Finding Word := do
  let stop ← Word.add start 8
  let bytes ← between data start stop
  if bytes.size = 8 then pure (UInt64.ofNat (numberAt bytes 0)) else failure

def firstBytes (part : ByteArray) (count : Nat) : Except Fault (List UInt8) :=
  if count ≤ part.size then .ok (Bytes.slice part 0 count) else .error .readPastEnd

def byteOf (part : ByteArray) (i : Nat) : Except Fault UInt8 :=
  if i < part.size then .ok (Bytes.byteAt part i) else .error .readPastEnd

def text (bytes : ByteArray) : Finding String :=
  OptionT.mk (pure (String.fromUTF8? bytes))

def wordPadding (size : Word) : Except Fault Word := do
  let missing ← Word.sub 8 (size % 8)
  return missing % 8

structure Sizes where
  header : Word
  contents : Word
  name : Word

def findSizes (data : ByteArray) (start : Word) : Finding Sizes := do
  let stop ← sum start (UInt64.ofNat fixedHeaderSize)
  let fixed ← between data start stop
  let mark ← firstBytes fixed 4
  if mark ≠ magic then failure else
  let headerAt ← Word.add start 4
  let header ← numberFrom data headerAt
  let contentsAt ← Word.add start 12
  let contents ← numberFrom data contentsAt
  let name ← byteOf fixed 20
  let least ← Word.add (UInt64.ofNat fixedHeaderSize) name.toUInt64
  if header < least then failure else
  return ⟨header, contents, name.toUInt64⟩

def findName (data : ByteArray) (start size : Word) : Finding String := do
  let nameStart ← Word.add start (UInt64.ofNat fixedHeaderSize)
  let nameStop ← Word.add nameStart size
  let bytes ← between data nameStart nameStop
  text bytes

/-- The contents behind a header at `start`, and where the next record is looked for. -/
def findContents (data : ByteArray) (start header size : Word) : Finding (ByteArray × Word) := do
  let first ← sum start header
  let stop ← sum first size
  let contents ← between data first stop
  let filler ← wordPadding size
  let next ← Word.add stop filler
  return (contents, next)

/-- What `readRecord` reads, with every offset and size a word. -/
def findRecord (data : ByteArray) (start : Word) : Finding (ArchiveFile × Word) := do
  let sizes ← findSizes data start
  let name ← findName data start sizes.name
  let (contents, next) ← findContents data start sizes.header sizes.contents
  return (⟨name, contents⟩, next)

structure Iterator where
  data : ByteArray
  offset : Word

/-- An iterator that finds no record stays where it is. -/
def Iterator.next (it : Iterator) : Except Fault (Option ArchiveFile × Iterator) := do
  match ← (findRecord it.data it.offset).run with
  | some (file, offset) => return (some file, { it with offset })
  | none => return (none, it)

/-- The answers to a number of calls in a row. -/
def Iterator.answers (it : Iterator) : Nat → Except Fault (List (Option ArchiveFile))
  | 0 => return []
  | calls + 1 => do
      let (answer, moved) ← it.next
      let others ← moved.answers calls
      return answer :: others

/-! ## Steps in words -/

namespace Finding

variable {α β : Type}

theorem failure_bind (f : α → Finding β) : (failure : Finding α) >>= f = failure := rfl

theorem mk_some (a : α) : (OptionT.mk (pure (some a)) : Finding α) = pure a := rfl

theorem liftM_ok (a : α) : (liftM (Except.ok a : Except Fault α) : Finding α) = pure a := rfl

end Finding

section Words

variable {data : ByteArray} {start count : Word} {β : Type}

theorem part_found (hsize : data.size < 2 ^ 63) (hfits : start.toNat + count.toNat ≤ data.size)
    (f : Word → ByteArray → Finding β) :
    (do let stop ← sum start count
        let part ← between data start stop
        f stop part) =
      f (start + count) (data.extract start.toNat (start.toNat + count.toNat)) := by
  have hword : start.toNat + count.toNat < 2 ^ 64 := by omega
  have hstop := Word.toNat_add hword
  rw [sum, if_pos hword, pure_bind, between, if_pos (by omega), pure_bind, hstop]

theorem part_missing (hmissing : data.size < start.toNat + count.toNat)
    (f : Word → ByteArray → Finding β) :
    (do let stop ← sum start count
        let part ← between data start stop
        f stop part) = failure := by
  by_cases hword : start.toNat + count.toNat < 2 ^ 64
  · have hstop := Word.toNat_add hword
    rw [sum, if_pos hword, pure_bind, between, if_neg (by omega), Finding.failure_bind]
  · rw [sum, if_neg hword, Finding.failure_bind]

theorem number_found (hsize : data.size < 2 ^ 63) {place : Nat}
    (hplace : start.toNat + count.toNat = place) (hfits : place + 8 ≤ data.size)
    (f : Word → Finding β) :
    (do let first ← Word.add start count
        let number ← numberFrom data first
        f number) = f (UInt64.ofNat (numberAt data place)) := by
  have hfirst : (start + count).toNat = place := (Word.toNat_add (by omega)).trans hplace
  have hword : (start + count).toNat + (8 : Word).toNat < 2 ^ 64 := by
    change _ + 8 < _
    omega
  have hstop : (start + count + 8).toNat = place + 8 := by
    rw [Word.toNat_add hword, hfirst]
    rfl
  have hpart : (data.extract place (place + 8)).size = 8 := by
    rw [ByteArray.size_extract]
    omega
  rw [Word.add_eq_ok (by omega), Finding.liftM_ok, pure_bind, numberFrom, Word.add_eq_ok hword,
    Finding.liftM_ok, pure_bind, between, if_pos (by omega), pure_bind, hfirst, hstop,
    if_pos hpart, pure_bind, numberAt, Bytes.slice_extract (by omega), Nat.add_zero, ← numberAt]

theorem wordPadding_eq (size : Word) :
    wordPadding size = .ok (UInt64.ofNat (padding size.toNat)) := by
  have hrest : (size % 8).toNat = size.toNat % 8 := UInt64.toNat_mod size 8
  have height : (8 : Word).toNat = 8 := rfl
  have hbelow : (size % 8).toNat ≤ (8 : Word).toNat := by
    rw [hrest, height]
    omega
  have hpad : padding size.toNat < 2 ^ 64 := (padding_spec size.toNat).1.trans (by decide)
  rw [wordPadding, Word.sub_eq_ok hbelow]
  apply congrArg Except.ok
  apply UInt64.toNat_inj.mp
  rw [UInt64.toNat_mod, Word.toNat_sub hbelow, UInt64.toNat_ofNat_of_lt' hpad, hrest]
  rfl

theorem firstBytes_eq {k : Nat} (hk : k ≤ count.toNat)
    (hfits : start.toNat + count.toNat ≤ data.size) :
    firstBytes (data.extract start.toNat (start.toNat + count.toNat)) k =
      .ok (Bytes.slice data start.toNat k) := by
  rw [firstBytes, if_pos (by rw [ByteArray.size_extract]; omega), Bytes.slice_extract (by omega),
    Nat.add_zero]

theorem byteOf_eq {i : Nat} (hi : i < count.toNat)
    (hfits : start.toNat + count.toNat ≤ data.size) :
    byteOf (data.extract start.toNat (start.toNat + count.toNat)) i =
      .ok (Bytes.byteAt data (start.toNat + i)) := by
  rw [byteOf, if_pos (by rw [ByteArray.size_extract]; omega), Bytes.byteAt_extract (by omega)]

theorem toNat_numberAt (data : ByteArray) (offset : Nat) :
    (UInt64.ofNat (numberAt data offset)).toNat = numberAt data offset := by
  have hlt := ofLittleEndian_lt (Bytes.slice data offset 8)
  rw [Bytes.length_slice] at hlt
  exact UInt64.toNat_ofNat_of_lt' hlt

theorem findSizes_eq (hsize : data.size < 2 ^ 63) (start : Word) :
    findSizes data start =
      if data.size < start.toNat + fixedHeaderSize then failure
      else if Bytes.slice data start.toNat 4 ≠ magic then failure
      else if numberAt data (start.toNat + 4) <
        fixedHeaderSize + (Bytes.byteAt data (start.toNat + 20)).toNat then failure
      else pure ⟨UInt64.ofNat (numberAt data (start.toNat + 4)),
        UInt64.ofNat (numberAt data (start.toNat + 12)),
        (Bytes.byteAt data (start.toNat + 20)).toUInt64⟩ := by
  have hfixedSize : (UInt64.ofNat fixedHeaderSize).toNat = fixedHeaderSize := rfl
  rw [findSizes]
  by_cases hfixed : data.size < start.toNat + fixedHeaderSize
  · rw [if_pos hfixed, part_missing (by rwa [hfixedSize])]
  rw [if_neg hfixed]
  have hfits : start.toNat + (UInt64.ofNat fixedHeaderSize).toNat ≤ data.size :=
    Nat.not_lt.mp hfixed
  rw [part_found hsize hfits, firstBytes_eq (by decide) hfits, byteOf_eq (by decide) hfits,
    Finding.liftM_ok, pure_bind]
  by_cases hmagic : Bytes.slice data start.toNat 4 ≠ magic
  · rw [if_pos hmagic, if_pos hmagic]
  rw [if_neg hmagic, if_neg hmagic]
  have hname : (Bytes.byteAt data (start.toNat + 20)).toUInt64.toNat =
      (Bytes.byteAt data (start.toNat + 20)).toNat := UInt8.toNat_toUInt64 _
  have hbyte := (Bytes.byteAt data (start.toNat + 20)).toNat_lt
  have hleast : (UInt64.ofNat fixedHeaderSize).toNat +
      (Bytes.byteAt data (start.toNat + 20)).toUInt64.toNat < 2 ^ 64 := by
    rw [hname, hfixedSize, fixedHeaderSize]
    omega
  have hheader : UInt64.ofNat (numberAt data (start.toNat + 4)) < UInt64.ofNat fixedHeaderSize +
      (Bytes.byteAt data (start.toNat + 20)).toUInt64 ↔ numberAt data (start.toNat + 4) <
        fixedHeaderSize + (Bytes.byteAt data (start.toNat + 20)).toNat := by
    rw [UInt64.lt_iff_toNat_lt, toNat_numberAt, Word.toNat_add hleast, hname, hfixedSize]
  -- both numbers lie in the fixed part, so their places are found
  have hwhole : start.toNat + 21 ≤ data.size := hfits
  have hfour : start.toNat + (4 : Word).toNat = start.toNat + 4 := rfl
  have htwelve : start.toNat + (12 : Word).toNat = start.toNat + 12 := rfl
  rw [number_found hsize hfour (by omega), number_found hsize htwelve (by omega),
    Finding.liftM_ok, pure_bind, Word.add_eq_ok hleast, Finding.liftM_ok, pure_bind]
  simp only [hheader]

theorem findName_eq (hsize : data.size < 2 ^ 63)
    (hfixed : start.toNat + fixedHeaderSize ≤ data.size) {size : Word}
    (hname : size.toNat < 256) :
    findName data start size =
      if data.size < start.toNat + fixedHeaderSize + size.toNat then failure
      else text (data.extract (start.toNat + fixedHeaderSize)
        (start.toNat + fixedHeaderSize + size.toNat)) := by
  have hfixedSize : (UInt64.ofNat fixedHeaderSize).toNat = fixedHeaderSize := rfl
  have hstartWord : start.toNat + (UInt64.ofNat fixedHeaderSize).toNat < 2 ^ 64 := by
    rw [hfixedSize]
    omega
  rw [findName, Word.add_eq_ok hstartWord, Finding.liftM_ok, pure_bind]
  have hstart := Word.toNat_add hstartWord
  rw [hfixedSize] at hstart
  have hstopWord : (start + UInt64.ofNat fixedHeaderSize).toNat + size.toNat < 2 ^ 64 := by omega
  rw [Word.add_eq_ok hstopWord, Finding.liftM_ok, pure_bind, between,
    Word.toNat_add hstopWord, hstart]
  by_cases hfits : data.size < start.toNat + fixedHeaderSize + size.toNat
  · rw [if_pos hfits, if_neg (by omega), Finding.failure_bind]
  · rw [if_neg hfits, if_pos (by omega), pure_bind]

theorem findContents_eq (hsize : data.size < 2 ^ 63) (start header size : Word) :
    findContents data start header size =
      if data.size < start.toNat + header.toNat + size.toNat then failure
      else pure (data.extract (start.toNat + header.toNat)
          (start.toNat + header.toNat + size.toNat),
        UInt64.ofNat (start.toNat + header.toNat + size.toNat + padding size.toNat)) := by
  rw [findContents]
  by_cases hfirstWord : start.toNat + header.toNat < 2 ^ 64
  · have hfirst := Word.toNat_add hfirstWord
    rw [sum, if_pos hfirstWord, pure_bind]
    by_cases hfits : data.size < start.toNat + header.toNat + size.toNat
    · rw [if_pos hfits, part_missing (by rwa [hfirst])]
    · have hpad := (padding_spec size.toNat).1
      have hpadWord : (UInt64.ofNat (padding size.toNat)).toNat = padding size.toNat :=
        UInt64.toNat_ofNat_of_lt' (hpad.trans (by decide))
      have hstop := Word.toNat_add (a := start + header) (b := size) (by omega)
      rw [if_neg hfits, part_found hsize (by omega), wordPadding_eq, Finding.liftM_ok, pure_bind,
        Word.add_eq_ok (by omega), Finding.liftM_ok, pure_bind, hfirst]
      congr 2
      apply UInt64.toNat_inj.mp
      rw [Word.toNat_add (by omega), hstop, hfirst, hpadWord, UInt64.toNat_ofNat_of_lt']
      simp only [UInt64.size]
      omega
  · -- contents that would start behind the last word are beyond the data
    rw [sum, if_neg hfirstWord, if_pos (by omega), Finding.failure_bind]

/-- Finding the record at a word is reading it there.  No fault occurs, for each offset in an
unchecked sum is one of a byte that was found before. -/
theorem findRecord_eq (hsize : data.size < 2 ^ 63) (start : Word) :
    findRecord data start = OptionT.mk (.ok ((readRecord data start.toNat).map fun found =>
      (found.1, UInt64.ofNat found.2))) := by
  have hbyte : (Bytes.byteAt data (start.toNat + 20)).toUInt64.toNat =
      (Bytes.byteAt data (start.toNat + 20)).toNat := UInt8.toNat_toUInt64 _
  -- the cases are the checks of the reader, which both sides make in the same order
  rw [findRecord, findSizes_eq hsize]
  simp only [readRecord]
  by_cases hfixed : data.size < start.toNat + fixedHeaderSize
  · rw [if_pos hfixed, if_pos hfixed]
    rfl
  rw [if_neg hfixed, if_neg hfixed]
  by_cases hmagic : Bytes.slice data start.toNat 4 ≠ magic
  · rw [if_pos hmagic, if_pos hmagic]
    rfl
  rw [if_neg hmagic, if_neg hmagic]
  by_cases hnamed : numberAt data (start.toNat + 4) <
      fixedHeaderSize + (Bytes.byteAt data (start.toNat + 20)).toNat
  · rw [if_pos hnamed, if_pos (by omega)]
    rfl
  rw [if_neg hnamed, if_neg (by omega), pure_bind]
  dsimp only
  rw [findName_eq hsize (Nat.not_lt.mp hfixed) (by rw [hbyte]; exact UInt8.toNat_lt _), hbyte]
  by_cases hnameFits : data.size <
      start.toNat + fixedHeaderSize + (Bytes.byteAt data (start.toNat + 20)).toNat
  · rw [if_pos hnameFits, if_pos hnameFits]
    rfl
  rw [if_neg hnameFits, if_neg hnameFits, findContents_eq hsize, toNat_numberAt, toNat_numberAt]
  rw [text]
  generalize String.fromUTF8? (data.extract (start.toNat + fixedHeaderSize)
    (start.toNat + fixedHeaderSize + (Bytes.byteAt data (start.toNat + 20)).toNat)) = name?
  cases name? with
  | none => rfl
  | some name =>
      rw [Finding.mk_some, pure_bind]
      by_cases hfits : data.size < start.toNat + numberAt data (start.toNat + 4) +
          numberAt data (start.toNat + 12)
      · simp only [if_pos hfits]
        rfl
      · simp only [if_neg hfits, pure_bind]
        rfl

end Words

/-! ## Iterating over the records -/

theorem Located.Stands.next_lt {data : ByteArray} {p : Located} (hsize : data.size < 2 ^ 63)
    (hp : p.Stands data) : p.next < 2 ^ 64 := by
  have hnext := hp.filled.2.1
  have hfits := hp.fits
  omega

namespace Iterator

variable {data : ByteArray} {offset : Word} {p : Located} {list : List Located}

theorem next_of_stands (hsize : data.size < 2 ^ 63) (hp : p.Stands data)
    (hoffset : p.offset = offset.toNat) :
    (Iterator.mk data offset).next = .ok (some p.file, ⟨data, UInt64.ofNat p.next⟩) := by
  rw [next, findRecord_eq hsize, ← hoffset, readRecord_of_stands hp]
  rfl

theorem next_of_none (hsize : data.size < 2 ^ 63)
    (hnone : ∀ p : Located, p.Stands data → p.offset ≠ offset.toNat) :
    (Iterator.mk data offset).next = .ok (none, ⟨data, offset⟩) := by
  rw [next, findRecord_eq hsize, readRecord_eq_none_iff.mpr hnone]
  rfl

/-- A call is answered from the record that stands at the offset, if one does. -/
theorem next_cases (hsize : data.size < 2 ^ 63) (offset : Word) :
    (∃ p : Located, p.Stands data ∧ p.offset = offset.toNat ∧
      (Iterator.mk data offset).next = .ok (some p.file, ⟨data, UInt64.ofNat p.next⟩)) ∨
    (∀ p : Located, p.Stands data → p.offset ≠ offset.toNat) ∧
      (Iterator.mk data offset).next = .ok (none, ⟨data, offset⟩) := by
  by_cases hstands : ∃ p : Located, p.Stands data ∧ p.offset = offset.toNat
  · obtain ⟨p, hp, hoffset⟩ := hstands
    exact .inl ⟨p, hp, hoffset, next_of_stands hsize hp hoffset⟩
  · have hnone (p : Located) (hp : p.Stands data) : p.offset ≠ offset.toNat :=
      fun hoffset => hstands ⟨p, hp, hoffset⟩
    exact .inr ⟨hnone, next_of_none hsize hnone⟩

theorem next_eq_some_iff (hsize : data.size < 2 ^ 63) {file : ArchiveFile} {moved : Iterator} :
    (Iterator.mk data offset).next = .ok (some file, moved) ↔
      ∃ p : Located, p.Stands data ∧ p.offset = offset.toNat ∧ p.file = file ∧
        moved.data = data ∧ moved.offset.toNat = p.next := by
  constructor
  · intro hfound
    rcases next_cases hsize offset with ⟨p, hp, hoffset, hnext⟩ | ⟨_, hnext⟩
    · cases hnext.symm.trans hfound
      exact ⟨p, hp, hoffset, rfl, rfl, UInt64.toNat_ofNat_of_lt' (hp.next_lt hsize)⟩
    · cases hnext.symm.trans hfound
  · rintro ⟨p, hp, hoffset, rfl, hdata, hmoved⟩
    obtain ⟨data', offset'⟩ := moved
    obtain rfl : data' = data := hdata
    rw [next_of_stands hsize hp hoffset, ← hmoved, UInt64.ofNat_toNat]

theorem next_eq_none_iff (hsize : data.size < 2 ^ 63) {moved : Iterator} :
    (Iterator.mk data offset).next = .ok (none, moved) ↔
      (∀ p : Located, p.Stands data → p.offset ≠ offset.toNat) ∧ moved = ⟨data, offset⟩ := by
  constructor
  · intro hended
    rcases next_cases hsize offset with ⟨_, _, _, hnext⟩ | ⟨hnone, hnext⟩
    · cases hnext.symm.trans hended
    · cases hnext.symm.trans hended
      exact ⟨hnone, rfl⟩
  · rintro ⟨hnone, rfl⟩
    exact next_of_none hsize hnone

theorem answers_of_none (hsize : data.size < 2 ^ 63)
    (hnone : ∀ p : Located, p.Stands data → p.offset ≠ offset.toNat) (calls : Nat) :
    (Iterator.mk data offset).answers calls = .ok (List.replicate calls none) := by
  induction calls with
  | zero => rfl
  | succ calls ih =>
      rw [answers, next_of_none hsize hnone]
      change ((Iterator.mk data offset).answers calls >>= _) = _
      rw [ih]
      rfl

theorem answers_eq (hsize : data.size < 2 ^ 63) {place : Nat} (hlists : Lists data place list)
    (hoffset : place = offset.toNat) (calls : Nat) :
    (Iterator.mk data offset).answers calls =
      .ok ((list.take calls).map (fun p => some p.file) ++
        List.replicate (calls - list.length) none) := by
  -- along the records: the word is the place of the first one, and a call goes on to the next
  induction hlists generalizing offset calls with
  | stop hnone =>
      subst hoffset
      simpa using answers_of_none hsize hnone calls
  | @step p rest hp _ ih =>
      cases calls with
      | zero =>
          rw [Nat.zero_sub]
          rfl
      | succ calls =>
          have hnext : p.next = (UInt64.ofNat p.next).toNat :=
            (UInt64.toNat_ofNat_of_lt' (hp.next_lt hsize)).symm
          rw [answers, next_of_stands hsize hp hoffset]
          change ((Iterator.mk data (UInt64.ofNat p.next)).answers calls >>= _) = _
          rw [ih hnext calls, List.length_cons, Nat.add_sub_add_right]
          rfl

end Iterator

/-- Iterating over `data` gives the files of `list`, whatever the data. -/
structure Iterates (data : ByteArray) (list : List Located) : Prop where
  /-- The reader accepts exactly the format. -/
  read (offset next : Nat) (file : ArchiveFile) : readRecord data offset = some (file, next) ↔
    ∃ p : Located, p.Stands data ∧ p.offset = offset ∧ p.file = file ∧ p.next = next
  /-- No call faults. -/
  total (offset : Word) : ∃ answer moved, (Iterator.mk data offset).next = .ok (answer, moved)
  /-- A file is answered exactly if its record stands at the offset. -/
  found (offset : Word) (file : ArchiveFile) (moved : Iterator) :
    (Iterator.mk data offset).next = .ok (some file, moved) ↔
      ∃ p : Located, p.Stands data ∧ p.offset = offset.toNat ∧ p.file = file ∧
        moved.data = data ∧ moved.offset.toNat = p.next
  ended (offset : Word) (moved : Iterator) :
    (Iterator.mk data offset).next = .ok (none, moved) ↔
      (∀ p : Located, p.Stands data → p.offset ≠ offset.toNat) ∧ moved = ⟨data, offset⟩
  /-- The contents are filled up to a multiple of eight bytes. -/
  filled (p : Located) : p.Stands data →
    p.stop ≤ p.next ∧ p.next < p.stop + 8 ∧ 8 ∣ p.next - p.start
  lists : Lists data 0 list
  files : files data = list.map Located.file
  answers (calls : Nat) : (Iterator.mk data 0).answers calls =
    .ok ((list.take calls).map (fun p => some p.file) ++
      List.replicate (calls - list.length) none)
  length : list.length ≤ data.size / fixedHeaderSize
  within : ∀ p ∈ list, p.start ≤ p.stop ∧ p.stop ≤ data.size
  increasing : list.Pairwise fun p q => p.stop ≤ q.start

/-- Iterating over any data of less than 2^63 bytes follows the format. -/
theorem iteration_follows_the_format {data : ByteArray} (hsize : data.size < 2 ^ 63) :
    Iterates data (records data) where
  read _ _ _ := readRecord_eq_some_iff
  total offset := by
    rcases Iterator.next_cases hsize offset with ⟨_, _, _, hnext⟩ | ⟨_, hnext⟩
    · exact ⟨_, _, hnext⟩
    · exact ⟨_, _, hnext⟩
  found _ _ _ := Iterator.next_eq_some_iff hsize
  ended _ _ := Iterator.next_eq_none_iff hsize
  filled _ hp := hp.filled
  lists := lists_recordsFrom data 0
  files := files_eq_map data
  answers calls := Iterator.answers_eq hsize (lists_recordsFrom data 0) rfl calls
  length := by
    rw [Nat.le_div_iff_mul_le (by decide), Nat.mul_comm]
    exact (lists_recordsFrom data 0).length_le
  within p hp := by
    have hstands := (lists_recordsFrom data 0).stands p hp
    exact ⟨hstands.ordered.2.1, hstands.fits⟩
  increasing := (lists_recordsFrom data 0).pairwise

/-- A record whose header has two more bytes than its name needs, and behind it a header whose
sizes are the greatest words. -/
def hostile : ByteArray :=
  ⟨#[0x4c, 0x4f, 0x52, 0x44, 24, 0, 0, 0, 0, 0, 0, 0, 3, 0, 0, 0, 0, 0, 0, 0, 1, 0x61, 9, 9, 1, 2,
    3, 0, 0, 0, 0, 0, 0x4c, 0x4f, 0x52, 0x44, 255, 255, 255, 255, 255, 255, 255, 255, 255, 255,
    255, 255, 255, 255, 255, 255, 0]⟩

theorem records_hostile : ∃ p : Located, records hostile = [p] ∧
    p.file = ⟨"a", ⟨#[1, 2, 3]⟩⟩ ∧ p.stop ≤ 32 := by
  obtain ⟨p, hp, hoffset, hfile, hnext⟩ : ∃ p : Located, p.Stands hostile ∧ p.offset = 0 ∧
      p.file = ⟨"a", ⟨#[1, 2, 3]⟩⟩ ∧ p.next = 32 := stands_of_readRecord rfl
  have hlast : Lists hostile p.next [] := by
    rw [hnext]
    exact .stop (readRecord_eq_none_iff.mp rfl)
  refine ⟨p, ?_, hfile, hnext ▸ hp.ordered.2.2⟩
  rw [records, ← hoffset, (Lists.step hp hlast).eq_recordsFrom]

theorem iteration_follows_the_format_hostile :
    hostile.size < 2 ^ 63 ∧
      (Iterator.mk hostile 0).answers 3 = .ok [some ⟨"a", ⟨#[1, 2, 3]⟩⟩, none, none] ∧
      (Iterator.mk hostile 32).next = .ok (none, ⟨hostile, 32⟩) ∧
      (Iterator.mk hostile 18446744073709551615).next =
        .ok (none, ⟨hostile, 18446744073709551615⟩) := by
  have hsize : hostile.size < 2 ^ 63 := by decide
  have hiterates := iteration_follows_the_format hsize
  obtain ⟨p, hrecords, hfile, -⟩ := records_hostile
  refine ⟨hsize, ?_, ?_, ?_⟩
  · rw [hiterates.answers, hrecords, ← hfile]
    rfl
  · exact (hiterates.ended 32 _).mpr ⟨readRecord_eq_none_iff.mp rfl, rfl⟩
  · refine (hiterates.ended 18446744073709551615 _).mpr ⟨readRecord_eq_none_iff.mp ?_, rfl⟩
    exact readRecord_of_size_le (by decide)

end Archive

end BootMemory
