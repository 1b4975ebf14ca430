import BootMemory.Archive.Record

/-!
# Reading an archive

Records are read one after the other from the start of the data.  The first place where no whole
and well-formed record starts ends the archive, so damage to a record hides it and what follows
but nothing before it.
-/

namespace BootMemory.Archive

def numberAt (data : ByteArray) (offset : Nat) : Nat :=
  ofLittleEndian (Bytes.slice data offset 8)

/-- Reads the record at `offset` and answers its file and where the next record starts. -/
def readRecord (data : ByteArray) (offset : Nat) : Option (ArchiveFile × Nat) :=
  if data.size < offset + fixedHeaderSize then none
  else if Bytes.slice data offset 4 ≠ magic then none
  else
    let headerSize := numberAt data (offset + 4)
    let size := numberAt data (offset + 12)
    let nameStart := offset + fixedHeaderSize
    let nameStop := nameStart + (Bytes.byteAt data (offset + 20)).toNat
    let stop := offset + headerSize + size
    if offset + headerSize < nameStop then none
    else if data.size < nameStop then none
    else
      match String.fromUTF8? (data.extract nameStart nameStop) with
      | none => none
      | some name =>
          if data.size < stop then none
          else some (⟨name, data.extract (offset + headerSize) stop⟩, stop + padding size)

/-- A record moves the reader on by a header at least. -/
theorem lt_of_readRecord {data : ByteArray} {offset next : Nat} {file : ArchiveFile}
    (h : readRecord data offset = some (file, next)) :
    offset + fixedHeaderSize ≤ data.size ∧ offset + fixedHeaderSize ≤ next := by
  unfold readRecord at h
  grind

def filesFrom (data : ByteArray) (offset : Nat) : List ArchiveFile :=
  match _h : readRecord data offset with
  | none => []
  | some (file, next) => file :: filesFrom data next
termination_by data.size - offset
decreasing_by
  have := lt_of_readRecord _h
  simp only [fixedHeaderSize] at this
  omega

def files (data : ByteArray) : List ArchiveFile :=
  filesFrom data 0

/-- The contents of the first file with the given name. -/
def lookup (data : ByteArray) (name : String) : Option ByteArray :=
  ((files data).find? fun file => file.name == name).map ArchiveFile.contents

end BootMemory.Archive
