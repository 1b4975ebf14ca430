import BootMemory.Image.Segment
import BootMemory.Paging.Mapping

/-!
# Loading an executable

An image is loaded in two passes over its parts.  The first one checks them all.  In the second
one each of them gets fresh frames in a row, which are mapped at its addresses, cleared, and filled
with its bytes.  Failing halfway leaves the segments before, and what was mapped of this one, in
place.
-/

namespace BootMemory

inductive LoadError where
  /-- The image is turned down. -/
  | rejected (e : ImageError)
  /-- A segment cannot be mapped. -/
  | unmappable (e : MapError)
  deriving DecidableEq

def LoadError.message : LoadError → String
  | .rejected e => "invalid image: " ++ e.message
  | .unmappable e => "failed to map segment: " ++ e.message

/-- The rights on the pages of a segment: always from user mode, and as its header says. -/
def Segment.rights (s : Segment) : AccessRights :=
  let rights := AccessRights.read.union .user
  let rights := if s.writable then rights.union .write else rights
  if s.executable then rights.union .execute else rights

namespace Machine

def placeSegment (space : AddressSpace) (s : Segment) : MachineM MapError Unit := do
  let span ← Word.add s.memorySize s.virt.pageOffset
  let length ← Word.alignUp span pageSize
  let pages := length / pageSize
  let frames ← Action.mapError .noFrame (alloc pages)
  emit (.loadingSegment s.index s.virt s.memorySize frames s.rights)
  mapRange space ⟨s.virt.pageFloor, frames, length⟩ s.rights
  zeroPages frames pages
  copyIn (← frames.add s.virt.pageOffset) s.contents

end Machine

/-- Loads a part with `place`, once its bytes are found in the file again. -/
def loadPart {σ : Type} (place : Segment → Action σ MapError Unit) (file : ByteArray)
    (part : Elf.ProgramHeader × Nat) : Action σ LoadError Unit :=
  match part.1.segment file part.2 with
  | .error e => Action.fail (.rejected e)
  | .ok s => Action.mapError .unmappable (place s)

/-- Checks the image in `file`, loads its parts with `place`, and answers the address to start it
at. -/
def loadBy {σ : Type} (place : Segment → Action σ MapError Unit) (parse : Elf.Parser)
    (file : ByteArray) : Action σ LoadError VirtAddr := do
  match Executable.ofImage parse file with
  | .error e => Action.fail (.rejected e)
  | .ok image =>
      image.parts.forM (loadPart place file)
      return image.entry

namespace Machine

def load (parse : Elf.Parser) (space : AddressSpace) (file : ByteArray) :
    MachineM LoadError VirtAddr :=
  loadBy (placeSegment space) parse file

end Machine

end BootMemory
