import BootMemory.BinarySize
import BootMemory.MemoryMap.Basic

/-!
# Surveying the memory map

Only whole pages can be handed out, so each usable region is shrunk inwards to page boundaries,
and a region that holds no whole page is left out.  A survey finds the bounds of what remains;
one bit per frame between those bounds is what the allocator keeps, and it looks for the first
region that can hold these bits.
-/

namespace BootMemory

structure PageRange where
  start : Word
  stop : Word
  deriving DecidableEq

namespace PageRange

def isNonempty (r : PageRange) : Bool :=
  r.start < r.stop

def size (r : PageRange) : Word :=
  r.stop - r.start

end PageRange

/-- The whole pages inside a region; the range is empty or reversed if there are none. -/
def MemoryRegion.interior (r : MemoryRegion) : Except Fault PageRange := do
  let start ← Word.alignUp r.base.word pageSize
  let stop ← r.stop
  return ⟨start, stop.word.pageFloor⟩

def MemoryMap.usablePages (map : MemoryMap) : Except Fault (List PageRange) := do
  let ranges ← map.usable.mapM MemoryRegion.interior
  return ranges.filter PageRange.isNonempty

def MemoryMap.usableBytes (map : MemoryMap) : Except Fault Word :=
  map.usable.foldlM (fun total r => Word.add total r.length) 0

inductive SetupError where
  | noUsablePage
  | noRoomForBitmap (bytes : Word)
  | storageTooSmall (required provided : Word)
  deriving DecidableEq

def SetupError.message : SetupError → String
  | .noUsablePage => "memory map contains no usable memory"
  | .noRoomForBitmap bytes =>
      "no usable region can hold a " ++ toString bytes.toNat ++ "-byte frame bitmap"
  | .storageTooSmall required provided =>
      "bitmap storage holds " ++ toString provided.toNat ++ " bytes, " ++
        toString required.toNat ++ " required"

structure MemorySurvey where
  /-- The bytes of all usable regions, whole pages or not. -/
  usableBytes : Word
  /-- The lowest whole page. -/
  base : PhysAddr
  /-- The end of the highest whole page. -/
  top : PhysAddr
  deriving DecidableEq

namespace MemorySurvey

def ofMap (map : MemoryMap) : Except (Failure SetupError) MemorySurvey := do
  let total ← map.usableBytes.mapError .fault
  let ranges ← map.usablePages.mapError .fault
  match ranges with
  | [] => .error (.error .noUsablePage)
  | first :: rest =>
      let base := rest.foldl (fun low r => min low r.start) first.start
      let top := rest.foldl (fun high r => max high r.stop) first.stop
      return ⟨total, ⟨base⟩, ⟨top⟩⟩

/-- Frames between the bounds, holes between usable regions included. -/
def frameCount (survey : MemorySurvey) : Except Fault Word := do
  let bytes ← survey.top.distance survey.base
  return bytes / pageSize

/-- Bytes that hold one bit for each of those frames. -/
def bitmapBytes (survey : MemorySurvey) : Except Fault Word := do
  let frames ← survey.frameCount
  return if frames % 8 = 0 then frames / 8 else frames / 8 + 1

/-- The start of the first usable range with room for `required` bytes. -/
def firstFit (required : Word) : List MemoryRegion → Except Fault (Option PhysAddr)
  | [] => .ok none
  | r :: rest => do
      let range ← r.interior
      if range.isNonempty && required ≤ range.size then return some ⟨range.start⟩
      else firstFit required rest

/-- Where the bitmap goes: the first usable range that can hold it in whole pages. -/
def bitmapPlace (survey : MemorySurvey) (map : MemoryMap) :
    Except (Failure SetupError) PhysAddr := do
  let size ← survey.bitmapBytes.mapError .fault
  let required ← (Word.alignUp size pageSize).mapError .fault
  match ← (firstFit required map.usable).mapError .fault with
  | some location => return location
  | none => .error (.error (.noRoomForBitmap size))

end MemorySurvey

end BootMemory
