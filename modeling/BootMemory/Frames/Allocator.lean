import BootMemory.Address.Arithmetic
import BootMemory.Frames.Bitmap
import BootMemory.Log

/-!
# The frame allocator

The allocator keeps one bit for each frame between the lowest and the highest usable page.  It
hands out runs of frames next-fit: a search starts where the last run ended, and if that fails a
single search from the first frame decides.  Giving frames back and setting frames aside is
clipped to the frames it keeps track of.
-/

namespace BootMemory

inductive AllocError where
  | outOfMemory
  | emptyRequest
  deriving DecidableEq

def AllocError.message : AllocError → String
  | .outOfMemory => "out of physical memory"
  | .emptyRequest => "frame count must be positive"

structure FrameAllocator where
  /-- One bit for each frame, set if the frame is taken or not usable. -/
  bitmap : Bitmap
  /-- The frame of bit 0. -/
  firstFrame : Frame
  frameCount : Nat
  cursor : Nat

namespace FrameAllocator

def taken (a : FrameAllocator) (i : Nat) : Bool :=
  a.bitmap.taken i

def frameAddress (a : FrameAllocator) (i : Nat) : PhysAddr :=
  Frame.start ⟨a.firstFrame.index + UInt64.ofNat i⟩

def freeCount (a : FrameAllocator) : Nat :=
  a.bitmap.countFree a.frameCount

/-- The bit at which the next run starts: from the cursor on, else from bit 0 on. -/
def nextRun (a : FrameAllocator) (count : Nat) : Option Nat :=
  (firstRun a.taken count a.cursor a.frameCount).or (firstRun a.taken count 0 a.frameCount)

def alloc (a : FrameAllocator) (count : Word) : Except AllocError PhysAddr × FrameAllocator :=
  if count = 0 then (.error .emptyRequest, a)
  else
    match a.nextRun count.toNat with
    | none => (.error .outOfMemory, { a with cursor := 0 })
    | some start =>
        (.ok (a.frameAddress start),
          { a with
            bitmap := a.bitmap.markRange start count.toNat true
            cursor := start + count.toNat })

/-- The bits of the frames from the one that holds `base` on, as a start and a length, clipped to
the frames kept track of. -/
def clip (a : FrameAllocator) (base : PhysAddr) (count : Word) :
    Except Fault (Option (Nat × Nat)) := do
  let first := (Frame.containing base).index
  let past ← Word.add first count
  let low := max first.toNat a.firstFrame.index.toNat
  let high := min past.toNat (a.firstFrame.index.toNat + a.frameCount)
  return if low < high then some (low - a.firstFrame.index.toNat, high - low) else none

def markFrames (a : FrameAllocator) (base : PhysAddr) (count : Word) (value : Bool) :
    Except Fault FrameAllocator := do
  match ← a.clip base count with
  | some (start, length) =>
      return { a with bitmap := a.bitmap.markRange start length value }
  | none => return a

/-- Gives `count` frames back.  Frames that are free already, or not kept track of, are passed
over. -/
def free (a : FrameAllocator) (base : PhysAddr) (count : Word) : Except Fault FrameAllocator :=
  if base.startsPage then a.markFrames base count false else .error (.unalignedFree base)

def reserve (a : FrameAllocator) (base : PhysAddr) (count : Word) : Except Fault FrameAllocator :=
  a.markFrames base.pageFloor count true

def isTaken (a : FrameAllocator) (addr : PhysAddr) : Except Fault Bool := do
  match ← a.clip addr.pageFloor 1 with
  | some (bit, _) => return a.taken bit
  | none => return true

/-- An allocator for the frames that a survey found, with all of them taken. -/
def allTaken (survey : MemorySurvey) (frameCount size : Word) (bitmap : Bitmap) :
    FrameAllocator where
  bitmap := bitmap.fill size.toNat
  firstFrame := Frame.containing survey.base
  frameCount := frameCount.toNat
  cursor := 0

/-- Clears the bits of the frames in `range`, which lies at or above `base`. -/
def clearRange (base : PhysAddr) (bitmap : Bitmap) (range : PageRange) : Bitmap :=
  bitmap.markRange ((range.start - base.word) / pageSize).toNat (range.size / pageSize).toNat false

def offersFrameZero (a : FrameAllocator) : Bool :=
  a.firstFrame.index == 0 && !a.taken 0

def withoutFrameZero (a : FrameAllocator) : FrameAllocator :=
  if a.offersFrameZero then { a with bitmap := a.bitmap.mark 0 true } else a

end FrameAllocator

/-- A computation that only reports events. -/
abbrev Reported (ε α : Type) := Action (Array LogEvent) ε α

def report {ε : Type} (event : LogEvent) : Reported ε Unit :=
  modify (·.push event)

def MemoryMap.survey (map : MemoryMap) : Reported SetupError MemorySurvey := do
  match MemorySurvey.ofMap map with
  | .error failure => throw failure
  | .ok survey =>
      report (.surveyed survey (← survey.bitmapBytes))
      return survey

namespace FrameAllocator

/-- Builds the allocator whose bits live in `bitmap`: free are the frames in the usable ranges of
`map`, all but frame 0. -/
def build (map : MemoryMap) (survey : MemorySurvey) (bitmap : Bitmap) :
    Reported SetupError FrameAllocator := do
  let full := allTaken survey (← survey.frameCount) (← survey.bitmapBytes) bitmap
  let bits := (← map.usablePages).foldl (clearRange survey.base) full.bitmap
  let a := { full with bitmap := bits }
  if a.offersFrameZero then
    report .frameZeroReserved
  return a.withoutFrameZero

/-- Builds an allocator over bytes lent to it.  Bytes beyond the bitmap are left alone. -/
def overStorage (map : MemoryMap) (storage : ByteArray) : Reported SetupError FrameAllocator := do
  let survey ← map.survey
  let required ← survey.bitmapBytes
  if storage.size < required.toNat then
    Action.fail (.storageTooSmall required (UInt64.ofNat storage.size))
  build map survey ⟨storage, 0⟩

end FrameAllocator

end BootMemory
