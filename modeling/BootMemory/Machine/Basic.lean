import BootMemory.Frames.Allocator
import BootMemory.Memory
import BootMemory.Paging.Depth

/-!
# The machine

A machine is physical memory, the allocator of its frames, the paging setup of its processor, and
a record of what was reported and of which cached lookups were dropped.  The bitmap of the
allocator is kept either in storage of its own or in physical memory itself; in the second case a
write to these bytes of memory is a write to the bitmap, and the other way round.
-/

namespace BootMemory

/-- Where the bitmap of the allocator is kept. -/
inductive BitmapHome where
  | separate (storage : ByteArray)
  /-- In physical memory, from the given offset on. -/
  | resident (offset : Nat)

structure Machine where
  memory : Memory
  home : BitmapHome
  firstFrame : Frame
  frameCount : Nat
  cursor : Nat
  levels : PagingDepth
  /-- The root table that the processor is using. -/
  activeRoot : PhysAddr
  /-- The pages whose cached lookups were dropped, oldest first. -/
  invalidated : Array VirtAddr
  /-- The events reported, oldest first. -/
  log : Array LogEvent

abbrev MachineM (ε α : Type) := Action Machine ε α

namespace Machine

def bitmap (m : Machine) : Bitmap :=
  match m.home with
  | .separate storage => ⟨storage, 0⟩
  | .resident offset => ⟨m.memory.bytes, offset⟩

def allocator (m : Machine) : FrameAllocator where
  bitmap := m.bitmap
  firstFrame := m.firstFrame
  frameCount := m.frameCount
  cursor := m.cursor

def withAllocator (m : Machine) (a : FrameAllocator) : Machine :=
  match m.home with
  | .separate _ => { m with home := .separate a.bitmap.store, cursor := a.cursor }
  | .resident _ =>
      { m with memory := { m.memory with bytes := a.bitmap.store }, cursor := a.cursor }

/-- What is stored through the allocator is what is read back through it. -/
theorem bitmap_withAllocator (m : Machine) (a : FrameAllocator)
    (horigin : a.bitmap.origin = m.bitmap.origin) :
    (m.withAllocator a).bitmap = a.bitmap := by
  obtain ⟨⟨store, origin⟩, first, count, cursor⟩ := a
  subst horigin
  cases hhome : m.home <;> simp [withAllocator, bitmap, hhome]

theorem withAllocator_allocator (m : Machine) : m.withAllocator m.allocator = m := by
  obtain ⟨memory, home, firstFrame, frameCount, cursor, levels, activeRoot, invalidated, log⟩ := m
  cases home <;> rfl

def freeCount (m : Machine) : Nat :=
  m.allocator.freeCount

def overStorage (memory : Memory) (levels : PagingDepth) (map : MemoryMap)
    (storage : ByteArray) : Reported SetupError Machine := do
  let a ← FrameAllocator.overStorage map storage
  return {
    memory, levels
    home := .separate a.bitmap.store
    firstFrame := a.firstFrame
    frameCount := a.frameCount
    cursor := a.cursor
    activeRoot := ⟨0⟩
    invalidated := #[]
    log := ← get }

/-- A machine whose allocator keeps its bits in the memory it manages: at the start of the first
usable range with room for them, whose frames it sets aside. -/
def selfHosted (memory : Memory) (levels : PagingDepth) (map : MemoryMap) :
    Reported SetupError Machine := do
  let survey ← map.survey
  let size ← survey.bitmapBytes
  let location ← match survey.bitmapPlace map with
    | .ok location => pure location
    | .error failure => throw failure
  let offset ← memory.offset location
  if memory.size < offset + size.toNat then
    Action.abort .writePastEnd
  let a ← FrameAllocator.build map survey ⟨memory.bytes, offset⟩
  let a ← a.reserve location (← Word.pageCount size)
  report (.allocatorReady (← survey.frameCount) location)
  return {
    memory := { memory with bytes := a.bitmap.store }
    levels
    home := .resident offset
    firstFrame := a.firstFrame
    frameCount := a.frameCount
    cursor := a.cursor
    activeRoot := ⟨0⟩
    invalidated := #[]
    log := ← get }

def emit {ε : Type} (event : LogEvent) : MachineM ε Unit :=
  modify fun m => { m with log := m.log.push event }

/-- Drops the cached mapping of the page at `virt`. -/
def invalidate {ε : Type} (virt : VirtAddr) : MachineM ε Unit :=
  modify fun m => { m with invalidated := m.invalidated.push virt }

def takeFrames (count : Word) (m : Machine) : Except AllocError PhysAddr × Machine :=
  let (outcome, a) := m.allocator.alloc count
  (outcome, m.withAllocator a)

def alloc (count : Word) : MachineM AllocError PhysAddr := do
  match ← modifyGet (takeFrames count) with
  | .ok base =>
      emit (.allocated count base)
      return base
  | .error .outOfMemory =>
      emit (.outOfMemory count)
      Action.fail .outOfMemory
  | .error .emptyRequest => Action.fail .emptyRequest

def free {ε : Type} (base : PhysAddr) (count : Word) : MachineM ε Unit := do
  let m ← get
  set (m.withAllocator (← m.allocator.free base count))
  emit (.freed count base)

def reserve {ε : Type} (base : PhysAddr) (count : Word) : MachineM ε Unit := do
  let m ← get
  set (m.withAllocator (← m.allocator.reserve base count))

def readWord {ε : Type} (addr : PhysAddr) : MachineM ε Word := do
  (← get).memory.readWord addr

def overwrite {ε : Type} (i : Nat) (values : List UInt8) : MachineM ε Unit :=
  modify fun m => { m with memory := m.memory.overwrite i values }

def writeWord {ε : Type} (addr : PhysAddr) (value : Word) : MachineM ε Unit := do
  let i ← (← get).memory.wordOffset addr
  modify fun m => { m with memory := m.memory.overwriteWord i value }

/-- Clears `count` pages of physical memory from `addr` on, which need not start a page. -/
def zeroPages {ε : Type} (addr : PhysAddr) (count : Word) : MachineM ε Unit := do
  let _ ← (← get).memory.offset addr
  let length ← Word.mul count pageSize
  let i ← (← get).memory.spanOffset addr length.toNat
  overwrite i (List.replicate length.toNat 0)

def copyIn {ε : Type} (addr : PhysAddr) (values : List UInt8) : MachineM ε Unit := do
  let i ← (← get).memory.spanOffset addr values.length
  overwrite i values

def setActiveRoot {ε : Type} (root : PhysAddr) : MachineM ε Unit :=
  modify fun m => { m with activeRoot := root }

end Machine

end BootMemory
