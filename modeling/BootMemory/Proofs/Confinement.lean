import BootMemory.Proofs.LoadEnds
import BootMemory.Proofs.StaleFrames

/-!
# What a load may touch

No image makes a load fault.  It writes in frames that were free, in tables of the space and in the
bitmap, and nowhere else.  The two writes that fill the frames of a segment stay in the frames
taken for that segment: a loader that looks before each of them, and gives up if it does not,
loads every image as this one does.
-/

namespace BootMemory

open Elf (ProgramHeader)

theorem Action.bind_congr {σ ε α β : Type} {x : Action σ ε α} {f g : α → Action σ ε β} {s : σ}
    (hnext : ∀ a s', x s = .ok a s' → f a s' = g a s') : (x >>= f) s = (x >>= g) s := by
  rw [bind_apply, bind_apply]
  cases hrun : x s with
  | ok a s' => exact hnext a s' hrun
  | error e s' => rfl

theorem Addr.toNat_of_add_eq_ok {kind : AddrKind} {a b : Addr kind} {bytes : Word}
    (hadd : a.add bytes = .ok b) : b.word.toNat = a.word.toNat + bytes.toNat := by
  obtain ⟨_, hword, hpure⟩ := Checked.bind_eq_ok.mp hadd
  cases hpure
  exact Word.toNat_of_add_eq_ok hword

/-- Rounding up to pages leaves room for all the bytes. -/
theorem Word.le_of_alignUp_eq_ok {w length : Word}
    (halign : Word.alignUp w pageSize = .ok length) :
    w.toNat ≤ (length / pageSize).toNat * 4096 := by
  rw [Word.alignUp_pageSize] at halign
  split at halign
  next hfits =>
    cases halign
    rw [UInt64.toNat_div, toNat_pageSize,
      UInt64.toNat_ofNat_of_lt' (by simp only [UInt64.size]; omega)]
    omega
  next => cases halign

namespace Machine

/-! ## A loader that looks before it writes -/

/-- The two writes that fill the frames of a segment.  Each is told which frames were taken for the
segment, besides what it is to write. -/
structure Filling where
  clear : (frames : PhysAddr) → (pages : Word) → PhysAddr → Word → MachineM MapError Unit
  copy : (frames : PhysAddr) → (pages : Word) → PhysAddr → List UInt8 → MachineM MapError Unit

namespace Filling

def plain : Filling where
  clear _ _ := zeroPages
  copy _ _ := copyIn

/-- The `length` bytes from `addr` on lie in the `pages` frames from `frames` on. -/
def Within (frames : PhysAddr) (pages : Word) (addr : PhysAddr) (length : Nat) : Prop :=
  frames.word.toNat ≤ addr.word.toNat ∧
    addr.word.toNat + length ≤ frames.word.toNat + pages.toNat * 4096

instance (frames : PhysAddr) (pages : Word) (addr : PhysAddr) (length : Nat) :
    Decidable (Within frames pages addr length) :=
  inferInstanceAs (Decidable (_ ∧ _))

def guarded : Filling where
  clear frames pages addr count :=
    if Within frames pages addr (count.toNat * 4096) then zeroPages addr count
    else Action.abort (.outsideMemory addr)
  copy frames pages addr values :=
    if Within frames pages addr values.length then copyIn addr values
    else Action.abort (.outsideMemory addr)

end Filling

def placeSegmentVia (filling : Filling) (space : AddressSpace) (s : Segment) :
    MachineM MapError Unit := do
  let span ← Word.add s.memorySize s.virt.pageOffset
  let length ← Word.alignUp span pageSize
  let pages := length / pageSize
  let frames ← Action.mapError .noFrame (alloc pages)
  emit (.loadingSegment s.index s.virt s.memorySize frames s.rights)
  mapRange space ⟨s.virt.pageFloor, frames, length⟩ s.rights
  filling.clear frames pages frames pages
  filling.copy frames pages (← frames.add s.virt.pageOffset) s.contents

def loadVia (filling : Filling) (parse : Elf.Parser) (space : AddressSpace) (file : ByteArray) :
    MachineM LoadError VirtAddr :=
  loadBy (placeSegmentVia filling space) parse file

theorem loadVia_plain : loadVia .plain = load := rfl

/-- The run of frames is as long as the segment with what lies before it in its first page. -/
theorem placeSegmentVia_guarded (space : AddressSpace) {s : Segment}
    (hcontents : s.contents.length ≤ s.memorySize.toNat) :
    placeSegmentVia .guarded space s = placeSegment space s := by
  funext m
  unfold placeSegmentVia placeSegment
  refine Action.bind_congr fun span m₁ hspan => ?_
  refine Action.bind_congr fun length m₂ hlength => ?_
  refine Action.bind_congr fun frames m₃ _ => ?_
  refine Action.bind_congr fun _ m₄ _ => ?_
  refine Action.bind_congr fun _ m₅ _ => ?_
  have hsize : s.memorySize.toNat + s.virt.pageOffset.toNat ≤
      (length / pageSize).toNat * 4096 := by
    rw [← Word.toNat_of_add_eq_ok (Action.lift_eq_ok hspan).1]
    exact Word.le_of_alignUp_eq_ok (Action.lift_eq_ok hlength).1
  have hclear : Filling.Within frames (length / pageSize) frames
      ((length / pageSize).toNat * 4096) := by
    simp [Filling.Within]
  rw [Filling.guarded]
  simp only [if_pos hclear]
  refine Action.bind_congr fun _ m₆ _ => ?_
  refine Action.bind_congr fun addr m₇ haddr => ?_
  have hstart := Addr.toNat_of_add_eq_ok (Action.lift_eq_ok haddr).1
  have hcopy : Filling.Within frames (length / pageSize) addr s.contents.length := by
    simp only [Filling.Within, hstart]
    omega
  rw [if_pos hcopy]

theorem placeSegmentsVia_guarded (space : AddressSpace) {file : ByteArray}
    {headers : List ProgramHeader} {segments : List Segment}
    (hall : List.Forall₂ (fun h s => h.Describes file s) headers segments) :
    (segments.forM fun s =>
        Action.mapError LoadError.unmappable (placeSegmentVia .guarded space s)) =
      segments.forM fun s => Action.mapError LoadError.unmappable (placeSegment space s) := by
  induction hall with
  | nil => simp only [List.forM]
  | @cons h s _ _ hdescribes _ ih =>
      have hcontents : s.contents.length ≤ s.memorySize.toNat := by
        rw [hdescribes.length_contents, hdescribes.memorySize]
        exact Nat.min_le_right _ _
      simp only [List.forM, placeSegmentVia_guarded space hcontents, ih]

theorem loadVia_guarded (parse : Elf.Parser) (space : AddressSpace) (file : ByteArray) :
    loadVia .guarded parse space file = load parse space file := by
  rw [loadVia, load]
  cases himage : Executable.ofImage parse file with
  | error e => rw [loadBy_of_ofImage_error _ himage, loadBy_of_ofImage_error _ himage]
  | ok image =>
      obtain ⟨_, _, _, hall, hplaces⟩ := loadBy_of_ofImage_ok himage
      rw [hplaces, hplaces, placeSegmentsVia_guarded space hall]

/-! ## Where a load writes -/

theorem byteAt_eq_of_view {m m' : Machine} {a : Nat} (hlayout : m'.layout = m.layout)
    (hbits : m.layout.holdsBits a = false) (hbyte : m'.view.byte a = m.view.byte a) :
    m'.memory.byteAt a = m.memory.byteAt a := by
  rwa [byte_view_of_noBits (hlayout ▸ hbits), byte_view_of_noBits hbits] at hbyte

theorem load_ne_fault {m : Machine} {root : Nat} (hsound : m.view.Sound) (htree : m.view.Tree root)
    (parse : Elf.Parser) (file : ByteArray) (fault : Fault) (m' : Machine) :
    load parse ⟨frameBase root⟩ file m ≠ .error (.fault fault) m' := by
  rcases load_ends hsound htree parse file with ⟨e, hreject⟩ | ⟨parts, hend⟩
  · simp [hreject]
  · exact hend.ne_fault fault m'

/-- For every image and every parser, a load ends without a fault, each write into the frames of a segment lies in
the frames taken for it, and a byte that changes is in a frame that was free, in a table of the
space or in the bitmap. -/
theorem load_is_confined {m : Machine} (hwell : m.WellFormed) {root : Nat}
    (htree : m.view.Tree root) (parse : Elf.Parser) (file : ByteArray) :
    (∀ fault m', load parse ⟨frameBase root⟩ file m ≠ .error (.fault fault) m') ∧
      loadVia .plain = load ∧
      loadVia .guarded parse ⟨frameBase root⟩ file m = load parse ⟨frameBase root⟩ file m ∧
      (Action.final (load parse ⟨frameBase root⟩ file m)).layout = m.layout ∧
      ∀ a, a / 4096 ∉ m.allocator.freeFrames → a / 4096 ∉ m.view.tables root →
        m.layout.holdsBits a = false →
          (Action.final (load parse ⟨frameBase root⟩ file m)).memory.byteAt a = m.memory.byteAt a := by
  obtain ⟨parts, _, htaken⟩ := load_ends_taken hwell.sound htree parse file
  have hlayout : (Action.final (load parse ⟨frameBase root⟩ file m)).layout = m.layout := htaken.layout
  refine ⟨load_ne_fault hwell.sound htree parse file, loadVia_plain,
    congrFun (loadVia_guarded parse _ file) m, hlayout, ?_⟩
  intro a hnotFree hnotTable hbits
  exact byteAt_eq_of_view hlayout hbits (htaken.kept a hnotFree hnotTable)

end Machine

/-! ## An image at the end of the address space -/

/-- An executable with one part, the last 256 bytes of the address space. -/
def topPart : ByteArray :=
  ⟨#[0x7f, 0x45, 0x4c, 0x46, 2, 1, 1, 0, 0, 0, 0, 0, 0, 0, 0, 0,
    2, 0, 0x3e, 0, 1, 0, 0, 0, 0, 0xff, 0xff, 0xff, 0xff, 0xff, 0xff, 0xff,
    64, 0, 0, 0, 0, 0, 0, 0, 0, 0, 0, 0, 0, 0, 0, 0,
    0, 0, 0, 0, 64, 0, 56, 0, 1, 0, 0, 0, 0, 0, 0, 0,
    1, 0, 0, 0, 6, 0, 0, 0, 0x78, 0, 0, 0, 0, 0, 0, 0,
    0, 0xff, 0xff, 0xff, 0xff, 0xff, 0xff, 0xff, 0, 0xff, 0xff, 0xff, 0xff, 0xff, 0xff, 0xff,
    4, 0, 0, 0, 0, 0, 0, 0, 0, 1, 0, 0, 0, 0, 0, 0,
    0, 0x10, 0, 0, 0, 0, 0, 0,
    0xaa, 0xbb, 0xcc, 0xdd]⟩

theorem parse_topPart :
    Elf.parse topPart =
      .ok ⟨2, 1, 0xffffffffffffff00, [⟨1, 6, 0x78, 0xffffffffffffff00, 4, 0x100⟩]⟩ := by
  decide +kernel

theorem ofImage_topPart :
    Executable.ofImage Elf.parse topPart =
      .ok ⟨⟨0xffffffffffffff00⟩, [(⟨1, 6, 0x78, 0xffffffffffffff00, 4, 0x100⟩, 0)]⟩ := by
  decide +kernel

/-- The part is loaded, and the only frame of memory beside the root and the free frames is the
one below them. -/
theorem load_is_confined_topPart :
    (tightMachine 0xff).WellFormed ∧ (tightMachine 0xff).view.Tree 1 ∧
      ∃ m', Machine.load Elf.parse ⟨frameBase 1⟩ topPart (tightMachine 0xff) =
          .ok ⟨0xffffffffffffff00⟩ m' ∧
        Machine.loadVia .guarded Elf.parse ⟨frameBase 1⟩ topPart (tightMachine 0xff) =
          .ok ⟨0xffffffffffffff00⟩ m' ∧
        ∀ a, a / 4096 < 1 ∨ 7 ≤ a / 4096 →
          m'.memory.byteAt a = (tightMachine 0xff).memory.byteAt a := by
  have hwell := wellFormed_tightMachine 0xff
  have htree := tree_tightMachine 0xff
  obtain ⟨m', hload⟩ := Machine.load_supplied parse_topPart ofImage_topPart (by decide)
    hwell.sound htree (allSmall_tightMachine 0xff) ((supplied_tightMachine 0xff).mono (by decide))
  obtain ⟨_, _, hguarded, _, hkept⟩ := Machine.load_is_confined hwell htree Elf.parse topPart
  rw [hload] at hguarded hkept
  refine ⟨hwell, htree, m', hload, hguarded, ?_⟩
  intro a ha
  apply hkept a
  · rw [free_tightMachine, Set.mem_Ico]
    omega
  · rw [tables_tightMachine, Set.mem_singleton_iff]
    omega
  · rfl

end BootMemory
