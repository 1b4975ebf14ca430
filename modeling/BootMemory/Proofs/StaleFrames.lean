import BootMemory.Proofs.TwinLoads

/-!
# What a load shows of free memory

A load that stops while it maps a part leaves the first pages of that part in the space, and they
show what was in free frames before.  All other pages that a load maps, whether it succeeds or not,
show bytes that do not depend on free frames.
-/

namespace BootMemory

open Elf (ProgramHeader)

namespace Machine

section Pages

variable {frames : Set Nat} {root f k : Nat} {m₀ n₀ m n m' n' : Machine} {file : ByteArray}
  {h : ProgramHeader} {placed : List (ProgramHeader × Nat)}

/-- Looking `virt` up gives its place in the frame and does nothing else. -/
def LeadsTo (m : Machine) (space : AddressSpace) (virt : VirtAddr) (frame : Nat)
    (flags : EntryFlags) : Prop :=
  ∀ ε : Type, translate space virt m =
    (.ok (some (⟨(frameBase frame).word + virt.pageOffset⟩, flags)) m :
      EStateM.Result (Failure ε) _ _)

def frameBytes (m : Machine) (frame : Nat) : List UInt8 :=
  (List.range 4096).map fun k => m.memory.byteAt (frame * 4096 + k)

theorem frameBytes_congr {frame : Nat}
    (hbytes : ∀ a, a / 4096 = frame → n.memory.byteAt a = m.memory.byteAt a) :
    n.frameBytes frame = m.frameBytes frame := by
  unfold frameBytes
  refine List.map_congr_left fun k hk => hbytes _ ?_
  rw [List.mem_range] at hk
  omega

theorem SpaceTwins.leadsTo {virt : VirtAddr} {frame : Nat} {flags : EntryFlags}
    (htwins : SpaceTwins frames root m₀ n₀ m n)
    (hlookup : m.view.lookup root virt.route = some (frameBase frame, flags)) :
    m.LeadsTo ⟨frameBase root⟩ virt frame flags ∧ n.LeadsTo ⟨frameBase root⟩ virt frame flags := by
  constructor
  · intro ε
    rw [translate_run htwins.sound htwins.tree virt, hlookup]
    rfl
  · intro ε
    rw [translate_run htwins.sound_right htwins.tree_right virt, htwins.sameTables.lookup_eq,
      hlookup]
    rfl

namespace CameTo

variable {virt : VirtAddr} (hcame : CameTo m.view.free root file m n m.view placed h k m' n')

include hcame

theorem torn_page (hvirt : virt.page ∈ h.firstPages k) :
    ∃ frame ∈ m.allocator.freeFrames,
      m'.LeadsTo ⟨frameBase root⟩ virt frame h.entryFlags ∧
      n'.LeadsTo ⟨frameBase root⟩ virt frame h.entryFlags ∧
      m'.frameBytes frame = m.frameBytes frame ∧ n'.frameBytes frame = n.frameBytes frame := by
  obtain ⟨mid, f, _, hfree, htorn⟩ := hcame.parts
  obtain ⟨hlow, hhigh⟩ := hvirt
  obtain ⟨hleft, hright⟩ := hcame.twins.leadsTo (htorn.moved virt ⟨hlow, hhigh⟩)
  have hin : f + (virt.page - h.virtualAddress / 4096) ∈ Set.Ico f (f + k) :=
    Set.mem_Ico.mpr ⟨by omega, by omega⟩
  have hfresh := hfree (htorn.frames hin)
  have hstale := And.intro hfresh (htorn.apart _ hin)
  exact ⟨_, hfresh.1, hleft, hright,
    frameBytes_congr fun a ha => hcame.twins.twins.left a (ha ▸ hstale),
    frameBytes_congr fun a ha => hcame.twins.twins.right a (ha ▸ hstale)⟩

theorem placed_page (hvirt : virt.page ∉ h.firstPages k)
    (hpart : ∃ part ∈ placed, virt.page ∈ part.1.pages) :
    ∃ frame ∈ m.allocator.freeFrames, ∃ flags,
      m'.LeadsTo ⟨frameBase root⟩ virt frame flags ∧
      n'.LeadsTo ⟨frameBase root⟩ virt frame flags ∧
      n'.frameBytes frame = m'.frameBytes frame := by
  obtain ⟨mid, _, hloaded, _, htorn⟩ := hcame.parts
  obtain ⟨before, ⟨last, f⟩, after, hsplit, hlast, hafter⟩ := exists_last hpart
  have hmem : (last, f) ∈ placed := by
    rw [hsplit]
    exact List.mem_append_right before List.mem_cons_self
  have hlookup := (htorn.unmoved virt (hcame.canonical _ hmem hlast) hvirt).trans
    (hloaded.moved before last f after hsplit virt hlast hafter)
  obtain ⟨hleft, hright⟩ := hcame.twins.leadsTo hlookup
  obtain ⟨hlow, hhigh⟩ := (last.mem_pages_iff virt.page).mp hlast
  have hin : f + (virt.page - last.virtualAddress / 4096) ∈ last.frames f :=
    Set.mem_Ico.mpr ⟨by omega, by omega⟩
  refine ⟨_, hloaded.frames _ hmem hin, last.entryFlags, hleft, hright, ?_⟩
  apply frameBytes_congr
  rintro a ha
  apply hcame.twins.twins.bytes
  rw [ha]
  exact fun hstale => hstale.1.2 ⟨_, hmem, hin⟩

theorem other_page (hsound : m.view.Sound) (htree : m.view.Tree root)
    (hcanonical : virt.page ∈ canonicalPages) (hvirt : virt.page ∉ h.firstPages k)
    (hnone : ∀ part ∈ placed, virt.page ∉ part.1.pages) :
    ∃ result, ∀ ε : Type,
      translate ⟨frameBase root⟩ virt m = (.ok result m : EStateM.Result (Failure ε) _ _) ∧
      translate ⟨frameBase root⟩ virt m' = (.ok result m' : EStateM.Result (Failure ε) _ _) ∧
      translate ⟨frameBase root⟩ virt n' = (.ok result n' : EStateM.Result (Failure ε) _ _) := by
  obtain ⟨mid, _, hloaded, _, htorn⟩ := hcame.parts
  have hlookup := (htorn.unmoved virt hcanonical hvirt).trans
    (hloaded.unmoved virt hcanonical hnone)
  refine ⟨_, fun ε => ⟨translate_run hsound htree virt, ?_, ?_⟩⟩
  · rw [translate_run hcame.twins.sound hcame.twins.tree virt, hlookup]
  · rw [translate_run hcame.twins.sound_right hcame.twins.tree_right virt,
      hcame.twins.sameTables.lookup_eq, hlookup]

end CameTo

end Pages

end Machine

theorem Elf.ProgramHeader.entryFlags_contains_user (h : ProgramHeader) :
    h.entryFlags.contains .user = true := by
  unfold entryFlags
  cases h.flags.testBit 1 <;> cases h.flags.testBit 0 <;> decide

/-- What a space shows after two runs that started on `m` and `n` and came to `m'` and `n'`.  The
pages of the parts in `done` show the same in both.  The pages in `torn` are open to user mode, and
they show what was in free frames before.  Other canonical pages lead to where they led. -/
structure ShownAlike (space : AddressSpace) (m n : Machine) (done : List ProgramHeader)
    (torn : Set Nat) (m' n' : Machine) : Prop where
  alike : ∀ virt : VirtAddr, virt.page ∉ torn → (∃ h ∈ done, virt.page ∈ h.pages) →
    ∃ frame ∈ m.allocator.freeFrames, ∃ flags,
      m'.LeadsTo space virt frame flags ∧ n'.LeadsTo space virt frame flags ∧
      n'.frameBytes frame = m'.frameBytes frame
  stale : ∀ virt : VirtAddr, virt.page ∈ torn →
    ∃ frame ∈ m.allocator.freeFrames, ∃ flags, flags.contains .user = true ∧
      m'.LeadsTo space virt frame flags ∧ n'.LeadsTo space virt frame flags ∧
      m'.frameBytes frame = m.frameBytes frame ∧ n'.frameBytes frame = n.frameBytes frame
  other : ∀ virt : VirtAddr, virt.isCanonical = true → virt.page ∉ torn →
    (∀ h ∈ done, virt.page ∉ h.pages) →
      ∃ result, ∀ ε : Type,
        Machine.translate space virt m = (.ok result m : EStateM.Result (Failure ε) _ _) ∧
        Machine.translate space virt m' = (.ok result m' : EStateM.Result (Failure ε) _ _) ∧
        Machine.translate space virt n' = (.ok result n' : EStateM.Result (Failure ε) _ _)

theorem Machine.CameTo.shownAlike {root k : Nat} {file : ByteArray} {h : ProgramHeader}
    {placed : List (ProgramHeader × Nat)} {m n m' n' : Machine}
    (hcame : CameTo m.view.free root file m n m.view placed h k m' n') (hsound : m.view.Sound)
    (htree : m.view.Tree root) :
    ShownAlike ⟨frameBase root⟩ m n (placed.map Prod.fst) (h.firstPages k) m' n' where
  alike := by
    rintro virt hvirt ⟨g, hg, hpage⟩
    obtain ⟨part, hpart, rfl⟩ := List.mem_map.mp hg
    exact hcame.placed_page hvirt ⟨part, hpart, hpage⟩
  stale := by
    intro virt hvirt
    obtain ⟨frame, hfree, hshown⟩ := hcame.torn_page hvirt
    exact ⟨frame, hfree, h.entryFlags, h.entryFlags_contains_user, hshown⟩
  other := by
    intro virt hcanonical hvirt hnone
    exact hcame.other_page hsound htree (virt.isCanonical_iff.mp hcanonical) hvirt
      fun part hpart => hnone part.1 (List.mem_map_of_mem hpart)

/-! ## A load that stops in the middle of a part -/

/-- A machine with six frames.  The first is the cleared root of a space; the others are free, and
all their bytes are `byte`. -/
def tightMachine (byte : UInt8) : Machine where
  memory :=
    (⟨⟨0x1000⟩, ⟨Array.replicate 0x6000 byte⟩⟩ : Memory).overwrite 0 (List.replicate 0x1000 0)
  home := .separate ⟨#[0x01]⟩
  firstFrame := ⟨1⟩
  frameCount := 6
  cursor := 1
  levels := .four
  activeRoot := ⟨0⟩
  invalidated := #[]
  log := #[]

section TightMachine

variable (byte : UInt8)

theorem size_tightMachine : (tightMachine byte).memory.size = 0x6000 := by
  change (Memory.overwrite _ _ _).size = _
  rw [Memory.size_overwrite]
  exact Array.size_replicate

theorem byteAt_tightMachine (a : Nat) :
    (tightMachine byte).memory.byteAt a = if 2 ≤ a / 4096 ∧ a / 4096 < 7 then byte else 0 := by
  have hsize : (⟨⟨0x1000⟩, ⟨Array.replicate 0x6000 byte⟩⟩ : Memory).size = 0x6000 :=
    Array.size_replicate
  have hbase : (⟨0x1000⟩ : PhysAddr).word.toNat = 0x1000 := rfl
  have hfilled : (⟨⟨0x1000⟩, ⟨Array.replicate 0x6000 byte⟩⟩ : Memory).byteAt a =
      if 0x1000 ≤ a ∧ a < 0x7000 then byte else 0 := by
    rw [Memory.byteAt, hbase, Bytes.byteAt_replicate]
    by_cases hin : 0x1000 ≤ a ∧ a < 0x7000
    · rw [if_pos hin, if_pos hin.1, if_pos (by omega)]
    · rw [if_neg hin]
      by_cases hlow : 0x1000 ≤ a
      · rw [if_pos hlow, if_neg (by omega)]
      · rw [if_neg hlow]
  have hfits : 0 + (List.replicate 0x1000 (0 : UInt8)).length ≤
      (⟨⟨0x1000⟩, ⟨Array.replicate 0x6000 byte⟩⟩ : Memory).size := by
    rw [hsize, List.length_replicate]
    decide
  refine (Memory.byteAt_overwrite _ 0 a _ hfits).trans ?_
  rw [hbase, hfilled, List.getElem?_replicate]
  by_cases hroot : a / 4096 = 1
  · rw [if_pos (by omega), if_pos (by omega), Option.getD_some, if_neg (by omega)]
  · have hrest : (0x1000 ≤ a ∧ a < 0x7000) ↔ (2 ≤ a / 4096 ∧ a / 4096 < 7) := by
      omega
    simp only [hrest]
    split
    · rw [if_neg (by omega), Option.getD_none]
    · rfl

theorem free_tightMachine : (tightMachine byte).allocator.freeFrames = Set.Ico 2 7 := by
  have hbits : ∀ i < 6, (tightMachine byte).allocator.taken i = decide (i = 0) := by
    intro i hi
    change Bitmap.taken ⟨⟨#[0x01]⟩, 0⟩ i = decide (i = 0)
    interval_cases i <;> rfl
  ext f
  change (1 ≤ f ∧ f < 1 + 6) ∧ (tightMachine byte).allocator.taken (f - 1) = false ↔ 2 ≤ f ∧ f < 7
  constructor
  · rintro ⟨hin, hbit⟩
    rw [hbits _ (by omega), decide_eq_false_iff_not] at hbit
    omega
  · intro hin
    rw [hbits _ (by omega), decide_eq_false_iff_not]
    omega

theorem bitmapFrames_tightMachine : (tightMachine byte).layout.bitmapFrames = ∅ := by
  ext f
  constructor
  · rintro ⟨a, _, hbits⟩
    exact absurd hbits Bool.false_ne_true
  · exact False.elim

theorem spans_tightMachine : (tightMachine byte).Spans := by
  have hbase : (tightMachine byte).memory.base.word.toNat = 0x1000 := rfl
  refine ⟨?_, ?_⟩
  · rw [size_tightMachine, hbase]
    decide
  · rintro f ⟨hlow, hhigh⟩
    change 1 ≤ f at hlow
    change f < 1 + 6 at hhigh
    rw [size_tightMachine, hbase]
    omega

theorem wellFormed_tightMachine : (tightMachine byte).WellFormed := by
  refine ⟨spans_tightMachine byte, ⟨?_, ?_⟩, ?_⟩
  · change 0 + (6 + 7) / 8 ≤ 1
    decide
  · change 1 + 6 ≤ 2 ^ 52
    decide
  · intro f _
    rw [bitmapFrames_tightMachine]
    exact Set.notMem_empty f

theorem plain_root_tightMachine : (tightMachine byte).layout.Plain 1 := by
  apply (spans_tightMachine byte).plain
  · exact (show 1 ≤ 1 ∧ 1 < 1 + 6 by decide)
  · rw [bitmapFrames_tightMachine]
    exact Set.notMem_empty 1

theorem newRoot_tightMachine : (tightMachine byte).view.newRoot 1 = (tightMachine byte).view := by
  have hbyte : ∀ a, (tightMachine byte).view.byte a = (tightMachine byte).memory.byteAt a :=
    fun _ => rfl
  apply View.ext
  · rfl
  · funext a
    change (((tightMachine byte).view.take 1 1).clear 1 1).byte a = _
    rw [View.byte_clear]
    by_cases hroot : a / 4096 = 1
    · rw [if_pos (by omega), hbyte, byteAt_tightMachine, if_neg (by omega)]
    · rw [if_neg (by omega)]
      rfl
  · change (tightMachine byte).allocator.freeFrames \ Set.Ico 1 (1 + 1) =
      (tightMachine byte).allocator.freeFrames
    rw [free_tightMachine]
    ext f
    simp only [Set.mem_sdiff, Set.mem_Ico]
    omega
  · rfl

theorem tree_tightMachine : (tightMachine byte).view.Tree 1 :=
  newRoot_tightMachine byte ▸ View.tree_newRoot (plain_root_tightMachine byte)

theorem tables_tightMachine : (tightMachine byte).view.tables 1 = {1} :=
  newRoot_tightMachine byte ▸ View.tables_newRoot _ 1

theorem allSmall_tightMachine : (tightMachine byte).view.AllSmall 1 :=
  newRoot_tightMachine byte ▸ View.allSmall_newRoot _ 1

theorem supplied_tightMachine : (tightMachine byte).view.Supplied 5 := by
  refine ⟨Finset.Ico 2 7, ?_, le_of_eq (Nat.card_Ico 2 7).symm⟩
  rw [Finset.coe_Ico]
  exact (free_tightMachine byte).superset

theorem agreeBut_tightMachine (other : UInt8) :
    (tightMachine byte).AgreeBut (tightMachine byte).allocator.freeFrames (tightMachine other) := by
  refine ⟨rfl, rfl, ?_, ?_⟩
  · rw [size_tightMachine, size_tightMachine]
  · intro a ha
    rw [free_tightMachine, Set.mem_Ico] at ha
    rw [byteAt_tightMachine, byteAt_tightMachine, if_neg ha, if_neg ha]

end TightMachine

def parting : ProgramHeader := ⟨1, 4, 0x78, 0x5ff000, 0, 0x2000⟩

/-- An executable with one part of two pages, which need lowest tables of their own. -/
def partingPages : ByteArray :=
  ⟨#[0x7f, 0x45, 0x4c, 0x46, 2, 1, 1, 0, 0, 0, 0, 0, 0, 0, 0, 0,
    2, 0, 0x3e, 0, 1, 0, 0, 0, 0, 0xf0, 0x5f, 0, 0, 0, 0, 0,
    64, 0, 0, 0, 0, 0, 0, 0, 0, 0, 0, 0, 0, 0, 0, 0,
    0, 0, 0, 0, 64, 0, 56, 0, 1, 0, 0, 0, 0, 0, 0, 0,
    1, 0, 0, 0, 4, 0, 0, 0, 0x78, 0, 0, 0, 0, 0, 0, 0,
    0, 0xf0, 0x5f, 0, 0, 0, 0, 0, 0, 0xf0, 0x5f, 0, 0, 0, 0, 0,
    0, 0, 0, 0, 0, 0, 0, 0, 0, 0x20, 0, 0, 0, 0, 0, 0,
    0, 0x10, 0, 0, 0, 0, 0, 0]⟩

theorem parts_partingPages : Elf.parts Elf.parse partingPages = [parting] := by
  have hparse : Elf.parse partingPages = .ok ⟨2, 1, 0x5ff000, [parting]⟩ := by
    decide +kernel
  rw [Elf.parts, hparse]
  rfl

theorem eq_nil_of_parts_partingPages {done : List ProgramHeader} {h : ProgramHeader}
    (hbegins : done ++ [h] <+: Elf.parts Elf.parse partingPages) : done = [] := by
  have hle := hbegins.length_le
  rw [parts_partingPages, List.length_append] at hle
  exact List.eq_nil_of_length_eq_zero (Nat.le_zero.mp (Nat.le_of_add_le_add_right hle))

theorem ofImage_partingPages :
    Executable.ofImage Elf.parse partingPages = .ok ⟨⟨0x5ff000⟩, [(parting, 0)]⟩ := by
  decide +kernel

theorem exists_segment_partingPages :
    ∃ s, parting.segment partingPages 0 = .ok s ∧ parting.Describes partingPages s :=
  ProgramHeader.exists_segment (by decide) (by decide +kernel)

theorem pageCount_parting : parting.pageCount = 2 := by
  decide

theorem room_tightMachine (byte : UInt8) :
    parting.frames 2 ⊆ (tightMachine byte).view.free := by
  rw [Machine.view_free, free_tightMachine, ProgramHeader.frames, pageCount_parting]
  exact Set.Ico_subset_Ico_right (by decide)

/-- The two pages need five tables, four of them new, and only three frames are left for them. -/
theorem not_placed_partingPages {byte : UInt8} {f : Nat} {w : View} :
    ¬ Placed 1 partingPages parting f (tightMachine byte).view w := by
  intro hplaced
  have htop : w.layout.top = 4 := congrArg Layout.top hplaced.layout
  have hfirst := hplaced.moved ⟨0x5ff000⟩ ((parting.mem_pages_iff _).mpr (by decide))
  have hsecond := hplaced.moved ⟨0x600000⟩ ((parting.mem_pages_iff _).mpr (by decide))
  obtain ⟨s, hs, hcard⟩ := hplaced.tree.exists_tables hfirst hsecond (by rw [htop]; decide)
  have hin : s ⊆ insert 1 (Finset.Ico 2 7 \ Finset.Ico f (f + 2)) := by
    intro t ht
    have hmem := hplaced.tables (hs ht)
    rw [tables_tightMachine, Machine.view_free, free_tightMachine, ProgramHeader.frames,
      pageCount_parting] at hmem
    simpa using hmem
  have hframes := hplaced.frames
  rw [Machine.view_free, free_tightMachine, ProgramHeader.frames, pageCount_parting] at hframes
  have hsub : Finset.Ico f (f + 2) ⊆ Finset.Ico 2 7 := by
    rw [← Finset.coe_subset, Finset.coe_Ico, Finset.coe_Ico]
    exact hframes
  have hle := (Finset.card_le_card hin).trans (Finset.card_insert_le _ _)
  rw [Finset.card_sdiff_of_subset hsub, Nat.card_Ico, Nat.card_Ico, hcard, htop] at hle
  omega

/-- The first page of the part is mapped, and then there is no frame for the table of the second. -/
theorem load_partingPages (byte : UInt8) :
    ∃ failure f k m',
      Machine.load Elf.parse ⟨frameBase 1⟩ partingPages (tightMachine byte) = .error failure m' ∧ 0 < k ∧
        PartMapped 1 parting f k (tightMachine byte).view m'.view := by
  have hsupplied : (tightMachine byte).view.Supplied
      (parting.pageCount + ((tightMachine byte).layout.top - 1)) := by
    rw [pageCount_parting]
    exact supplied_tightMachine byte
  obtain ⟨s, hsegment, hdescribes⟩ := exists_segment_partingPages
  rcases Machine.placeSegment_starts (wellFormed_tightMachine byte).sound
    (tree_tightMachine byte) (allSmall_tightMachine byte) hdescribes
    ⟨2, room_tightMachine byte⟩ hsupplied with
    ⟨_, _, _, hplaced⟩ | ⟨failure, f, k, m', hplace, hk, hmapped⟩
  · exact absurd hplaced not_placed_partingPages
  · exact ⟨_, f, k, m', Machine.load_stops ofImage_partingPages hsegment hplace, hk, hmapped⟩

theorem frameBytes_tightMachine (byte : UInt8) {frame : Nat}
    (hfree : frame ∈ (tightMachine byte).allocator.freeFrames) (other : UInt8) :
    (tightMachine other).frameBytes frame = List.replicate 4096 other := by
  rw [free_tightMachine, Set.mem_Ico] at hfree
  rw [Machine.frameBytes, List.eq_replicate_iff]
  refine ⟨by rw [List.length_map, List.length_range], ?_⟩
  intro b hb
  obtain ⟨k, hk, rfl⟩ := List.mem_map.mp hb
  rw [List.mem_range] at hk
  rw [byteAt_tightMachine, if_pos (by omega)]

theorem lookup_tightMachine (byte : UInt8) (virt : VirtAddr) :
    (tightMachine byte).view.lookup 1 virt.route = none :=
  newRoot_tightMachine byte ▸ View.maps_newRoot _ 1 virt

/-! ## Loads from free memory -/

/-- Two machines that differ in free frames alone come to the same end of a load.  After a load
that succeeds, the space shows the same on both.  A load that fails has changed nothing, or it has
stopped at a part, and then the first pages of that part may be torn. -/
theorem loads_alike_but_for_torn_pages {m n : Machine} (hwell : m.WellFormed)
    {space : AddressSpace} (hspace : m.HasSpace space)
    (hagree : m.AgreeBut m.allocator.freeFrames n) (parse : Elf.Parser) (file : ByteArray) :
    ∃ m' n' done torn, ShownAlike space m n done torn m' n' ∧
      ((∃ entry, Machine.load parse space file m = .ok entry m' ∧
          Machine.load parse space file n = .ok entry n' ∧ done = Elf.parts parse file ∧ torn = ∅) ∨
        ∃ failure, Machine.load parse space file m = .error failure m' ∧
          Machine.load parse space file n = .error failure n' ∧
          (m' = m ∧ n' = n ∧ done = [] ∧ torn = ∅ ∨
            ∃ h k, done ++ [h] <+: Elf.parts parse file ∧ k ≤ h.pageCount ∧ torn = h.firstPages k)) := by
  obtain ⟨root, rfl, htree⟩ := hspace
  have hsound := hwell.sound
  have htwins := Machine.SpaceTwins.start hsound htree hagree
  have halike := htwins.load parse file
  generalize Machine.load parse ⟨frameBase root⟩ file m = left,
    Machine.load parse ⟨frameBase root⟩ file n = right at halike ⊢
  cases halike with
  | @ok entry m' n' hended =>
      obtain ⟨placed, hparts, hcame⟩ := hended
      -- none of its pages is torn, so it does not matter which part comes next
      have hshown := (hcame ⟨0, 0, 0, 0, 0, 0⟩).shownAlike hsound htree
      rw [ProgramHeader.firstPages_zero] at hshown
      exact ⟨m', n', _, ∅, hshown, .inl ⟨entry, rfl, rfl, hparts, rfl⟩⟩
  | @error failure m' n' hended =>
      rcases hended with ⟨rfl, rfl⟩ | ⟨placed, h, k, hbegins, hcame⟩
      · have hcame : Machine.CameTo m'.view.free root file m' n' m'.view [] ⟨0, 0, 0, 0, 0, 0⟩ 0
            m' n' := .start htwins htree subset_rfl (.none : Torn root _ 0 0 _ _)
        have hshown := hcame.shownAlike hsound htree
        rw [ProgramHeader.firstPages_zero] at hshown
        exact ⟨m', n', [], ∅, hshown, .inr ⟨failure, rfl, rfl, .inl ⟨rfl, rfl, rfl, rfl⟩⟩⟩
      · obtain ⟨_, _, _, _, htorn⟩ := hcame.parts
        exact ⟨m', n', _, _, hcame.shownAlike hsound htree,
          .inr ⟨failure, rfl, rfl, .inr ⟨h, k, hbegins, htorn.bound, rfl⟩⟩⟩

/-- The load stops in the middle of the part, and its first page shows, on two machines, the bytes
that each had in its free frames. -/
theorem loads_alike_but_for_torn_pages_partingPages :
    (tightMachine 0xff).WellFormed ∧ (tightMachine 0xff).HasSpace ⟨frameBase 1⟩ ∧
      (tightMachine 0xff).AgreeBut (tightMachine 0xff).allocator.freeFrames (tightMachine 0) ∧
      ∃ failure m' n',
        Machine.load Elf.parse ⟨frameBase 1⟩ partingPages (tightMachine 0xff) = .error failure m' ∧
        Machine.load Elf.parse ⟨frameBase 1⟩ partingPages (tightMachine 0) = .error failure n' ∧
        ∃ frame flags, flags.contains .user = true ∧
          m'.LeadsTo ⟨frameBase 1⟩ ⟨0x5ff000⟩ frame flags ∧
          n'.LeadsTo ⟨frameBase 1⟩ ⟨0x5ff000⟩ frame flags ∧
          m'.frameBytes frame = List.replicate 4096 0xff ∧
          n'.frameBytes frame = List.replicate 4096 0 := by
  have hwell := wellFormed_tightMachine 0xff
  have hspace : (tightMachine 0xff).HasSpace ⟨frameBase 1⟩ := ⟨1, rfl, tree_tightMachine 0xff⟩
  have hagree := agreeBut_tightMachine 0xff 0
  refine ⟨hwell, hspace, hagree, ?_⟩
  obtain ⟨failure, f, k, m₁, hload, hk, hmapped⟩ := load_partingPages 0xff
  obtain ⟨m', n', done, torn, hshown, hend⟩ :=
    loads_alike_but_for_torn_pages hwell hspace hagree Elf.parse partingPages
  rcases hend with ⟨entry, hleft, _⟩ | ⟨failure', hleft, hright, hwhere⟩
  · cases hload.symm.trans hleft
  · cases hload.symm.trans hleft
    have hdone : done = [] := by
      rcases hwhere with ⟨_, _, hdone, _⟩ | ⟨h, _, hbegins, _⟩
      · exact hdone
      · exact eq_nil_of_parts_partingPages hbegins
    have hfirst : (⟨0x5ff000⟩ : VirtAddr).page ∈ parting.firstPages k :=
      Set.mem_Ico.mpr ⟨le_refl _, Nat.lt_add_of_pos_right hk⟩
    have htorn : (⟨0x5ff000⟩ : VirtAddr).page ∈ torn := by
      by_contra hvirt
      obtain ⟨result, hsame⟩ := hshown.other ⟨0x5ff000⟩ (by decide) hvirt
        (by rw [hdone]; exact fun _ h => absurd h List.not_mem_nil)
      obtain ⟨hbefore, hafter, _⟩ := hsame Unit
      rw [Machine.translate_run hwell.sound (tree_tightMachine 0xff),
        lookup_tightMachine] at hbefore
      have hsound₁ := hmapped.grown.sound (hwell.sound.take f parting.pageCount)
      rw [Machine.translate_run hsound₁ hmapped.grown.tree, hmapped.moved _ hfirst] at hafter
      cases hbefore
      cases hafter
    obtain ⟨frame, hfree, flags, huser, hm, hn, hold, hother⟩ := hshown.stale _ htorn
    refine ⟨failure, m₁, n', hleft, hright, frame, flags, huser, hm, hn, ?_, ?_⟩
    · rw [hold, frameBytes_tightMachine 0xff hfree]
    · rw [hother, frameBytes_tightMachine 0xff hfree]

end BootMemory
