import BootMemory.Proofs.View

/-!
# Basic operations on the view

Every basic operation of the machine is an operation on its view.  On a sound machine the frames
that are handed out lie in memory beside the bitmap, so clearing, copying and writing entries in
them go through and touch nothing else.
-/

namespace BootMemory

namespace Memory

def byteAt (m : Memory) (a : Nat) : UInt8 :=
  if m.base.word.toNat ≤ a then Bytes.byteAt m.bytes (a - m.base.word.toNat) else 0

theorem byteAt_overwrite (m : Memory) (i a : Nat) (values : List UInt8)
    (hfits : i + values.length ≤ m.size) :
    (m.overwrite i values).byteAt a =
      if m.base.word.toNat + i ≤ a then
        (values[a - (m.base.word.toNat + i)]?).getD (m.byteAt a)
      else m.byteAt a := by
  have hbytes := Bytes.byteAt_overwrite m.bytes i (a - m.base.word.toNat) values hfits
  change (if m.base.word.toNat ≤ a then
    Bytes.byteAt (Bytes.overwrite m.bytes i values) (a - m.base.word.toNat) else 0) = _
  rw [hbytes]
  unfold byteAt
  by_cases hbase : m.base.word.toNat ≤ a
  · by_cases hin : m.base.word.toNat + i ≤ a
    · rw [if_pos hbase, if_pos (by omega), if_pos hin, if_pos hbase, Nat.sub_sub]
    · rw [if_pos hbase, if_neg (by omega), if_neg hin, if_pos hbase]
  · rw [if_neg hbase, if_neg (by omega), if_neg hbase]

theorem wordAt_eq (m : Memory) (i : Nat) :
    m.wordAt i =
      UInt64.ofNat (ofLittleEndian ((List.range 8).map fun k =>
        m.byteAt (m.base.word.toNat + i + k))) := by
  unfold wordAt Bytes.slice byteAt
  congr 2
  apply List.map_congr_left
  intro k _
  rw [if_pos (by omega)]
  congr 1
  omega

theorem offset_eq_ok {m : Memory} {addr : PhysAddr} (hlow : m.base.word.toNat ≤ addr.word.toNat)
    (hhigh : addr.word.toNat < m.base.word.toNat + m.size) :
    m.offset addr = .ok (addr.word.toNat - m.base.word.toNat) :=
  if_pos ⟨UInt64.le_iff_toNat_le.mpr hlow, by omega⟩

theorem offset_of_eq_ok {m : Memory} {addr : PhysAddr} {i : Nat} (hoffset : m.offset addr = .ok i) :
    m.base.word.toNat ≤ addr.word.toNat ∧ addr.word.toNat < m.base.word.toNat + m.size ∧
      i = addr.word.toNat - m.base.word.toNat := by
  unfold offset at hoffset
  split at hoffset
  next hin =>
    have hlow := UInt64.le_iff_toNat_le.mp hin.1
    simp only [Except.ok.injEq] at hoffset
    exact ⟨hlow, by omega, hoffset.symm⟩
  next => simp at hoffset

end Memory

namespace Machine

def layout (m : Machine) : Layout where
  base := m.memory.base.word.toNat
  size := m.memory.size
  resident :=
    match m.home with
    | .separate _ => false
    | .resident _ => true
  origin := m.bitmap.origin
  storeSize := m.bitmap.store.size
  firstFrame := m.allocator.first
  frameCount := m.frameCount
  levels := m.levels

def view (m : Machine) : View where
  layout := m.layout
  byte := fun a => if m.layout.holdsBits a then 0 else m.memory.byteAt a
  free := m.allocator.freeFrames
  invalidated := m.invalidated

@[simp] theorem view_layout (m : Machine) : m.view.layout = m.layout := rfl

@[simp] theorem view_free (m : Machine) : m.view.free = m.allocator.freeFrames := rfl

theorem byte_view_of_noBits {m : Machine} {a : Nat} (hbits : m.layout.holdsBits a = false) :
    m.view.byte a = m.memory.byteAt a := by
  simp [view, hbits]

theorem fits_of_sound {m : Machine} (hsound : m.view.Sound) : m.allocator.Fits :=
  ⟨hsound.bits, hsound.frames⟩

/-! ## Writing to memory -/

theorem layout_overwriteMemory (m : Machine) (i : Nat) (values : List UInt8) :
    ({ m with memory := m.memory.overwrite i values } : Machine).layout = m.layout := by
  unfold layout bitmap
  cases m.home <;> simp [Memory.overwrite, allocator, FrameAllocator.first, Memory.size]

theorem freeFrames_overwriteMemory {m : Machine} {i : Nat} {values : List UInt8}
    (hbeside : ∀ k < values.length, m.layout.holdsBits (m.layout.base + i + k) = false) :
    ({ m with memory := m.memory.overwrite i values } : Machine).allocator.freeFrames =
      m.allocator.freeFrames := by
  suffices htaken : ∀ bit < m.frameCount,
      ({ m with memory := m.memory.overwrite i values } : Machine).bitmap.taken bit =
        m.bitmap.taken bit by
    ext f
    simp only [FrameAllocator.mem_freeFrames]
    apply and_congr_right
    intro hf
    have hbit : f - m.allocator.first < m.frameCount := by
      have hhigh : f < m.allocator.first + m.frameCount := hf.2
      have hlow : m.allocator.first ≤ f := hf.1
      omega
    exact Eq.congr_left (htaken (f - m.allocator.first) hbit)
  intro bit hbit
  cases hhome : m.home with
  | separate storage => simp [bitmap, hhome]
  | resident origin =>
      have hbyte : Bytes.byteAt (m.memory.overwrite i values).bytes (origin + bit / 8) =
          Bytes.byteAt m.memory.bytes (origin + bit / 8) := by
        apply Bytes.byteAt_overwrite_of_outside
        by_contra hinside
        have hoff := hbeside (origin + bit / 8 - i) (by omega)
        rw [show m.layout.base + i + (origin + bit / 8 - i) =
          m.layout.base + (origin + bit / 8) by omega] at hoff
        simp only [Layout.holdsBits, layout, bitmap, hhome, Bool.true_and, Bool.and_eq_false_iff,
          decide_eq_false_iff_not] at hoff
        omega
      simp only [bitmap, hhome, Bitmap.taken, Bitmap.byteIndex, hbyte]

theorem view_overwriteMemory {m : Machine} {i : Nat} {values : List UInt8}
    (hfits : i + values.length ≤ m.memory.size)
    (hbeside : ∀ k < values.length, m.layout.holdsBits (m.layout.base + i + k) = false) :
    ({ m with memory := m.memory.overwrite i values } : Machine).view =
      m.view.write (m.layout.base + i) values := by
  have hlayout := layout_overwriteMemory m i values
  have hfree := freeFrames_overwriteMemory hbeside
  have hbyte : ({ m with memory := m.memory.overwrite i values } : Machine).view.byte =
      (m.view.write (m.layout.base + i) values).byte := by
    funext a
    simp only [view, hlayout, View.write]
    by_cases hbits : m.layout.holdsBits a = true
    · by_cases hin : m.layout.base + i ≤ a
      · have hout : values.length ≤ a - (m.layout.base + i) := by
          by_contra hlt
          have hoff := hbeside (a - (m.layout.base + i)) (by omega)
          rw [show m.layout.base + i + (a - (m.layout.base + i)) = a by omega, hbits] at hoff
          contradiction
        simp [hbits, hin, List.getElem?_eq_none hout]
      · simp [hbits, hin]
    · simp only [hbits]
      exact Memory.byteAt_overwrite m.memory i a values hfits
  exact View.ext hlayout hbyte hfree rfl

/-- Writes that stay in plain frames lie in memory and beside the bitmap. -/
theorem view_overwriteMemory_of_plain {m : Machine} {a : Nat} {values : List UInt8}
    (hsome : 0 < values.length)
    (hplain : ∀ k < values.length, m.layout.Plain ((a + k) / 4096)) :
    m.layout.base ≤ a ∧ a + values.length ≤ m.layout.base + m.layout.size ∧
      ({ m with memory := m.memory.overwrite (a - m.layout.base) values } : Machine).view =
        m.view.write a values := by
  have hfirst := hplain 0 hsome
  have hlast := hplain (values.length - 1) (by omega)
  have habove := hfirst.above
  have hbelow := hlast.below
  have hlow : m.layout.base ≤ a := by
    omega
  have hhigh : a + values.length ≤ m.layout.base + m.layout.size := by
    omega
  refine ⟨hlow, hhigh, ?_⟩
  have hbeside : ∀ k < values.length,
      m.layout.holdsBits (m.layout.base + (a - m.layout.base) + k) = false := by
    intro k hk
    rw [show m.layout.base + (a - m.layout.base) + k = a + k by omega]
    exact (hplain k hk).noBits (a + k) rfl
  have hview := view_overwriteMemory (by change _ ≤ m.layout.size; omega) hbeside
  rwa [show m.layout.base + (a - m.layout.base) = a by omega] at hview

section Accesses

variable {ε : Type} {m : Machine}

theorem offset_plain {addr : PhysAddr} {f : Nat} (hplain : m.layout.Plain f)
    (hpage : addr.page = f) :
    m.memory.offset addr = .ok (addr.word.toNat - m.layout.base) := by
  have habove := hplain.above
  have hbelow := hplain.below
  unfold Addr.page at hpage
  apply Memory.offset_eq_ok
  · change m.layout.base ≤ _
    omega
  · change _ < m.layout.base + m.layout.size
    omega

theorem readWord_plain {addr : PhysAddr} {f : Nat} (hplain : m.layout.Plain f)
    (hpage : addr.page = f) (haligned : addr.word.toNat % 8 = 0) :
    readWord addr m = (.ok (m.view.word addr.word.toNat) m : EStateM.Result (Failure ε) _ _) := by
  have hmultiple : addr.word.isMultipleOf 8 = true :=
    (Word.isMultipleOf_eight addr.word).mpr haligned
  have habove := hplain.above
  have hword : m.memory.wordAt (addr.word.toNat - m.layout.base) =
      m.view.word addr.word.toNat := by
    rw [Memory.wordAt_eq, View.word]
    congr 2
    apply List.map_congr_left
    intro k hk
    rw [List.mem_range] at hk
    have hsame : (addr.word.toNat + k) / 4096 = f := by
      unfold Addr.page at hpage
      omega
    have hbase : m.memory.base.word.toNat + (addr.word.toNat - m.layout.base) + k =
        addr.word.toNat + k := by
      unfold Addr.page at hpage
      change m.layout.base + (addr.word.toNat - m.layout.base) + k = _
      omega
    rw [hbase]
    simp [view, hplain.noBits _ hsame]
  have hoffset : m.memory.wordOffset addr = .ok (addr.word.toNat - m.layout.base) := by
    rw [Memory.wordOffset, if_pos hmultiple, offset_plain hplain hpage]
  rw [readWord, Action.bind_apply, Action.get_apply]
  simp only [Memory.readWord, hoffset, ← hword]
  rfl

theorem writeWord_eq_ok {addr : PhysAddr} {f : Nat} (hplain : m.layout.Plain f)
    (hpage : addr.page = f) (haligned : addr.word.toNat % 8 = 0) (value : Word) :
    writeWord addr value m = (.ok ⟨⟩ { m with
      memory := m.memory.overwrite (addr.word.toNat - m.layout.base)
        (toLittleEndian 8 value.toNat) } : EStateM.Result (Failure ε) _ _) := by
  have hmultiple : addr.word.isMultipleOf 8 = true :=
    (Word.isMultipleOf_eight addr.word).mpr haligned
  have hoffset : m.memory.wordOffset addr = .ok (addr.word.toNat - m.layout.base) := by
    rw [Memory.wordOffset, if_pos hmultiple, offset_plain hplain hpage]
  rw [writeWord, Action.bind_apply, Action.get_apply]
  simp only [Action.bind_apply, hoffset, Action.lift_ok, Action.modify_apply]
  rfl

theorem writeWord_plain {addr : PhysAddr} {f : Nat} (hplain : m.layout.Plain f)
    (hpage : addr.page = f) (haligned : addr.word.toNat % 8 = 0) (value : Word) :
    ∃ m', writeWord addr value m = (.ok ⟨⟩ m' : EStateM.Result (Failure ε) _ _) ∧
      m'.view = m.view.writeWord addr.word.toNat value := by
  refine ⟨_, writeWord_eq_ok hplain hpage haligned value, ?_⟩
  refine (view_overwriteMemory_of_plain ?_ ?_).2.2
  · rw [length_toLittleEndian]
    decide
  · intro k hk
    rw [length_toLittleEndian] at hk
    unfold Addr.page at hpage
    rwa [show (addr.word.toNat + k) / 4096 = f by omega]

theorem writeWord_unaligned {addr : PhysAddr} (haligned : addr.word.toNat % 8 ≠ 0) (value : Word)
    (m : Machine) :
    writeWord addr value m =
      (.error (.fault .unalignedEntry) m : EStateM.Result (Failure ε) _ _) := by
  have hoffset : m.memory.wordOffset addr = .error .unalignedEntry :=
    if_neg fun hmultiple => haligned ((Word.isMultipleOf_eight addr.word).mp hmultiple)
  rw [writeWord, Action.bind_ok (Action.get_apply m), hoffset,
    Action.bind_error (Action.lift_error _ m)]

theorem spanOffset_eq_ok {addr : PhysAddr} {length : Nat} (hlow : m.layout.base ≤ addr.word.toNat)
    (hstart : addr.word.toNat < m.layout.base + m.layout.size)
    (hhigh : addr.word.toNat + length ≤ m.layout.base + m.layout.size) :
    m.memory.spanOffset addr length = .ok (addr.word.toNat - m.layout.base) := by
  have hoffset : m.memory.offset addr = .ok (addr.word.toNat - m.layout.base) :=
    Memory.offset_eq_ok hlow hstart
  have hfits : ¬m.memory.size < addr.word.toNat - m.layout.base + length := by
    change ¬m.layout.size < _
    omega
  rw [Memory.spanOffset, hoffset]
  change (if m.memory.size < _ then _ else _) = _
  rw [if_neg hfits]
  rfl

theorem copyIn_eq_ok {addr : PhysAddr} {values : List UInt8}
    (hlow : m.layout.base ≤ addr.word.toNat)
    (hstart : addr.word.toNat < m.layout.base + m.layout.size)
    (hhigh : addr.word.toNat + values.length ≤ m.layout.base + m.layout.size) :
    copyIn addr values m = (.ok ⟨⟩ { m with
      memory := m.memory.overwrite (addr.word.toNat - m.layout.base) values } :
        EStateM.Result (Failure ε) _ _) := by
  rw [copyIn, Action.bind_apply, Action.get_apply]
  simp only [Action.bind_apply, spanOffset_eq_ok hlow hstart hhigh, Action.lift_ok, overwrite,
    Action.modify_apply]

theorem copyIn_plain {addr : PhysAddr} {values : List UInt8} (hsome : 0 < values.length)
    (hplain : ∀ k < values.length, m.layout.Plain ((addr.word.toNat + k) / 4096)) :
    ∃ m', copyIn addr values m = (.ok ⟨⟩ m' : EStateM.Result (Failure ε) _ _) ∧
      m'.view = m.view.write addr.word.toNat values := by
  obtain ⟨hlow, hhigh, hview⟩ := view_overwriteMemory_of_plain hsome hplain
  exact ⟨_, copyIn_eq_ok hlow (by omega) hhigh, hview⟩

theorem copyIn_run {addr : PhysAddr} {values : List UInt8} (hstart : m.layout.Plain addr.page)
    (hplain : ∀ k < values.length, m.layout.Plain ((addr.word.toNat + k) / 4096)) :
    ∃ m', copyIn addr values m = (.ok ⟨⟩ m' : EStateM.Result (Failure ε) _ _) ∧
      m'.view = m.view.write addr.word.toNat values := by
  cases values with
  | nil =>
      have habove := hstart.above
      have hbelow := hstart.below
      unfold Addr.page at habove hbelow
      refine ⟨_, copyIn_eq_ok (by omega) (by omega) ?_, (m.view.write_nil _).symm⟩
      rw [List.length_nil]
      omega
  | cons value rest => exact copyIn_plain (Nat.succ_pos rest.length) hplain

theorem copyIn_nil (addr : PhysAddr) (m : Machine) :
    (∃ f, copyIn addr [] m = (.error (.fault f) m : EStateM.Result (Failure ε) _ _)) ∨
      copyIn addr [] m = (.ok ⟨⟩ m : EStateM.Result (Failure ε) _ _) := by
  rw [copyIn, Action.bind_ok (Action.get_apply m)]
  cases hspan : m.memory.spanOffset addr ([] : List UInt8).length with
  | error f => exact .inl ⟨f, rfl⟩
  | ok i => exact .inr rfl

theorem zeroPages_zero (addr : PhysAddr) (m : Machine) :
    (∃ f, zeroPages addr 0 m = (.error (.fault f) m : EStateM.Result (Failure ε) _ _)) ∨
      zeroPages addr 0 m = (.ok ⟨⟩ m : EStateM.Result (Failure ε) _ _) := by
  have hlength : Word.mul 0 pageSize = .ok 0 := rfl
  rw [zeroPages, Action.bind_ok (Action.get_apply m)]
  cases hoffset : m.memory.offset addr with
  | error f => exact .inl ⟨f, rfl⟩
  | ok i =>
      rw [Action.bind_ok (Action.lift_ok i m), hlength, Action.bind_ok (Action.lift_ok 0 m),
        Action.bind_ok (Action.get_apply m)]
      cases hspan : m.memory.spanOffset addr (0 : Word).toNat with
      | error f => exact .inl ⟨f, rfl⟩
      | ok i => exact .inr rfl

theorem zeroPages_eq_ok {addr : PhysAddr} {count : Word} (hsound : m.view.Sound)
    (hsome : 0 < count.toNat) (hlow : m.layout.base ≤ addr.word.toNat)
    (hhigh : addr.word.toNat + count.toNat * 4096 ≤ m.layout.base + m.layout.size) :
    zeroPages addr count m = (.ok ⟨⟩ { m with
      memory := m.memory.overwrite (addr.word.toNat - m.layout.base)
        (List.replicate (count.toNat * 4096) 0) } : EStateM.Result (Failure ε) _ _) := by
  have hmemory : m.layout.base + m.layout.size ≤ 2 ^ 52 := hsound.memory
  have hproduct : count.toNat * pageSize.toNat < 2 ^ 64 := by
    rw [toNat_pageSize]
    omega
  have hbytes : (count * pageSize).toNat = count.toNat * 4096 := Word.toNat_mul hproduct
  have hoffset : m.memory.offset addr = .ok (addr.word.toNat - m.layout.base) :=
    Memory.offset_eq_ok hlow (by change _ < m.layout.base + m.layout.size; omega)
  have hspan : m.memory.spanOffset addr (count.toNat * 4096) =
      .ok (addr.word.toNat - m.layout.base) :=
    spanOffset_eq_ok hlow (by omega) hhigh
  simp only [zeroPages, Action.bind_apply, Action.get_apply, hoffset, Action.lift_ok,
    Word.mul_eq_ok hproduct, hbytes, hspan, overwrite, Action.modify_apply]

theorem zeroPages_plain {addr : PhysAddr} {count : Word} (hsound : m.view.Sound)
    (hsome : 0 < count.toNat)
    (hplain : ∀ k < count.toNat * 4096, m.layout.Plain ((addr.word.toNat + k) / 4096)) :
    ∃ m', zeroPages addr count m = (.ok ⟨⟩ m' : EStateM.Result (Failure ε) _ _) ∧
      m'.view = m.view.write addr.word.toNat (List.replicate (count.toNat * 4096) 0) := by
  have hlength : (List.replicate (count.toNat * 4096) (0 : UInt8)).length =
      count.toNat * 4096 :=
    List.length_replicate
  obtain ⟨hlow, hhigh, hview⟩ := view_overwriteMemory_of_plain (m := m) (a := addr.word.toNat)
    (by rw [hlength]; omega) (by rwa [hlength])
  rw [hlength] at hhigh
  exact ⟨_, zeroPages_eq_ok hsound hsome hlow hhigh, hview⟩

theorem zeroFrames_plain {f : Nat} {count : Word} (hsound : m.view.Sound) (hsome : 0 < count.toNat)
    (hplain : ∀ g, f ≤ g → g < f + count.toNat → m.layout.Plain g) :
    ∃ m', zeroPages (frameBase f) count m = (.ok ⟨⟩ m' : EStateM.Result (Failure ε) _ _) ∧
      m'.view = m.view.clear f count.toNat := by
  have hlt := (hplain f (le_refl f) (by omega)).lt hsound.memory
  have hstart : (frameBase f).word.toNat = f * 4096 := toNat_frameBase (lt_trans hlt (by decide))
  obtain ⟨m', hrun, hview⟩ := zeroPages_plain (ε := ε) hsound hsome (by
    intro k hk
    rw [hstart]
    exact hplain _ (by omega) (by omega))
  rw [hstart] at hview
  exact ⟨m', hrun, hview⟩

end Accesses

/-! ## Marking frames -/

theorem allocator_withAllocator_marked (m : Machine) (start count cursor : Nat) (value : Bool) :
    (m.withAllocator { m.allocator.marked start count value with cursor }).allocator =
      { m.allocator.marked start count value with cursor } := by
  have hbitmap := m.bitmap_withAllocator { m.allocator.marked start count value with cursor }
    (Bitmap.origin_markRange m.bitmap start count value)
  have hparts : ∀ a : FrameAllocator, (m.withAllocator a).allocator =
      ⟨(m.withAllocator a).bitmap, m.firstFrame, m.frameCount, a.cursor⟩ := by
    intro a
    unfold withAllocator
    cases m.home <;> rfl
  rw [hparts, hbitmap]
  rfl

theorem layout_withAllocator_marked (m : Machine) (start count cursor : Nat) (value : Bool) :
    (m.withAllocator { m.allocator.marked start count value with cursor }).layout =
      m.layout := by
  unfold withAllocator layout bitmap allocator FrameAllocator.first FrameAllocator.marked
  cases hhome : m.home <;> simp [bitmap, hhome, Memory.size]

theorem byteAt_withAllocator_marked {m : Machine} {start count cursor : Nat} {value : Bool}
    (hrange : start + count ≤ m.frameCount) {a : Nat} (hbeside : m.layout.holdsBits a = false) :
    (m.withAllocator { m.allocator.marked start count value with cursor }).memory.byteAt a =
      m.memory.byteAt a := by
  cases hhome : m.home with
  | separate storage => simp only [withAllocator, hhome]
  | resident origin =>
      have hbase : m.layout.base = m.memory.base.word.toNat := rfl
      simp only [Layout.holdsBits, layout, bitmap, hhome, Bool.true_and, Bool.and_eq_false_iff,
        decide_eq_false_iff_not] at hbeside
      simp only [withAllocator, hhome, Memory.byteAt]
      by_cases hlow : m.memory.base.word.toNat ≤ a
      · have houtside := FrameAllocator.byteAt_marked_of_outside (a := m.allocator)
          value hrange (i := a - m.memory.base.word.toNat)
          (by
            simp only [allocator, bitmap, hhome]
            omega)
        simp only [allocator, bitmap, hhome] at houtside
        rw [if_pos hlow, if_pos hlow]
        simpa only [allocator, bitmap, hhome] using houtside
      · rw [if_neg hlow, if_neg hlow]

theorem view_withAllocator_marked (m : Machine) (start count cursor : Nat) (value : Bool)
    (hrange : start + count ≤ m.frameCount) :
    (m.withAllocator { m.allocator.marked start count value with cursor }).view =
      { m.view with free := (m.allocator.marked start count value).freeFrames } := by
  have hlayout := layout_withAllocator_marked m start count cursor value
  have hallocator := allocator_withAllocator_marked m start count cursor value
  have hinvalidated :
      (m.withAllocator { m.allocator.marked start count value with cursor }).invalidated =
        m.invalidated := by
    unfold withAllocator
    cases m.home <;> rfl
  apply View.ext
  · exact hlayout
  · funext a
    simp only [view, hlayout]
    cases hbits : m.layout.holdsBits a with
    | true => rfl
    | false => exact byteAt_withAllocator_marked hrange hbits
  · rw [view_free, hallocator]
    rfl
  · exact hinvalidated

@[simp] theorem log_withAllocator (m : Machine) (a : FrameAllocator) :
    (m.withAllocator a).log = m.log := by
  unfold withAllocator
  cases m.home <;> rfl

theorem alloc_apply (m : Machine) (count : Word) :
    alloc count m =
      match m.allocator.alloc count with
      | (.ok base, a) =>
          .ok base { m.withAllocator a with
            log := (m.withAllocator a).log.push (.allocated count base) }
      | (.error .outOfMemory, a) =>
          .error (.error .outOfMemory) { m.withAllocator a with
            log := (m.withAllocator a).log.push (.outOfMemory count) }
      | (.error .emptyRequest, a) => .error (.error .emptyRequest) (m.withAllocator a) := by
  simp only [alloc, Action.bind_apply, Action.modifyGet_apply, takeFrames]
  rcases m.allocator.alloc count with ⟨⟨_ | _⟩ | base, a⟩ <;> rfl

theorem view_withAllocator_cursor (m : Machine) (cursor : Nat) :
    (m.withAllocator { m.allocator with cursor }).view = m.view :=
  view_withAllocator_marked m 0 0 cursor true (Nat.zero_le _)

@[simp] theorem view_pushLog (m : Machine) (event : LogEvent) :
    ({ m with log := m.log.push event } : Machine).view = m.view := rfl

theorem emit_run {ε : Type} (event : LogEvent) (m : Machine) :
    ∃ m', emit event m = (.ok ⟨⟩ m' : EStateM.Result (Failure ε) _ _) ∧ m'.view = m.view :=
  ⟨_, rfl, view_pushLog m event⟩

theorem invalidate_run {ε : Type} (virt : VirtAddr) (m : Machine) :
    ∃ m', invalidate virt m = (.ok ⟨⟩ m' : EStateM.Result (Failure ε) _ _) ∧
      m'.view = m.view.invalidate virt :=
  ⟨_, rfl, rfl⟩

/-- An allocation either fails without effect or takes a run of free frames. -/
theorem alloc_run {m : Machine} (hsound : m.view.Sound) (count : Word) :
    (∃ e m', alloc count m = .error (.error e) m' ∧ m'.view = m.view ∧
        (0 < count.toNat → ∀ f, ¬Set.Ico f (f + count.toNat) ⊆ m.view.free)) ∨
      ∃ f m', 0 < count.toNat ∧ Set.Ico f (f + count.toNat) ⊆ m.view.free ∧
        alloc count m = .ok (frameBase f) m' ∧ m'.view = m.view.take f count.toNat := by
  have hrun := alloc_apply m count
  rcases m.allocator.alloc_cases (fits_of_sound hsound) count with
    ⟨e, cursor, halloc, hnone⟩ | ⟨start, hcount, hrange, hfree, halloc⟩
  · left
    rw [halloc] at hrun
    cases e with
    | outOfMemory => exact ⟨_, _, hrun, view_withAllocator_cursor m cursor, hnone⟩
    | emptyRequest => exact ⟨_, _, hrun, view_withAllocator_cursor m cursor, hnone⟩
  · right
    rw [halloc] at hrun
    refine ⟨_, _, hcount, hfree, hrun, ?_⟩
    refine (view_withAllocator_marked m _ _ _ _ hrange).trans ?_
    rw [FrameAllocator.freeFrames_marked_true (fits_of_sound hsound) hrange]
    rfl

theorem alloc_eq_ok {m m' : Machine} (hsound : m.view.Sound) {count : Word} {base : PhysAddr}
    (hrun : alloc count m = .ok base m') :
    ∃ f, base = frameBase f ∧ Set.Ico f (f + count.toNat) ⊆ m.view.free ∧
      m'.view = m.view.take f count.toNat := by
  rcases alloc_run hsound count with ⟨e, _, hfail, _⟩ | ⟨f, _, _, hfree, hdone, hview⟩
  · cases hrun.symm.trans hfail
  · cases hrun.symm.trans hdone
    exact ⟨f, rfl, hfree, hview⟩

theorem free_of_eq_ok {ε : Type} {m : Machine} (hsound : m.view.Sound) {base : PhysAddr}
    {count : Word} {a : FrameAllocator} (hfree : m.allocator.free base count = .ok a) :
    ∃ m', free base count m = (.ok ⟨⟩ m' : EStateM.Result (Failure ε) _ _) ∧
      m'.view = m.view.give (Set.Ico base.page (base.page + count.toNat)) ∧
      m'.log = m.log.push (.freed count base) := by
  obtain ⟨start, length, hrange, rfl, hframes⟩ :=
    FrameAllocator.free_eq_ok (fits_of_sound hsound) hfree
  have hrun : free base count m =
      (.ok ⟨⟩ { m.withAllocator (m.allocator.marked start length false) with
        log := (m.withAllocator (m.allocator.marked start length false)).log.push
          (.freed count base) } : EStateM.Result (Failure ε) _ _) := by
    simp only [free, Action.bind_apply, Action.get_apply, hfree, Action.lift_ok, Action.set_apply]
    rfl
  refine ⟨_, hrun, ?_, ?_⟩
  · refine (view_withAllocator_marked m _ _ _ _ hrange).trans ?_
    rw [hframes]
    rfl
  · simp only [log_withAllocator]

theorem reserve_of_eq_ok {ε : Type} {m : Machine} (hsound : m.view.Sound) {base : PhysAddr}
    {count : Word} {a : FrameAllocator} (hreserve : m.allocator.reserve base count = .ok a) :
    ∃ m', reserve base count m = (.ok ⟨⟩ m' : EStateM.Result (Failure ε) _ _) ∧
      m'.view = m.view.take base.page count.toNat := by
  obtain ⟨start, length, hrange, rfl, hframes⟩ :=
    FrameAllocator.reserve_eq_ok (fits_of_sound hsound) hreserve
  have hrun : reserve base count m =
      (.ok ⟨⟩ (m.withAllocator (m.allocator.marked start length true)) :
        EStateM.Result (Failure ε) _ _) := by
    simp only [reserve, Action.bind_apply, Action.get_apply, hreserve, Action.lift_ok,
      Action.set_apply]
  refine ⟨_, hrun, ?_⟩
  refine (view_withAllocator_marked m _ _ _ _ hrange).trans ?_
  rw [hframes]
  rfl

theorem free_run {ε : Type} {m : Machine} (hsound : m.view.Sound) {base : PhysAddr} {count : Word}
    (hstart : base.startsPage = true) (hword : base.page + count.toNat < 2 ^ 64) :
    ∃ m', free base count m = (.ok ⟨⟩ m' : EStateM.Result (Failure ε) _ _) ∧
      m'.view = m.view.give (Set.Ico base.page (base.page + count.toNat)) ∧
      m'.log = m.log.push (.freed count base) := by
  obtain ⟨start, length, _, _, hmark⟩ := m.allocator.markFrames_eq_ok base count false hword
  have hfree : m.allocator.free base count = .ok (m.allocator.marked start length false) := by
    rw [FrameAllocator.free, if_pos hstart, hmark]
  exact free_of_eq_ok hsound hfree

theorem free_cases {ε : Type} {m : Machine} (hsound : m.view.Sound) (base : PhysAddr)
    (count : Word) :
    (∃ f, free base count m = (.error (.fault f) m : EStateM.Result (Failure ε) _ _)) ∨
      ∃ m', free base count m = (.ok ⟨⟩ m' : EStateM.Result (Failure ε) _ _) ∧
        m'.view = m.view.give (Set.Ico base.page (base.page + count.toNat)) := by
  cases hfree : m.allocator.free base count with
  | error f =>
      refine .inl ⟨f, ?_⟩
      simp only [free, Action.bind_apply, Action.get_apply, hfree, Action.lift_error]
  | ok a =>
      obtain ⟨m', hrun, hview, _⟩ := free_of_eq_ok (ε := ε) hsound hfree
      exact .inr ⟨m', hrun, hview⟩

theorem reserve_cases {ε : Type} {m : Machine} (hsound : m.view.Sound) (base : PhysAddr)
    (count : Word) :
    (∃ f, reserve base count m = (.error (.fault f) m : EStateM.Result (Failure ε) _ _)) ∨
      ∃ m', reserve base count m = (.ok ⟨⟩ m' : EStateM.Result (Failure ε) _ _) ∧
        m'.view = m.view.take base.page count.toNat := by
  cases hreserve : m.allocator.reserve base count with
  | error f =>
      refine .inl ⟨f, ?_⟩
      simp only [reserve, Action.bind_apply, Action.get_apply, hreserve, Action.lift_error]
  | ok a => exact .inr (reserve_of_eq_ok hsound hreserve)

end Machine

end BootMemory
