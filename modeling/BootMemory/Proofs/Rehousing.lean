import BootMemory.Proofs.Construction
import BootMemory.Proofs.Twins

/-!
# Where the bitmap is kept

A bitmap that lies in memory can be moved to storage of its own.  The bits are the same, and the
frames that held them may hold anything from then on.  Work that stays in plain frames is blind to
the move: it answers the same on both machines and leaves them as alike as they were.
-/

namespace BootMemory

namespace Action

variable {σ ε δ α β : Type}

/-- Run from `s` and from any state related to it, the action ends alike, in related states. -/
def Blind (R : σ → σ → Prop) (x : Action σ ε α) (s : σ) : Prop :=
  ∀ t, R s t → Alike (fun _ => R) R (x s) (x t)

namespace Blind

variable {R : σ → σ → Prop} {x : Action σ ε α} {s : σ}

theorem pure (a : α) (s : σ) : Blind R (Pure.pure a : Action σ ε α) s :=
  fun _ hrelated => .ok hrelated

theorem fail (e : ε) (s : σ) : Blind R (Action.fail e : Action σ ε α) s :=
  fun _ hrelated => .error hrelated

theorem abort (f : Fault) (s : σ) : Blind R (Action.abort f : Action σ ε α) s :=
  fun _ hrelated => .error hrelated

theorem bind {f : α → Action σ ε β} (hx : Blind R x s)
    (hf : ∀ a s', x s = .ok a s' → Blind R (f a) s') : Blind R (x >>= f) s :=
  fun t hrelated => (hx t hrelated).bind fun a s' t' hrun hnext => hf a s' hrun t' hnext

/-- Where it is known what comes first, only what follows it is left. -/
theorem bind_run {f : α → Action σ ε β} {a : α} {s' : σ} (hx : Blind R x s)
    (hrun : x s = .ok a s') (hf : Blind R (f a) s') : Blind R (x >>= f) s := by
  refine hx.bind fun b t hother => ?_
  obtain ⟨rfl, rfl⟩ := EStateM.Result.ok.inj (hrun.symm.trans hother)
  exact hf

/-- A look at the state, where related states are looked at in one way. -/
theorem of_get {f : σ → Action σ ε α} (hsame : ∀ t, R s t → f t = f s) (hf : Blind R (f s) s) :
    Blind R (get >>= f) s := by
  intro t hrelated
  rw [bind_ok (get_apply s), bind_ok (get_apply t), hsame t hrelated]
  exact hf t hrelated

theorem of_lift {checked : Except Fault α} {f : α → Action σ ε β}
    (hf : ∀ a, checked = .ok a → Blind R (f a) s) : Blind R (liftM checked >>= f) s := by
  cases checked with
  | ok a => exact (pure a s).bind_run (lift_ok a s) (hf a rfl)
  | error f => exact abort f s

theorem mapError {restate : ε → δ} (hx : Blind R x s) : Blind R (Action.mapError restate x) s :=
  fun t hrelated => (hx t hrelated).mapError

theorem attempt (hx : Blind R x s) : Blind R (Action.attempt x : Action σ δ (Option α)) s := by
  intro t hrelated
  have halike := hx t hrelated
  rw [Action.attempt, Action.attempt]
  generalize x s = result at halike
  generalize x t = other at halike
  cases halike with
  | ok hnext => exact .ok hnext
  | @error failure _ _ hnext =>
      cases failure with
      | error e => exact .ok hnext
      | fault f => exact .error hnext

end Blind

end Action

/-! ## The same bits in two places -/

namespace Bitmap

/-- The first `size` bytes of two bitmaps are the same, wherever each is kept. -/
structure SameBytes (size : Nat) (b c : Bitmap) : Prop where
  left : b.origin + size ≤ b.store.size
  right : c.origin + size ≤ c.store.size
  byte : ∀ i < size, Bytes.byteAt c.store (c.origin + i) = Bytes.byteAt b.store (b.origin + i)

namespace SameBytes

variable {size : Nat} {b c d : Bitmap}

theorem trans (hbc : SameBytes size b c) (hcd : SameBytes size c d) : SameBytes size b d :=
  ⟨hbc.left, hcd.right, fun i hi => (hcd.byte i hi).trans (hbc.byte i hi)⟩

theorem taken_eq (hsame : SameBytes size b c) {i : Nat} (hi : i / 8 < size) :
    c.taken i = b.taken i := by
  rw [taken, taken, byteIndex, byteIndex, hsame.byte _ hi]

theorem mark (hsame : SameBytes size b c) (i : Nat) (value : Bool) :
    SameBytes size (b.mark i value) (c.mark i value) := by
  have hleft := hsame.left
  have hright := hsame.right
  refine ⟨by simpa using hleft, by simpa using hright, ?_⟩
  intro k hk
  have hput : ∀ d : Bitmap, d.origin + size ≤ d.store.size → ∀ byte,
      Bytes.byteAt (Bytes.put d.store (d.origin + i / 8) byte) (d.origin + k) =
        if i / 8 = k then byte else Bytes.byteAt d.store (d.origin + k) := by
    intro d hroom byte
    rw [Bytes.byteAt_put]
    by_cases hhere : i / 8 = k
    · rw [if_pos hhere, if_pos (by omega)]
    · rw [if_neg hhere, if_neg (by omega)]
  simp only [Bitmap.mark, byteIndex, hput b hleft, hput c hright]
  by_cases hhere : i / 8 = k
  · rw [if_pos hhere, if_pos hhere, hhere, hsame.byte k hk]
  · rw [if_neg hhere, if_neg hhere, hsame.byte k hk]

theorem markRange (hsame : SameBytes size b c) (start count : Nat) (value : Bool) :
    SameBytes size (b.markRange start count value) (c.markRange start count value) := by
  induction count generalizing b c start with
  | zero => exact hsame
  | succ count ih => exact ih (hsame.mark start value) (start + 1)

/-- Bitmaps that are filled hold the same from then on. -/
theorem fill (hleft : b.origin + size ≤ b.store.size) (hright : c.origin + size ≤ c.store.size) :
    SameBytes size (b.fill size) (c.fill size) := by
  have hfilled : ∀ d : Bitmap, d.origin + size ≤ d.store.size → ∀ i < size,
      Bytes.byteAt (d.fill size).store (d.origin + i) = 0xFF := by
    intro d hroom i hi
    change Bytes.byteAt (Bytes.overwrite d.store d.origin _) _ = 0xFF
    rw [Bytes.byteAt_overwrite _ _ _ _ (by rwa [List.length_replicate]),
      if_pos (Nat.le_add_right _ _), Nat.add_sub_cancel_left, List.getElem?_replicate, if_pos hi,
      Option.getD_some]
  have hsize : ∀ d : Bitmap, (d.fill size).store.size = d.store.size :=
    fun d => Bytes.size_overwrite ..
  refine ⟨hsize b ▸ hleft, hsize c ▸ hright, ?_⟩
  exact fun i hi => (hfilled c hright i hi).trans (hfilled b hleft i hi).symm

end SameBytes

end Bitmap

namespace FrameAllocator

variable {a b : FrameAllocator}

theorem clip_congr (hfirst : b.firstFrame = a.firstFrame) (hcount : b.frameCount = a.frameCount)
    (base : PhysAddr) (count : Word) : b.clip base count = a.clip base count := by
  rw [clip, clip, hfirst, hcount]

/-- The frames of a range are found from the setup alone, so they are marked or refused alike. -/
theorem markFrames_congr (hfirst : b.firstFrame = a.firstFrame)
    (hcount : b.frameCount = a.frameCount) (base : PhysAddr) (count : Word) (value : Bool) :
    (∃ f, a.markFrames base count value = .error f ∧ b.markFrames base count value = .error f) ∨
      ∃ start length, start + length ≤ a.frameCount ∧
        a.markFrames base count value = .ok (a.marked start length value) ∧
        b.markFrames base count value = .ok (b.marked start length value) := by
  rw [markFrames, markFrames, clip_congr hfirst hcount]
  cases hclip : a.clip base count with
  | error f => exact .inl ⟨f, rfl, rfl⟩
  | ok range =>
      right
      cases range with
      | none => exact ⟨0, 0, Nat.zero_le _, rfl, rfl⟩
      | some range => exact ⟨range.1, range.2, (clip_eq_some hclip).2, rfl, rfl⟩

end FrameAllocator

namespace Machine

/-- The bitmap of `m` lies in memory, and `n` is the same machine with the bits in storage of its
own.  What was reported may differ, and so may what is in the frames of the bitmap. -/
structure Rehoused (m n : Machine) : Prop where
  resident : m.layout.resident = true
  separate : n.layout.resident = false
  rest : n = { m with memory := n.memory, home := n.home, log := n.log }
  base : n.memory.base = m.memory.base
  size : n.memory.size = m.memory.size
  bits : Bitmap.SameBytes ((m.frameCount + 7) / 8) m.bitmap n.bitmap
  bytes : ∀ a, a / 4096 ∉ m.layout.bitmapFrames → n.memory.byteAt a = m.memory.byteAt a

/-- A write beside the bitmap leaves the bits as they were. -/
theorem sameBytes_overwriteMemory {m : Machine} {i : Nat} {values : List UInt8}
    (hroom : m.bitmap.origin + (m.frameCount + 7) / 8 ≤ m.bitmap.store.size)
    (hbeside : ∀ k < values.length, m.layout.holdsBits (m.layout.base + i + k) = false) :
    Bitmap.SameBytes ((m.frameCount + 7) / 8)
      ({ m with memory := m.memory.overwrite i values } : Machine).bitmap m.bitmap := by
  cases hhome : m.home with
  | separate storage =>
      simp only [bitmap, hhome] at hroom ⊢
      exact ⟨hroom, hroom, fun _ _ => rfl⟩
  | resident origin =>
      simp only [bitmap, hhome] at hroom ⊢
      refine ⟨(Bytes.size_overwrite ..).symm ▸ hroom, hroom, ?_⟩
      intro j hj
      symm
      change Bytes.byteAt (Bytes.overwrite m.memory.bytes i values) (origin + j) =
        Bytes.byteAt m.memory.bytes (origin + j)
      apply Bytes.byteAt_overwrite_of_outside
      by_contra hinside
      have hoff := hbeside (origin + j - i) (by omega)
      rw [show m.layout.base + i + (origin + j - i) = m.layout.base + (origin + j) by omega] at hoff
      simp only [Layout.holdsBits, layout, bitmap, hhome, Bool.true_and, Bool.and_eq_false_iff,
        decide_eq_false_iff_not] at hoff
      omega

theorem bitmap_overwriteMemory {m : Machine} (hseparate : m.layout.resident = false) (i : Nat)
    (values : List UInt8) :
    ({ m with memory := m.memory.overwrite i values } : Machine).bitmap = m.bitmap := by
  cases hhome : m.home with
  | separate storage => simp only [bitmap, hhome]
  | resident origin => simp [layout, hhome] at hseparate

theorem spanOffset_of_eq_ok {m : Machine} {addr : PhysAddr} {length i : Nat}
    (hspan : m.memory.spanOffset addr length = .ok i) :
    m.layout.base ≤ addr.word.toNat ∧ i = addr.word.toNat - m.layout.base ∧
      i + length ≤ m.memory.size := by
  obtain ⟨j, hoffset, hrest⟩ := Checked.bind_eq_ok.mp hspan
  obtain ⟨hlow, _, hj⟩ := Memory.offset_of_eq_ok hoffset
  split at hrest
  next => cases hrest
  next hroom =>
    cases hrest
    exact ⟨hlow, hj, Nat.not_lt.mp hroom⟩

open BootMemory.Action

namespace Rehoused

variable {m n : Machine}

theorem exists_homes (hrehoused : Rehoused m n) :
    ∃ origin storage, m.home = .resident origin ∧ n.home = .separate storage := by
  have hresident := hrehoused.resident
  have hseparate := hrehoused.separate
  unfold layout at hresident hseparate
  cases hm : m.home <;> cases hn : n.home <;> simp_all

theorem firstFrame_eq (hrehoused : Rehoused m n) : n.firstFrame = m.firstFrame := by
  rw [hrehoused.rest]

theorem frameCount_eq (hrehoused : Rehoused m n) : n.frameCount = m.frameCount := by
  rw [hrehoused.rest]

theorem cursor_eq (hrehoused : Rehoused m n) : n.cursor = m.cursor := by
  rw [hrehoused.rest]

theorem invalidated_eq (hrehoused : Rehoused m n) : n.invalidated = m.invalidated := by
  rw [hrehoused.rest]

theorem taken_eq (hrehoused : Rehoused m n) {bit : Nat} (hbit : bit < m.frameCount) :
    n.allocator.taken bit = m.allocator.taken bit :=
  hrehoused.bits.taken_eq (by omega)

theorem isTaken_eq (hrehoused : Rehoused m n) (addr : PhysAddr) :
    n.allocator.isTaken addr = m.allocator.isTaken addr := by
  have hfirst : n.allocator.firstFrame = m.allocator.firstFrame := hrehoused.firstFrame_eq
  have hcount : n.allocator.frameCount = m.allocator.frameCount := hrehoused.frameCount_eq
  rw [FrameAllocator.isTaken, FrameAllocator.isTaken, FrameAllocator.clip_congr hfirst hcount]
  cases hclip : m.allocator.clip addr.pageFloor 1 with
  | error f => rfl
  | ok range =>
      cases range with
      | none => rfl
      | some range =>
          have hrange := FrameAllocator.clip_eq_some hclip
          have htaken := hrehoused.taken_eq (show range.1 < m.allocator.frameCount by omega)
          exact congrArg Except.ok htaken

theorem freeCount_eq (hrehoused : Rehoused m n) : n.freeCount = m.freeCount := by
  have hcount : n.allocator.frameCount = m.allocator.frameCount := hrehoused.frameCount_eq
  rw [freeCount, freeCount, FrameAllocator.freeCount, FrameAllocator.freeCount, hcount,
    Bitmap.countFree, Bitmap.countFree]
  apply List.countP_congr
  intro bit hbit
  have htaken := hrehoused.taken_eq (List.mem_range.mp hbit)
  rw [FrameAllocator.taken, FrameAllocator.taken] at htaken
  rw [htaken]

theorem free_eq (hrehoused : Rehoused m n) : n.view.free = m.view.free := by
  have hfirst : n.allocator.first = m.allocator.first := by
    rw [FrameAllocator.first, FrameAllocator.first]
    exact congrArg (fun f : Frame => f.index.toNat) hrehoused.firstFrame_eq
  have hcount : n.allocator.frameCount = m.frameCount := hrehoused.frameCount_eq
  ext f
  simp only [view_free, FrameAllocator.mem_freeFrames, hfirst, hcount]
  apply and_congr_right
  intro hf
  rw [hrehoused.taken_eq (by omega)]

theorem noBits (hrehoused : Rehoused m n) (a : Nat) : n.layout.holdsBits a = false := by
  rw [Layout.holdsBits, hrehoused.separate]
  rfl

theorem plain (hrehoused : Rehoused m n) {f : Nat} (hplain : m.layout.Plain f) :
    n.layout.Plain f := by
  have hbase : n.layout.base = m.layout.base :=
    congrArg (fun b : PhysAddr => b.word.toNat) hrehoused.base
  have hsize : n.layout.size = m.layout.size := hrehoused.size
  refine ⟨?_, ?_, fun a _ => hrehoused.noBits a⟩
  · rw [hbase]
    exact hplain.above
  · rw [hbase, hsize]
    exact hplain.below

theorem sound (hrehoused : Rehoused m n) (hsound : m.view.Sound) : n.view.Sound where
  bits := by
    have hright := hrehoused.bits.right
    rwa [← hrehoused.frameCount_eq] at hright
  frames := by
    have hframes := hsound.frames
    have hfirst : n.layout.firstFrame = m.layout.firstFrame :=
      congrArg (fun f : Frame => f.index.toNat) hrehoused.firstFrame_eq
    have hcount : n.layout.frameCount = m.layout.frameCount := hrehoused.frameCount_eq
    change n.layout.firstFrame + n.layout.frameCount ≤ 2 ^ 52
    rwa [hfirst, hcount]
  memory := by
    have hmemory := hsound.memory
    change n.memory.base.word.toNat + n.memory.size ≤ 2 ^ 52
    rw [hrehoused.base, hrehoused.size]
    exact hmemory
  plain := by
    rw [hrehoused.free_eq]
    exact fun f hf => hrehoused.plain (hsound.plain f hf)

theorem offset_eq (hrehoused : Rehoused m n) (addr : PhysAddr) :
    n.memory.offset addr = m.memory.offset addr := by
  rw [Memory.offset, Memory.offset, hrehoused.base, hrehoused.size]

theorem spanOffset_eq (hrehoused : Rehoused m n) (addr : PhysAddr) (length : Nat) :
    n.memory.spanOffset addr length = m.memory.spanOffset addr length := by
  rw [Memory.spanOffset, Memory.spanOffset, hrehoused.offset_eq, hrehoused.size]

theorem wordOffset_eq (hrehoused : Rehoused m n) (addr : PhysAddr) :
    n.memory.wordOffset addr = m.memory.wordOffset addr := by
  rw [Memory.wordOffset, Memory.wordOffset, hrehoused.offset_eq]

theorem entry_eq (hrehoused : Rehoused m n) {table : Nat} (htable : m.layout.Plain table)
    (index : Fin 512) : n.view.entry table index = m.view.entry table index := by
  refine View.entry_congr (fun a ha => ?_) index
  have hbeside : a / 4096 ∉ m.layout.bitmapFrames := by
    rintro ⟨b, hb, hbits⟩
    rw [htable.noBits b (hb.trans ha)] at hbits
    contradiction
  simp only [view, hrehoused.noBits, htable.noBits a ha]
  exact hrehoused.bytes a hbeside

/-! ## Operations on both -/

/-- A write beside the bitmap. -/
theorem overwrite (hrehoused : Rehoused m n) {i : Nat} {values : List UInt8}
    (hfits : i + values.length ≤ m.memory.size)
    (hbeside : ∀ k < values.length, m.layout.holdsBits (m.layout.base + i + k) = false) :
    Rehoused { m with memory := m.memory.overwrite i values }
      { n with memory := n.memory.overwrite i values } := by
  have hbase : n.memory.base.word.toNat = m.memory.base.word.toNat := by
    rw [hrehoused.base]
  have hsame : Bitmap.SameBytes ((m.frameCount + 7) / 8)
      ({ m with memory := m.memory.overwrite i values } : Machine).bitmap m.bitmap :=
    sameBytes_overwriteMemory hrehoused.bits.left hbeside
  constructor
  · rw [layout_overwriteMemory]
    exact hrehoused.resident
  · rw [layout_overwriteMemory]
    exact hrehoused.separate
  · rw [hrehoused.rest]
  · exact hrehoused.base
  · change (n.memory.overwrite i values).size = (m.memory.overwrite i values).size
    rw [Memory.size_overwrite, Memory.size_overwrite, hrehoused.size]
  · have hkept := bitmap_overwriteMemory hrehoused.separate i values
    rw [hkept]
    exact hsame.trans hrehoused.bits
  · intro a ha
    rw [layout_overwriteMemory] at ha
    change (n.memory.overwrite i values).byteAt a = (m.memory.overwrite i values).byteAt a
    rw [Memory.byteAt_overwrite n.memory i a values (by rwa [hrehoused.size]),
      Memory.byteAt_overwrite m.memory i a values hfits, hbase, hrehoused.bytes a ha]

theorem mark (hrehoused : Rehoused m n) {start count : Nat} (hrange : start + count ≤ m.frameCount)
    (cursor : Nat) (value : Bool) :
    Rehoused (m.withAllocator { m.allocator.marked start count value with cursor })
      (n.withAllocator { n.allocator.marked start count value with cursor }) := by
  obtain ⟨origin, storage, hm, hn⟩ := hrehoused.exists_homes
  have hmLayout := layout_withAllocator_marked m start count cursor value
  have hnLayout := layout_withAllocator_marked n start count cursor value
  have hmBitmap := m.bitmap_withAllocator { m.allocator.marked start count value with cursor }
    (Bitmap.origin_markRange m.bitmap start count value)
  have hnBitmap := n.bitmap_withAllocator { n.allocator.marked start count value with cursor }
    (Bitmap.origin_markRange n.bitmap start count value)
  have hbits := hrehoused.bits.markRange start count value
  constructor
  · rw [hmLayout]
    exact hrehoused.resident
  · rw [hnLayout]
    exact hrehoused.separate
  · simp only [withAllocator, hm, hn]
    rw [hrehoused.rest]
  · simp only [withAllocator, hm, hn]
    exact hrehoused.base
  · simp only [withAllocator, hm, hn]
    change n.memory.size = (m.bitmap.markRange start count value).store.size
    rw [Bitmap.size_store_markRange, hrehoused.size]
    simp only [bitmap, hm, Memory.size]
  · rw [hmBitmap, hnBitmap]
    simp only [withAllocator, hm]
    exact hbits
  · intro a ha
    rw [hmLayout] at ha
    have hbeside : m.layout.holdsBits a = false :=
      Bool.eq_false_iff.mpr fun hbits => ha ⟨a, rfl, hbits⟩
    rw [byteAt_withAllocator_marked (hrehoused.frameCount_eq ▸ hrange) (hrehoused.noBits a),
      byteAt_withAllocator_marked hrange hbeside, hrehoused.bytes a ha]

theorem markHere (hrehoused : Rehoused m n) {start count : Nat}
    (hrange : start + count ≤ m.frameCount) (value : Bool) :
    Rehoused (m.withAllocator (m.allocator.marked start count value))
      (n.withAllocator (n.allocator.marked start count value)) := by
  have hsame : n.allocator.marked start count value =
      { n.allocator.marked start count value with cursor := m.cursor } := by
    rw [← hrehoused.cursor_eq]
    rfl
  rw [hsame]
  exact hrehoused.mark hrange m.cursor value

theorem markFrames (hrehoused : Rehoused m n) (base : PhysAddr) (count : Word) (value : Bool) :
    (∃ f, m.allocator.markFrames base count value = .error f ∧
        n.allocator.markFrames base count value = .error f) ∨
      ∃ a b, m.allocator.markFrames base count value = .ok a ∧
        n.allocator.markFrames base count value = .ok b ∧
        Rehoused (m.withAllocator a) (n.withAllocator b) := by
  have hfirst : n.allocator.firstFrame = m.allocator.firstFrame := hrehoused.firstFrame_eq
  have hcount : n.allocator.frameCount = m.allocator.frameCount := hrehoused.frameCount_eq
  rcases FrameAllocator.markFrames_congr hfirst hcount base count value with
    hfault | ⟨start, length, hrange, hm, hn⟩
  · exact .inl hfault
  · exact .inr ⟨_, _, hm, hn, hrehoused.markHere hrange value⟩

theorem pushLog (hrehoused : Rehoused m n) (event : LogEvent) :
    Rehoused { m with log := m.log.push event } { n with log := n.log.push event } :=
  ⟨hrehoused.resident, hrehoused.separate, by rw [hrehoused.rest], hrehoused.base,
    hrehoused.size, hrehoused.bits, hrehoused.bytes⟩

end Rehoused

/-! ## Work that is blind to the move -/

section Blind

variable {ε : Type} {m : Machine}

theorem blind_emit (event : LogEvent) (m : Machine) :
    Blind Rehoused (emit event : MachineM ε Unit) m :=
  fun _ hrehoused => .ok (hrehoused.pushLog event)

theorem blind_invalidate (virt : VirtAddr) (m : Machine) :
    Blind Rehoused (invalidate virt : MachineM ε Unit) m :=
  fun n hrehoused => .ok ⟨hrehoused.resident, hrehoused.separate, by rw [hrehoused.rest],
    hrehoused.base, hrehoused.size, hrehoused.bits, hrehoused.bytes⟩

theorem blind_setActiveRoot (root : PhysAddr) (m : Machine) :
    Blind Rehoused (setActiveRoot root : MachineM ε Unit) m :=
  fun n hrehoused => .ok ⟨hrehoused.resident, hrehoused.separate, by rw [hrehoused.rest],
    hrehoused.base, hrehoused.size, hrehoused.bits, hrehoused.bytes⟩

theorem blind_alloc (count : Word) (m : Machine) : Blind Rehoused (alloc count) m := by
  intro n hrehoused
  have hcursor : n.allocator.cursor = m.allocator.cursor := hrehoused.cursor_eq
  have hfirst : n.allocator.firstFrame = m.allocator.firstFrame := hrehoused.firstFrame_eq
  have hnext := FrameAllocator.nextRun_congr hrehoused.frameCount_eq hcursor
    (fun _ hbit => hrehoused.taken_eq hbit) count.toNat
  rw [alloc_apply, alloc_apply, FrameAllocator.alloc, FrameAllocator.alloc]
  by_cases hzero : count = 0
  · rw [if_pos hzero, if_pos hzero]
    simp only [withAllocator_allocator]
    exact .error hrehoused
  · rw [if_neg hzero, if_neg hzero, hnext]
    cases hrun : m.allocator.nextRun count.toNat with
    | none =>
        have hmoved : Rehoused (m.withAllocator { m.allocator with cursor := 0 })
            (n.withAllocator { n.allocator with cursor := 0 }) :=
          hrehoused.mark (show 0 + 0 ≤ m.frameCount from Nat.zero_le _) 0 true
        exact .error (hmoved.pushLog _)
    | some start =>
        have hsome := FrameAllocator.toNat_pos_of_ne_zero hzero
        have hrange := (FrameAllocator.nextRun_eq_some hsome hrun).1
        simp only [FrameAllocator.frameAddress, hfirst]
        exact .ok ((hrehoused.mark hrange (start + count.toNat) true).pushLog _)

theorem blind_reserve (base : PhysAddr) (count : Word) (m : Machine) :
    Blind Rehoused (reserve base count : MachineM ε Unit) m := by
  intro n hrehoused
  rw [reserve, bind_ok (get_apply m), bind_ok (get_apply n), FrameAllocator.reserve,
    FrameAllocator.reserve]
  rcases hrehoused.markFrames base.pageFloor count true with ⟨f, hm, hn⟩ | ⟨a, b, hm, hn, hnext⟩
  · rw [hm, hn]
    exact .error hrehoused
  · rw [hm, hn]
    exact .ok hnext

theorem blind_free (base : PhysAddr) (count : Word) (m : Machine) :
    Blind Rehoused (free base count : MachineM ε Unit) m := by
  intro n hrehoused
  rw [free, bind_ok (get_apply m), bind_ok (get_apply n), FrameAllocator.free, FrameAllocator.free]
  by_cases hstart : base.startsPage = true
  · rw [if_pos hstart, if_pos hstart]
    rcases hrehoused.markFrames base count false with ⟨f, hm, hn⟩ | ⟨a, b, hm, hn, hnext⟩
    · rw [hm, hn]
      exact .error hrehoused
    · rw [hm, hn]
      exact .ok (hnext.pushLog _)
  · rw [if_neg hstart, if_neg hstart]
    exact .error hrehoused

theorem blind_readEntry (hsound : m.view.Sound) {table : Nat} (htable : m.layout.Plain table)
    (index : Fin 512) : Blind Rehoused (readWord (entryBase table index) : MachineM ε Word) m := by
  intro n hrehoused
  rw [readEntry_run hsound htable index,
    readEntry_run (hrehoused.sound hsound) (hrehoused.plain htable) index,
    hrehoused.entry_eq htable index]
  exact .ok hrehoused

theorem blind_overwrite {i : Nat} {values : List UInt8} (hfits : i + values.length ≤ m.memory.size)
    (hbeside : ∀ k < values.length, m.layout.holdsBits (m.layout.base + i + k) = false) :
    Blind Rehoused (overwrite i values : MachineM ε Unit) m :=
  fun _ hrehoused => .ok (hrehoused.overwrite hfits hbeside)

theorem blind_copyIn {addr : PhysAddr} {values : List UInt8}
    (hbeside : ∀ k < values.length, m.layout.holdsBits (addr.word.toNat + k) = false) :
    Blind Rehoused (copyIn addr values : MachineM ε Unit) m := by
  refine .of_get (fun n hrehoused => ?_) (.of_lift fun i hspan => ?_)
  · rw [hrehoused.spanOffset_eq]
  · obtain ⟨hlow, rfl, hfits⟩ := spanOffset_of_eq_ok hspan
    refine blind_overwrite hfits fun k hk => ?_
    rw [show m.layout.base + (addr.word.toNat - m.layout.base) + k = addr.word.toNat + k by omega]
    exact hbeside k hk

theorem blind_zeroPages {addr : PhysAddr} {count : Word}
    (hbeside : ∀ k < count.toNat * 4096, m.layout.holdsBits (addr.word.toNat + k) = false) :
    Blind Rehoused (zeroPages addr count : MachineM ε Unit) m := by
  refine .of_get (fun n hrehoused => ?_) (.of_lift fun _ _ => .of_lift fun length hlength => ?_)
  · rw [hrehoused.offset_eq]
  have hbytes : length.toNat = count.toNat * 4096 := by
    rw [Word.toNat_of_mul_eq_ok hlength, toNat_pageSize]
  -- the length is known, and from here on this is a copy
  rw [← hbytes, ← List.length_replicate (n := length.toNat) (a := (0 : UInt8))] at hbeside
  have hcopy := blind_copyIn (ε := ε) hbeside
  rwa [copyIn, List.length_replicate] at hcopy

theorem blind_writeWord {addr : PhysAddr} {value : Word}
    (hfits : addr.word.toNat + 8 ≤ m.layout.base + m.layout.size)
    (hbeside : ∀ k < 8, m.layout.holdsBits (addr.word.toNat + k) = false) :
    Blind Rehoused (writeWord addr value : MachineM ε Unit) m := by
  refine .of_get (fun n hrehoused => ?_) (.of_lift fun i hoffset => ?_)
  · rw [hrehoused.wordOffset_eq]
  have hlength : (toLittleEndian 8 value.toNat).length = 8 := length_toLittleEndian _ _
  rw [Memory.wordOffset] at hoffset
  split at hoffset
  next =>
    obtain ⟨hlow, _, rfl⟩ := Memory.offset_of_eq_ok hoffset
    change m.layout.base ≤ _ at hlow
    have hroom : addr.word.toNat - m.layout.base + (toLittleEndian 8 value.toNat).length ≤
        m.memory.size := by
      rw [hlength]
      change _ ≤ m.layout.size
      omega
    refine blind_overwrite hroom fun k hk => ?_
    change m.layout.holdsBits (m.layout.base + (addr.word.toNat - m.layout.base) + k) = false
    rw [hlength] at hk
    rw [Nat.add_sub_cancel' hlow]
    exact hbeside k hk
  next => cases hoffset

end Blind

end Machine

end BootMemory
