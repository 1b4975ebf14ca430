import BootMemory.Proofs.Walk

/-!
# Two machines side by side

Two machines may differ in the bytes of some frames, the stale ones, and agree in all else.  An
operation that reads no stale frame ends alike on both.  Where it writes, the two agree afterwards,
so frames that are cleared are stale no longer, and what is still stale holds what it held at the
start.
-/

namespace BootMemory

namespace Action

variable {σ ε δ α β : Type}

/-- Two runs that end alike: with one answer or with one failure, in states that are related in a
way that may depend on the answer. -/
inductive Alike (ok : α → σ → σ → Prop) (error : σ → σ → Prop) :
    EStateM.Result (Failure ε) σ α → EStateM.Result (Failure ε) σ α → Prop
  | ok {a : α} {s t : σ} (hrelated : ok a s t) : Alike ok error (.ok a s) (.ok a t)
  | error {e : Failure ε} {s t : σ} (hrelated : error s t) :
      Alike ok error (.error e s) (.error e t)

namespace Alike

variable {ok ok' : α → σ → σ → Prop} {next : β → σ → σ → Prop} {error error' : σ → σ → Prop}
  {x : Action σ ε α} {s t : σ}

theorem exists_ok {r : EStateM.Result (Failure ε) σ α} {a : α}
    (halike : Alike ok error (.ok a s) r) : ∃ t, r = .ok a t ∧ ok a s t := by
  cases halike with
  | ok hrelated => exact ⟨_, rfl, hrelated⟩

theorem mono {r q : EStateM.Result (Failure ε) σ α} (halike : Alike ok error r q)
    (hok : ∀ a s t, r = .ok a s → ok a s t → ok' a s t)
    (herror : ∀ e s t, r = .error e s → error s t → error' s t) : Alike ok' error' r q := by
  cases halike with
  | ok hrelated => exact .ok (hok _ _ _ rfl hrelated)
  | error hrelated => exact .error (herror _ _ _ rfl hrelated)

theorem bind {f : α → Action σ ε β} (halike : Alike ok error (x s) (x t))
    (hnext : ∀ a s' t', x s = .ok a s' → ok a s' t' → Alike next error (f a s') (f a t')) :
    Alike next error ((x >>= f) s) ((x >>= f) t) := by
  rw [bind_apply, bind_apply]
  cases hrun : x s <;> cases hother : x t <;> rw [hrun, hother] at halike
  · cases halike with
    | ok hrelated => exact hnext _ _ _ hrun hrelated
  · cases halike
  · cases halike
  · cases halike with
    | error hrelated => exact .error hrelated

theorem mapError {restate : ε → δ} (halike : Alike ok error (x s) (x t)) :
    Alike ok error (Action.mapError restate x s) (Action.mapError restate x t) := by
  cases hrun : x s <;> cases hother : x t <;> rw [hrun, hother] at halike
  · rw [mapError_ok hrun, mapError_ok hother]
    cases halike with
    | ok hrelated => exact .ok hrelated
  · cases halike
  · cases halike
  · rw [mapError_error hrun, mapError_error hother]
    cases halike with
    | error hrelated => exact .error hrelated

end Alike

end Action

/-- A write leaves the bytes of the frames alone that it does not meet. -/
theorem Memory.byteAt_overwrite_of_beside (m : Memory) {i : Nat} {values : List UInt8}
    {frames : Set Nat} (hfits : i + values.length ≤ m.size)
    (hbeside : ∀ k < values.length, (m.base.word.toNat + i + k) / 4096 ∉ frames) {a : Nat}
    (ha : a / 4096 ∈ frames) : (m.overwrite i values).byteAt a = m.byteAt a := by
  rw [byteAt_overwrite m i a values hfits]
  by_cases hlow : m.base.word.toNat + i ≤ a
  · rw [if_pos hlow, List.getElem?_eq_none, Option.getD_none]
    by_contra hin
    apply hbeside (a - (m.base.word.toNat + i)) (Nat.not_le.mp hin)
    rwa [Nat.add_sub_cancel' hlow]
  · rw [if_neg hlow]

namespace Machine

/-- The machines differ in the bytes of some frames of memory and in nothing else. -/
structure AgreeBut (frames : Set Nat) (m n : Machine) : Prop where
  rest : n = { m with memory := n.memory }
  base : n.memory.base = m.memory.base
  size : n.memory.size = m.memory.size
  bytes : ∀ a, a / 4096 ∉ frames → n.memory.byteAt a = m.memory.byteAt a

theorem layout_eq_of_agreeBut {frames : Set Nat} {m n : Machine} (hagree : m.AgreeBut frames n) :
    n.layout = m.layout := by
  obtain ⟨hrest, hbase, hsize, _⟩ := hagree
  unfold Memory.size at hsize
  generalize n.memory = memory at hrest hbase hsize
  subst hrest
  unfold layout bitmap
  cases m.home <;> simp [hbase, hsize, Memory.size, allocator, FrameAllocator.first]

/-- Two runs that were at `m₀` and `n₀` have come to `m` and `n`.  These agree in all but stale
frames, and the stale frames are as they were. -/
structure Twins (m₀ n₀ : Machine) (stale : Set Nat) (m n : Machine) : Prop
    extends AgreeBut stale m n where
  layout : m.layout = m₀.layout
  plain : ∀ f ∈ stale, m₀.layout.Plain f
  left : ∀ a, a / 4096 ∈ stale → m.memory.byteAt a = m₀.memory.byteAt a
  right : ∀ a, a / 4096 ∈ stale → n.memory.byteAt a = n₀.memory.byteAt a

namespace Twins

variable {ε : Type} {m₀ n₀ m n : Machine} {stale kept : Set Nat} {error : Machine → Machine → Prop}

theorem start (hagree : m.AgreeBut stale n) (hplain : ∀ f ∈ stale, m.layout.Plain f) :
    Twins m n stale m n :=
  ⟨hagree, rfl, hplain, fun _ _ => rfl, fun _ _ => rfl⟩

theorem layout_eq (htwins : Twins m₀ n₀ stale m n) : n.layout = m.layout :=
  layout_eq_of_agreeBut htwins.toAgreeBut

theorem plain_left (htwins : Twins m₀ n₀ stale m n) {f : Nat} (hf : f ∈ stale) : m.layout.Plain f :=
  htwins.layout ▸ htwins.plain f hf

theorem plain_right (htwins : Twins m₀ n₀ stale m n) {f : Nat} (hplain : m.layout.Plain f) :
    n.layout.Plain f :=
  htwins.layout_eq ▸ hplain

/-- No bit of the bitmap is kept in a stale frame. -/
theorem taken_eq (htwins : Twins m₀ n₀ stale m n) {bit : Nat} (hbit : bit < m.frameCount) :
    n.allocator.taken bit = m.allocator.taken bit := by
  have hhome : n.home = m.home := by
    rw [htwins.rest]
  change n.bitmap.taken bit = m.bitmap.taken bit
  cases hm : m.home with
  | separate storage => simp only [bitmap, hhome, hm]
  | resident origin =>
      have hholds : m.layout.holdsBits (m.memory.base.word.toNat + (origin + bit / 8)) = true := by
        simp only [Layout.holdsBits, Machine.layout, bitmap, hm, Bool.true_and, Bool.and_eq_true,
          decide_eq_true_eq]
        omega
      have hbeside : (m.memory.base.word.toNat + (origin + bit / 8)) / 4096 ∉ stale := by
        intro hin
        rw [(htwins.plain_left hin).noBits _ rfl] at hholds
        contradiction
      have hbyte := htwins.bytes _ hbeside
      rw [Memory.byteAt, Memory.byteAt, htwins.base, if_pos (Nat.le_add_right _ _),
        if_pos (Nat.le_add_right _ _), Nat.add_sub_cancel_left] at hbyte
      simp only [bitmap, hhome, hm, Bitmap.taken, Bitmap.byteIndex, hbyte]

theorem byte_eq (htwins : Twins m₀ n₀ stale m n) {a : Nat} (ha : a / 4096 ∉ stale) :
    n.view.byte a = m.view.byte a := by
  simp only [view, htwins.layout_eq, htwins.bytes a ha]

theorem free_eq (htwins : Twins m₀ n₀ stale m n) : n.view.free = m.view.free := by
  have hfirst : n.allocator.first = m.allocator.first := by
    rw [htwins.rest]
    rfl
  have hcount : n.allocator.frameCount = m.frameCount := by
    rw [htwins.rest]
    rfl
  ext f
  simp only [view_free, FrameAllocator.mem_freeFrames, hfirst, hcount]
  apply and_congr_right
  intro hf
  rw [htwins.taken_eq (by omega)]

theorem sound (htwins : Twins m₀ n₀ stale m n) (hsound : m.view.Sound) : n.view.Sound :=
  hsound.of_free_subset htwins.layout_eq htwins.free_eq.subset

theorem entry_eq (htwins : Twins m₀ n₀ stale m n) {table : Nat} (htable : table ∉ stale)
    (index : Fin 512) : n.view.entry table index = m.view.entry table index :=
  View.entry_congr (fun _ ha => htwins.byte_eq (ha ▸ htable)) index

theorem sameTables (htwins : Twins m₀ n₀ stale m n) {root : Nat}
    (hapart : ∀ t ∈ m.view.tables root, t ∉ stale) : View.SameTables m.view n.view root :=
  .of_bytes htwins.layout_eq fun _ ha => htwins.byte_eq (hapart _ ha)

/-! ## Writing in both -/

/-- A write in both machines that covers what it leaves out of the stale frames, and nothing of
the others. -/
theorem overwrite (htwins : Twins m₀ n₀ stale m n) (hsubset : kept ⊆ stale) {i : Nat}
    {values : List UInt8} (hfits : i + values.length ≤ m.memory.size)
    (hcovers : ∀ a, a / 4096 ∈ stale → a / 4096 ∉ kept →
      m.layout.base + i ≤ a ∧ a < m.layout.base + i + values.length)
    (hbeside : ∀ k < values.length, (m.layout.base + i + k) / 4096 ∉ kept) :
    Twins m₀ n₀ kept { m with memory := m.memory.overwrite i values }
      { n with memory := n.memory.overwrite i values } := by
  have hfits' : i + values.length ≤ n.memory.size := by
    rwa [htwins.size]
  have hbase : n.memory.base.word.toNat = m.layout.base := by
    rw [htwins.base]
    rfl
  constructor
  · refine ⟨?_, htwins.base, ?_, ?_⟩
    · rw [htwins.rest]
    · change (n.memory.overwrite i values).size = (m.memory.overwrite i values).size
      rw [Memory.size_overwrite, Memory.size_overwrite, htwins.size]
    · intro a ha
      change (n.memory.overwrite i values).byteAt a = (m.memory.overwrite i values).byteAt a
      have hm : m.memory.base.word.toNat = m.layout.base := rfl
      rw [Memory.byteAt_overwrite n.memory i a values hfits',
        Memory.byteAt_overwrite m.memory i a values hfits, hbase, hm]
      by_cases hstale : a / 4096 ∈ stale
      · obtain ⟨hlow, hhigh⟩ := hcovers a hstale ha
        rw [if_pos hlow, if_pos hlow, List.getElem?_eq_getElem (by omega), Option.getD_some,
          Option.getD_some]
      · rw [htwins.bytes a hstale]
  · exact (layout_overwriteMemory m i values).trans htwins.layout
  · exact fun f hf => htwins.plain f (hsubset hf)
  · intro a ha
    exact (m.memory.byteAt_overwrite_of_beside hfits hbeside ha).trans (htwins.left a (hsubset ha))
  · intro a ha
    exact (n.memory.byteAt_overwrite_of_beside hfits' (by rwa [hbase]) ha).trans
      (htwins.right a (hsubset ha))

theorem overwrite_beside (htwins : Twins m₀ n₀ stale m n) {i : Nat} {values : List UInt8}
    (hfits : i + values.length ≤ m.memory.size)
    (hbeside : ∀ k < values.length, (m.layout.base + i + k) / 4096 ∉ stale) :
    Twins m₀ n₀ stale { m with memory := m.memory.overwrite i values }
      { n with memory := n.memory.overwrite i values } :=
  htwins.overwrite subset_rfl hfits (fun _ hin hout => absurd hin hout) hbeside

theorem writeWord (htwins : Twins m₀ n₀ stale m n) {addr : PhysAddr} {f : Nat}
    (hplain : m.layout.Plain f) (hpage : addr.page = f) (haligned : addr.word.toNat % 8 = 0)
    (hbeside : f ∉ stale) (value : Word) :
    Action.Alike (fun _ => Twins m₀ n₀ stale) error
      (Machine.writeWord addr value m : EStateM.Result (Failure ε) _ _)
      (Machine.writeWord addr value n) := by
  have habove := hplain.above
  have hbelow := hplain.below
  have hlength : (toLittleEndian 8 value.toNat).length = 8 := length_toLittleEndian _ _
  unfold Addr.page at hpage
  rw [writeWord_eq_ok hplain hpage haligned,
    writeWord_eq_ok (htwins.plain_right hplain) hpage haligned, htwins.layout_eq]
  refine .ok (htwins.overwrite_beside ?_ ?_)
  · rw [hlength]
    change _ ≤ m.layout.size
    omega
  · intro k hk
    rw [hlength] at hk
    rwa [show (m.layout.base + (addr.word.toNat - m.layout.base) + k) / 4096 = f by omega]

theorem copyIn (htwins : Twins m₀ n₀ stale m n) {addr : PhysAddr} {values : List UInt8}
    (hlow : m.layout.base ≤ addr.word.toNat)
    (hstart : addr.word.toNat < m.layout.base + m.layout.size)
    (hhigh : addr.word.toNat + values.length ≤ m.layout.base + m.layout.size)
    (hbeside : ∀ k < values.length, (addr.word.toNat + k) / 4096 ∉ stale) :
    Action.Alike (fun _ => Twins m₀ n₀ stale) error
      (Machine.copyIn addr values m : EStateM.Result (Failure ε) _ _)
      (Machine.copyIn addr values n) := by
  rw [copyIn_eq_ok hlow hstart hhigh,
    copyIn_eq_ok (by rwa [htwins.layout_eq]) (by rwa [htwins.layout_eq])
      (by rwa [htwins.layout_eq]), htwins.layout_eq]
  refine .ok (htwins.overwrite_beside ?_ ?_)
  · change _ ≤ m.layout.size
    omega
  · intro k hk
    rw [show m.layout.base + (addr.word.toNat - m.layout.base) + k = addr.word.toNat + k by omega]
    exact hbeside k hk

/-- Frames that are cleared are stale no longer. -/
theorem zeroFrames (htwins : Twins m₀ n₀ stale m n) (hsound : m.view.Sound) {f : Nat} {count : Word}
    (hsome : 0 < count.toNat) (hplain : ∀ g, f ≤ g → g < f + count.toNat → m.layout.Plain g) :
    Action.Alike (fun _ => Twins m₀ n₀ (stale \ Set.Ico f (f + count.toNat))) error
      (zeroPages (frameBase f) count m : EStateM.Result (Failure ε) _ _)
      (zeroPages (frameBase f) count n) := by
  have hfirst := hplain f (le_refl f) (by omega)
  have hlast := hplain (f + count.toNat - 1) (by omega) (by omega)
  have hstart : (frameBase f).word.toNat = f * 4096 :=
    toNat_frameBase (lt_trans (hfirst.lt hsound.memory) (by decide))
  have hlow : m.layout.base ≤ (frameBase f).word.toNat := by
    rw [hstart]
    exact hfirst.above
  have hhigh : (frameBase f).word.toNat + count.toNat * 4096 ≤ m.layout.base + m.layout.size := by
    have hbelow := hlast.below
    omega
  have hlength : (List.replicate (count.toNat * 4096) (0 : UInt8)).length =
      count.toNat * 4096 :=
    List.length_replicate
  rw [zeroPages_eq_ok hsound hsome hlow hhigh,
    zeroPages_eq_ok (htwins.sound hsound) hsome (by rwa [htwins.layout_eq])
      (by rwa [htwins.layout_eq]), htwins.layout_eq]
  refine .ok (htwins.overwrite Set.sdiff_subset ?_ ?_ ?_)
  · rw [hlength]
    change _ ≤ m.layout.size
    omega
  · intro a hstale hcleared
    rw [hlength]
    have hin : a / 4096 ∈ Set.Ico f (f + count.toNat) :=
      not_not.mp fun hout => hcleared ⟨hstale, hout⟩
    rw [Set.mem_Ico] at hin
    omega
  · rintro k hk ⟨_, hout⟩
    rw [hlength] at hk
    apply hout
    rw [Set.mem_Ico]
    omega

/-! ## Taking frames in both -/

theorem mark (htwins : Twins m₀ n₀ stale m n) {start count : Nat}
    (hrange : start + count ≤ m.frameCount) (cursor : Nat) :
    Twins m₀ n₀ stale
      (m.withAllocator { m.allocator.marked start count true with cursor })
      (n.withAllocator { n.allocator.marked start count true with cursor }) := by
  have hrange' : start + count ≤ n.frameCount := by
    rwa [htwins.rest]
  constructor
  · obtain ⟨hrest, hbase, hsize, hbytes⟩ := htwins.toAgreeBut
    unfold Memory.size at hsize
    generalize n.memory = memory at hrest hbase hsize hbytes
    subst hrest
    cases hhome : m.home with
    | separate storage =>
        simp only [withAllocator, hhome]
        exact ⟨by simp only [allocator, bitmap, hhome, FrameAllocator.marked], hbase, hsize, hbytes⟩
    | resident origin =>
        simp only [withAllocator, hhome, allocator, bitmap, FrameAllocator.marked]
        refine ⟨rfl, hbase, ?_, ?_⟩
        · simp only [Memory.size, Bitmap.size_store_markRange, hsize]
        · intro a ha
          have hbyte := hbytes a ha
          unfold Memory.byteAt at hbyte ⊢
          simp only [hbase] at hbyte ⊢
          split
          next hlow =>
            rw [if_pos hlow, if_pos hlow] at hbyte
            exact FrameAllocator.byteAt_markRange_congr (b := ⟨m.memory.bytes, origin⟩)
              (c := ⟨memory.bytes, origin⟩) rfl hsize hbyte start count true
          next => rfl
  · rw [layout_withAllocator_marked, htwins.layout]
  · exact htwins.plain
  · intro a ha
    rw [byteAt_withAllocator_marked hrange ((htwins.plain_left ha).noBits a rfl), htwins.left a ha]
  · intro a ha
    rw [byteAt_withAllocator_marked hrange'
      ((htwins.plain_right (htwins.plain_left ha)).noBits a rfl), htwins.right a ha]

theorem pushLog (htwins : Twins m₀ n₀ stale m n) (event : LogEvent) :
    Twins m₀ n₀ stale { m with log := m.log.push event } { n with log := n.log.push event } := by
  refine ⟨⟨?_, htwins.base, htwins.size, htwins.bytes⟩, htwins.layout, htwins.plain, htwins.left,
    htwins.right⟩
  rw [htwins.rest]

theorem emit (htwins : Twins m₀ n₀ stale m n) (event : LogEvent) :
    Action.Alike (fun _ => Twins m₀ n₀ stale) error
      (Machine.emit event m : EStateM.Result (Failure ε) _ _) (Machine.emit event n) :=
  .ok (htwins.pushLog event)

theorem invalidate (htwins : Twins m₀ n₀ stale m n) (virt : VirtAddr) :
    Action.Alike (fun _ => Twins m₀ n₀ stale) error
      (Machine.invalidate virt m : EStateM.Result (Failure ε) _ _) (Machine.invalidate virt n) := by
  refine .ok ⟨⟨?_, htwins.base, htwins.size, htwins.bytes⟩, htwins.layout, htwins.plain,
    htwins.left, htwins.right⟩
  rw [htwins.rest]

/-- The frames that are handed out do not depend on what is in any frame. -/
theorem alloc (htwins : Twins m₀ n₀ stale m n) (count : Word) :
    Action.Alike (fun _ => Twins m₀ n₀ stale) (Twins m₀ n₀ stale)
      (Machine.alloc count m) (Machine.alloc count n) := by
  have hcount : n.allocator.frameCount = m.allocator.frameCount := by
    rw [htwins.rest]
    rfl
  have hcursor : n.allocator.cursor = m.allocator.cursor := by
    rw [htwins.rest]
    rfl
  have hfirst : n.allocator.firstFrame = m.allocator.firstFrame := by
    rw [htwins.rest]
    rfl
  have hnext := FrameAllocator.nextRun_congr hcount hcursor (fun _ hbit => htwins.taken_eq hbit)
    count.toNat
  rw [alloc_apply, alloc_apply, FrameAllocator.alloc, FrameAllocator.alloc]
  by_cases hzero : count = 0
  · rw [if_pos hzero, if_pos hzero]
    simp only [withAllocator_allocator]
    exact .error htwins
  · rw [if_neg hzero, if_neg hzero, hnext]
    cases hrun : m.allocator.nextRun count.toNat with
    | none =>
        -- only the cursor moves, which is the marking of no frame at all
        have hmoved : Twins m₀ n₀ stale (m.withAllocator { m.allocator with cursor := 0 })
            (n.withAllocator { n.allocator with cursor := 0 }) :=
          htwins.mark (show 0 + 0 ≤ m.frameCount from Nat.zero_le _) 0
        exact .error (hmoved.pushLog _)
    | some start =>
        have hsome : 0 < count.toNat :=
          Nat.pos_of_ne_zero fun heq => hzero (UInt64.toNat_inj.mp heq)
        have hrange := (FrameAllocator.nextRun_eq_some hsome hrun).1
        simp only [FrameAllocator.frameAddress, hfirst]
        exact .ok ((htwins.mark hrange (start + count.toNat)).pushLog _)

/-! ## Adding a table in both -/

theorem newTable (htwins : Twins m₀ n₀ stale m n) (hsound : m.view.Sound) :
    Action.Alike (fun base => Twins m₀ n₀ (stale \ {base.page}))
      (Twins m₀ n₀ stale) (Machine.newTable m) (Machine.newTable n) := by
  rw [Machine.newTable]
  refine (htwins.alloc 1).mapError.bind ?_
  intro base m₁ n₁ hrun htwins₁
  obtain ⟨f, rfl, hfree, hview⟩ := alloc_eq_ok hsound (Action.mapError_eq_ok hrun)
  have hplain : ∀ g, f ≤ g → g < f + (1 : Word).toNat → m₁.layout.Plain g := by
    intro g hlow hhigh
    rw [show m₁.layout = m.layout from congrArg View.layout hview]
    exact hsound.plain g (hfree ⟨hlow, hhigh⟩)
  have hlt : f < 2 ^ 40 :=
    (hsound.plain f (hfree ⟨le_refl f, Nat.lt_succ_self f⟩)).lt hsound.memory
  have hpage : Set.Ico f (f + (1 : Word).toNat) = {(frameBase f).page} := by
    rw [page_frameBase (lt_trans hlt (by decide))]
    ext g
    change f ≤ g ∧ g < f + 1 ↔ g = f
    omega
  refine (htwins₁.zeroFrames (hview ▸ hsound.take f _) (by decide) hplain).bind ?_
  exact fun _ m₂ n₂ _ htwins₂ => .ok (hpage ▸ htwins₂)

theorem child_of_absent (htwins : Twins m₀ n₀ stale m n) (hsound : m.view.Sound) {table : Nat}
    (htable : m.layout.Plain table) (hbeside : table ∉ stale) (virt : VirtAddr) (level : Nat)
    (habsent : (m.view.entry table (virt.route level)).isPresent = false) :
    Action.Alike (fun base => Twins m₀ n₀ (stale \ {base.page}))
      (Twins m₀ n₀ stale) (child virt true (frameBase table) level m)
      (child virt true (frameBase table) level n) := by
  have hlt := htable.lt hsound.memory
  have haligned : (entryBase table (virt.route level)).word.toNat % 8 = 0 := by
    rw [toNat_entryBase hlt]
    omega
  rw [child_apply hsound htable virt level true,
    child_apply (htwins.sound hsound) (htwins.plain_right htable) virt level true,
    htwins.entry_eq hbeside]
  simp only [habsent, Bool.false_eq_true, if_false, if_true]
  refine (htwins.newTable hsound).bind ?_
  intro base m₁ n₁ _ htwins₁
  have htable₁ : m₁.layout.Plain table := by
    rwa [htwins₁.layout, ← htwins.layout]
  refine (htwins₁.writeWord htable₁ (page_entryBase hlt _) haligned
    (fun hstale => hbeside hstale.1) _).bind ?_
  intro _ m₂ n₂ _ htwins₂
  refine (htwins₂.emit _).bind ?_
  exact fun _ m₃ n₃ _ htwins₃ => .ok htwins₃

end Twins

end Machine

end BootMemory
