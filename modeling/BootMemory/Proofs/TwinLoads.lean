import BootMemory.Proofs.Loading
import BootMemory.Proofs.TwinSpaces

/-!
# Loading on two machines

A part is mapped before its frames are cleared.  On two machines that differ in stale frames alone
the parts of an image are placed alike, and their frames are stale no longer.  Where a load stops
while it maps a part, it does so at the same page on both, and the frames of the pages before it are
still stale.
-/

namespace BootMemory

open Elf (ProgramHeader)

/-- The first `k` pages of a part lead to frames that were free and have not been written. -/
structure Torn (root : Nat) (h : ProgramHeader) (f k : Nat) (v w : View) : Prop where
  bound : k ≤ h.pageCount
  frames : Set.Ico f (f + k) ⊆ v.free
  apart : ∀ g ∈ Set.Ico f (f + k), g ∉ w.tables root
  moved : ∀ virt : VirtAddr, virt.page ∈ h.firstPages k → w.lookup root virt.route =
    some (frameBase (f + (virt.page - h.virtualAddress / 4096)), h.entryFlags)
  unmoved : ∀ virt : VirtAddr, virt.page ∈ canonicalPages → virt.page ∉ h.firstPages k →
    w.lookup root virt.route = v.lookup root virt.route

theorem Torn.none {root f : Nat} {h : ProgramHeader} {v : View} : Torn root h f 0 v v where
  bound := Nat.zero_le _
  frames := by simp
  apart := by simp
  moved := by simp [ProgramHeader.firstPages]
  unmoved := fun _ _ _ => rfl

theorem PartMapped.torn {root f k : Nat} {h : ProgramHeader} {v w : View}
    (hmapped : PartMapped root h f k v w) (htree : v.Tree root) : Torn root h f k v w := by
  have hsubset : Set.Ico f (f + k) ⊆ h.frames f :=
    Set.Ico_subset_Ico_right (Nat.add_le_add_left hmapped.bound f)
  exact ⟨hmapped.bound, hsubset.trans hmapped.frames,
    fun g hg => hmapped.not_mem_tables htree (hsubset hg), hmapped.moved, hmapped.unmoved⟩

def placedFrames (placed : List (ProgramHeader × Nat)) : Set Nat :=
  {g | ∃ part ∈ placed, g ∈ part.1.frames part.2}

theorem placedFrames_cons (h : ProgramHeader) (f : Nat) (placed : List (ProgramHeader × Nat)) :
    placedFrames ((h, f) :: placed) = h.frames f ∪ placedFrames placed := by
  ext g
  simp [placedFrames]

/-- The headers of the parts that a load of the file puts into memory. -/
def Elf.parts (parse : Parser) (file : ByteArray) : List ProgramHeader :=
  match parse file with
  | .ok parsed => parsed.loadable
  | .error _ => []

namespace Machine

section Placing

variable {frames stale : Set Nat} {root : Nat} {m₀ n₀ m n m₁ n₁ : Machine}
  {error : Machine → Machine → Prop} {file : ByteArray} {h : ProgramHeader} {s : Segment}

theorem Twins.fillFrames (htwins : Twins m₀ n₀ stale m n) {f : Nat} {count : Word} (offset : Word)
    (contents : List UInt8) (hsound : m.view.Sound)
    (hfits : offset.toNat + contents.length ≤ count.toNat * 4096)
    (hstart : offset.toNat < count.toNat * 4096)
    (hplain : ∀ g, f ≤ g → g < f + count.toNat → m.layout.Plain g) :
    Action.Alike (fun _ => Twins m₀ n₀ (stale \ Set.Ico f (f + count.toNat))) error
      ((do
        zeroPages (frameBase f) count
        Machine.copyIn (← (frameBase f).add offset) contents : MachineM MapError Unit) m)
      ((do
        zeroPages (frameBase f) count
        Machine.copyIn (← (frameBase f).add offset) contents : MachineM MapError Unit) n) := by
  have hroom : f * 4096 + offset.toNat + contents.length ≤ (f + count.toNat - 1) * 4096 + 4096 := by
    omega
  have hinside : f * 4096 + offset.toNat < (f + count.toNat - 1) * 4096 + 4096 := by
    omega
  have hfirst := hplain f (le_refl f) (by omega)
  have hlast := hplain (f + count.toNat - 1) (by omega) (by omega)
  have hlt : f < 2 ^ 40 := hfirst.lt hsound.memory
  have hbelow := hlast.lt hsound.memory
  have hlow : m.layout.base ≤ f * 4096 + offset.toNat := hfirst.above.trans (Nat.le_add_right _ _)
  obtain ⟨hadd, haddr⟩ := add_frameBase hlt (show offset.toNat < 2 ^ 52 by omega)
  refine (htwins.zeroFrames hsound (by omega) hplain).bind ?_
  intro _ m₁ n₁ _ htwins₁
  have hlayout : m₁.layout = m.layout := htwins₁.layout.trans htwins.layout.symm
  rw [hadd, Action.bind_ok (Action.lift_ok _ m₁), Action.bind_ok (Action.lift_ok _ n₁)]
  apply htwins₁.copyIn
  · rwa [hlayout, haddr]
  · rw [hlayout, haddr]
    exact hinside.trans_le hlast.below
  · rw [hlayout, haddr]
    exact hroom.trans hlast.below
  · rintro k hk ⟨_, hout⟩
    rw [haddr] at hout
    exact hout (Set.mem_Ico.mpr (by omega))

namespace SpaceTwins

/-- Mapping a part goes on to the end on both machines, or its first pages are torn on both. -/
theorem mapPart {f : Nat} {length pages : Word} (htwins : SpaceTwins frames root m₀ n₀ m n)
    (hdescribes : h.Describes file s) (hpages : Word.pageCount length = .ok pages)
    (hcount : pages.toNat = h.pageCount) (hfree : h.frames f ⊆ m.view.free)
    (hview : m₁.view = m.view.take f h.pageCount)
    (htwins₁ : SpaceTwins frames root m₀ n₀ m₁ n₁) :
    Action.Alike
      (fun _ m' n' => PartMapped root h f h.pageCount m.view m'.view ∧
        SpaceTwins frames root m₀ n₀ m' n')
      (fun m' n' => SpaceTwins frames root m₀ n₀ m' n' ∧ ∃ f k, Torn root h f k m.view m'.view)
      (Machine.mapRange ⟨frameBase root⟩ ⟨s.virt.pageFloor, frameBase f, length⟩ s.rights m₁)
      (Machine.mapRange ⟨frameBase root⟩ ⟨s.virt.pageFloor, frameBase f, length⟩ s.rights n₁) := by
  obtain ⟨k, m₂, hmapped, _, hresult⟩ :=
    mapPart_run htwins.sound htwins.tree hdescribes hpages hcount hfree hview
  refine (htwins₁.mapRange _ s.rights).mono ?_ ?_
  · intro _ m' n' hrun hnext
    rcases hresult with ⟨rfl, hmap⟩ | ⟨_, hfail⟩
    · cases hrun.symm.trans hmap
      exact ⟨hmapped, hnext⟩
    · cases hrun.symm.trans hfail
  · intro _ m' n' hrun hnext
    rcases hresult with ⟨_, hmap⟩ | ⟨_, hfail⟩
    · cases hrun.symm.trans hmap
    · cases hrun.symm.trans hfail
      exact ⟨hnext, f, k, hmapped.torn htwins.tree⟩

theorem fillPart {f : Nat} {pages : Word} (htwins : SpaceTwins frames root m₀ n₀ m n)
    (hdescribes : h.Describes file s) (hcount : pages.toNat = h.pageCount)
    (hmapped : PartMapped root h f h.pageCount m.view m₁.view)
    (htwins₁ : SpaceTwins frames root m₀ n₀ m₁ n₁) :
    Action.Alike
      (fun _ m' n' => ∃ f, Placed root file h f m.view m'.view ∧
        SpaceTwins (frames \ h.frames f) root m₀ n₀ m' n') error
      ((do
        zeroPages (frameBase f) pages
        copyIn (← (frameBase f).add s.virt.pageOffset) s.contents : MachineM MapError Unit) m₁)
      ((do
        zeroPages (frameBase f) pages
        copyIn (← (frameBase f).add s.virt.pageOffset) s.contents : MachineM MapError Unit)
        n₁) := by
  obtain ⟨hfits, hstart⟩ := hdescribes.fill_fits hcount
  have hplain : ∀ g, f ≤ g → g < f + pages.toNat → m₁.layout.Plain g :=
    fun g hlow hhigh => hmapped.plain htwins.sound ⟨hlow, hcount ▸ hhigh⟩
  obtain ⟨m₂, hfill, hview⟩ := fillPart_run htwins.sound hdescribes hcount hmapped
  have hplaced : Placed root file h f m.view m₂.view :=
    hview ▸ hmapped.placed htwins.tree hdescribes
  refine (htwins₁.twins.fillFrames s.virt.pageOffset s.contents htwins₁.sound hfits hstart
    hplain).mono ?_ fun _ _ _ _ => id
  intro _ m' n' hrun hnext
  cases hrun.symm.trans hfill
  refine ⟨f, hplaced, ?_, hplaced.tree, ?_, ?_⟩
  · exact hplaced.confined.sound htwins.sound
  · exact fun g hg => ⟨htwins.free (hplaced.free hg).1, (hplaced.free hg).2⟩
  · rw [hcount] at hnext
    rwa [hview, (hmapped.sameTables_fill htwins.tree hdescribes).tables_eq, Set.sdiff_sdiff_comm]

/-- Either all pages of a part are mapped and its frames are filled, or the first of its pages are
torn.  Which of these happens does not depend on stale frames. -/
theorem placeSegment (htwins : SpaceTwins frames root m₀ n₀ m n)
    (hdescribes : h.Describes file s) :
    Action.Alike
      (fun _ m' n' => ∃ f, Placed root file h f m.view m'.view ∧
        SpaceTwins (frames \ h.frames f) root m₀ n₀ m' n')
      (fun m' n' => SpaceTwins frames root m₀ n₀ m' n' ∧ ∃ f k, Torn root h f k m.view m'.view)
      (Machine.placeSegment ⟨frameBase root⟩ s m) (Machine.placeSegment ⟨frameBase root⟩ s n) := by
  obtain ⟨length, pages, hpages, hcount, hplace⟩ := placeSegment_eq hdescribes
  rw [hplace]
  have halloc := (htwins.alloc pages).mono (fun _ _ _ _ => id) fun _ m₁ n₁ _ ⟨hview, hnext⟩ =>
    show SpaceTwins frames root m₀ n₀ m₁ n₁ ∧ ∃ f k, Torn root h f k m.view m₁.view from
      ⟨hnext, 0, 0, hview ▸ .none⟩
  refine halloc.mapError.bind ?_
  rintro _ m₁ n₁ _ ⟨f, rfl, hfree, hview₁, htwins₁⟩
  rw [hcount] at hfree hview₁
  refine (htwins₁.emit _).bind ?_
  rintro _ m₂ n₂ ⟨⟩ htwins₂
  have hview₂ := (view_pushLog m₁ (.loadingSegment s.index s.virt s.memorySize (frameBase f)
    s.rights)).trans hview₁
  refine (htwins.mapPart hdescribes hpages hcount hfree hview₂ htwins₂).bind ?_
  rintro _ m₃ n₃ _ ⟨hmapped, htwins₃⟩
  exact htwins.fillPart hdescribes hcount hmapped htwins₃

end SpaceTwins

end Placing

/-! ## Loading in both -/

theorem SpaceTwins.start {root : Nat} {m n : Machine} (hsound : m.view.Sound)
    (htree : m.view.Tree root) (hagree : m.AgreeBut m.allocator.freeFrames n) :
    SpaceTwins m.view.free root m n m n := by
  have hdisjoint : m.view.free \ m.view.tables root = m.view.free :=
    sdiff_eq_left.mpr (Set.disjoint_left.mpr fun t hfree ht => htree.taken t ht hfree)
  refine ⟨hsound, htree, subset_rfl, ?_⟩
  rw [hdisjoint]
  exact .start hagree hsound.plain

/-- How far a load came on both machines: some parts were placed, and the first `k` pages of one
more part are torn. -/
structure CameTo (frames : Set Nat) (root : Nat) (file : ByteArray) (m₀ n₀ : Machine) (v : View)
    (placed : List (ProgramHeader × Nat)) (h : ProgramHeader) (k : Nat) (m n : Machine) : Prop where
  twins : SpaceTwins (frames \ placedFrames placed) root m₀ n₀ m n
  parts : ∃ mid f, Loaded root file placed v mid ∧ mid.free ⊆ frames \ placedFrames placed ∧
    Torn root h f k mid m.view
  canonical : ∀ part ∈ placed, part.1.pages ⊆ canonicalPages

section Loading

variable {frames : Set Nat} {root f k : Nat} {m₀ n₀ m n m' n' : Machine} {file : ByteArray}
  {h torn : ProgramHeader} {placed : List (ProgramHeader × Nat)} {u v : View}

theorem CameTo.start (htwins : SpaceTwins frames root m₀ n₀ m n) (htree : v.Tree root)
    (hfree : v.free ⊆ frames) (htorn : Torn root h f k v m.view) :
    CameTo frames root file m₀ n₀ v [] h k m n := by
  have hnone : frames \ placedFrames [] = frames := by
    simp [placedFrames]
  refine ⟨hnone.symm ▸ htwins, ⟨v, f, .nil htree, ?_, htorn⟩, fun _ hpart => nomatch hpart⟩
  rwa [hnone]

theorem CameTo.cons (htree : u.Tree root) (hcanonical : h.pages ⊆ canonicalPages)
    (hplaced : Placed root file h f u v)
    (hrest : CameTo (frames \ h.frames f) root file m₀ n₀ v placed torn k m n) :
    CameTo frames root file m₀ n₀ u ((h, f) :: placed) torn k m n := by
  have hframes : frames \ placedFrames ((h, f) :: placed) =
      (frames \ h.frames f) \ placedFrames placed := by
    rw [placedFrames_cons, Set.sdiff_sdiff]
  obtain ⟨mid, g, hloaded, hfree, htorn⟩ := hrest.parts
  refine ⟨hframes ▸ hrest.twins,
    ⟨mid, g, .cons htree hcanonical hplaced hloaded, ?_, htorn⟩, ?_⟩
  · rwa [hframes]
  · exact List.forall_mem_cons.mpr ⟨hcanonical, hrest.canonical⟩

/-- Parts are placed one after the other alike, until there are no more or one of them is torn. -/
theorem SpaceTwins.placeSegments {headers : List ProgramHeader} {segments : List Segment}
    (hall : List.Forall₂ (fun h s => h.Describes file s) headers segments)
    (htwins : SpaceTwins frames root m₀ n₀ m n) :
    Action.Alike
      (fun _ m' n' => ∃ placed : List (ProgramHeader × Nat), placed.map Prod.fst = headers ∧
        ∀ h, CameTo frames root file m₀ n₀ m.view placed h 0 m' n')
      (fun m' n' => ∃ (placed : List (ProgramHeader × Nat)) (h : ProgramHeader) (k : Nat),
        placed.map Prod.fst ++ [h] <+: headers ∧
          CameTo frames root file m₀ n₀ m.view placed h k m' n')
      ((segments.forM fun s =>
        Action.mapError LoadError.unmappable (Machine.placeSegment ⟨frameBase root⟩ s)) m)
      ((segments.forM fun s =>
        Action.mapError LoadError.unmappable (Machine.placeSegment ⟨frameBase root⟩ s)) n) := by
  induction hall generalizing frames m n with
  | nil =>
      exact .ok ⟨[], rfl, fun h => .start htwins htwins.tree htwins.free
        (.none : Torn root h 0 0 _ _)⟩
  | @cons h s headers segments hdescribes _ ih =>
      have hcanonical : h.pages ⊆ canonicalPages := fun p hp => hdescribes.canonical hp
      have hfirst := (htwins.placeSegment hdescribes).mono (fun _ _ _ _ => id)
        fun _ m' n' _ ⟨hnext, f, k, htorn⟩ =>
          show ∃ (placed : List (ProgramHeader × Nat)) (g : ProgramHeader) (k : Nat),
              placed.map Prod.fst ++ [g] <+: h :: headers ∧
                CameTo frames root file m₀ n₀ m.view placed g k m' n' from
            ⟨[], h, k, List.prefix_append [h] headers,
              .start hnext htwins.tree htwins.free htorn⟩
      refine hfirst.mapError.bind ?_
      rintro _ m₁ n₁ _ ⟨f, hplaced, htwins₁⟩
      refine (ih htwins₁).mono ?_ ?_
      · rintro _ m' n' _ ⟨placed, rfl, hcame⟩
        exact ⟨(h, f) :: placed, rfl, fun g => .cons htwins.tree hcanonical hplaced (hcame g)⟩
      · rintro _ m' n' _ ⟨placed, g, k, hbegins, hcame⟩
        exact ⟨(h, f) :: placed, g, k, List.cons_prefix_cons.mpr ⟨rfl, hbegins⟩,
          .cons htwins.tree hcanonical hplaced hcame⟩

theorem SpaceTwins.load (htwins : SpaceTwins frames root m₀ n₀ m n) (parse : Elf.Parser)
    (file : ByteArray) :
    Action.Alike
      (fun _ m' n' => ∃ placed : List (ProgramHeader × Nat),
        placed.map Prod.fst = Elf.parts parse file ∧
          ∀ h, CameTo frames root file m₀ n₀ m.view placed h 0 m' n')
      (fun m' n' => m' = m ∧ n' = n ∨
        ∃ (placed : List (ProgramHeader × Nat)) (h : ProgramHeader) (k : Nat),
          placed.map Prod.fst ++ [h] <+: Elf.parts parse file ∧
            CameTo frames root file m₀ n₀ m.view placed h k m' n')
      (Machine.load parse ⟨frameBase root⟩ file m)
      (Machine.load parse ⟨frameBase root⟩ file n) := by
  cases himage : Executable.ofImage parse file with
  | error e =>
      rw [Machine.load, loadBy_of_ofImage_error _ himage]
      exact .error (.inl ⟨rfl, rfl⟩)
  | ok image =>
      obtain ⟨parsed, _, hparse, hall, hplaces⟩ := loadBy_of_ofImage_ok himage
      have hparts : Elf.parts parse file = parsed.loadable := by
        rw [Elf.parts, hparse]
      rw [Machine.load, hplaces, hparts]
      refine ((htwins.placeSegments hall).mono (fun _ _ _ _ => id)
        fun _ _ _ _ => Or.inr).bind ?_
      exact fun _ m' n' _ hplaced => .ok hplaced

end Loading

end Machine

end BootMemory
