import BootMemory.Proofs.LoadEnds
import BootMemory.Proofs.Rehousing
import BootMemory.Proofs.Release

/-!
# Spaces and where the bitmap is kept

Work in a space reads and writes its tables, and it writes in frames that were free.  These are
plain frames, so wherever a space has a sound tree, work in it is blind to where the bitmap is.
-/

namespace BootMemory

namespace Machine

open BootMemory.Action

variable {ε : Type} {m : Machine} {root table depth : Nat} {virt : VirtAddr}

/-! ## Tables -/

theorem blind_newTable (hsound : m.view.Sound) : Blind Rehoused newTable m := by
  refine (blind_alloc 1 m).mapError.bind fun base m₁ halloc => ?_
  obtain ⟨f, rfl, hfree, hview⟩ := alloc_eq_ok hsound (mapError_eq_ok halloc)
  have hplain : m.layout.Plain f := hsound.plain f (hfree ⟨le_refl f, Nat.lt_succ_self f⟩)
  have hlayout : m₁.layout = m.layout := congrArg View.layout hview
  have hbase : (frameBase f).word.toNat = f * 4096 :=
    toNat_frameBase (lt_trans (hplain.lt hsound.memory) (by decide))
  refine (blind_zeroPages fun k hk => ?_).bind fun _ m₂ _ => .pure (frameBase f) m₂
  rw [hlayout, hbase]
  exact hplain.noBits _ (by rw [show (1 : Word).toNat = 1 from rfl] at hk; omega)

theorem blind_newSpace (hsound : m.view.Sound) : Blind Rehoused newSpace m :=
  (blind_newTable hsound).bind fun root m₁ _ =>
    (blind_emit _ m₁).bind fun _ m₂ _ => .pure (⟨root⟩ : AddressSpace) m₂

theorem blind_writeEntry (hlt : table < 2 ^ 40) (htable : m.layout.Plain table) (index : Fin 512)
    (value : Word) :
    Blind Rehoused (writeWord (entryBase table index) value : MachineM ε Unit) m := by
  have hindex := index.isLt
  have haddr := toNat_entryBase hlt index
  have hbelow := htable.below
  apply blind_writeWord
  · omega
  · exact fun k hk => htable.noBits _ (by omega)

theorem blind_child (hsound : m.view.Sound) (htable : m.layout.Plain table) (virt : VirtAddr)
    (allocate : Bool) (level : Nat) :
    Blind Rehoused (child virt allocate (frameBase table) level) m := by
  have hlt := htable.lt hsound.memory
  have hslot : slot (frameBase table) (virt.tableIndex level) =
      .ok (entryBase table (virt.route level)) :=
    slot_frameBase hlt (virt.route level)
  rw [child, hslot]
  refine .of_lift fun entryAddr haddr => ?_
  obtain rfl := Except.ok.inj haddr
  refine (blind_readEntry hsound htable (virt.route level)).bind_run
    (readEntry_run hsound htable (virt.route level)) ?_
  dsimp only
  split
  next =>
    split
    next => exact .fail _ m
    next => exact .pure _ m
  next =>
    split
    next =>
      refine (blind_newTable hsound).bind fun node m₁ hnew => ?_
      have hlayout : m₁.layout = m.layout := by
        rcases newTable_run hsound with ⟨e, m', hfail, _⟩ | ⟨f, m', _, hdone, hview⟩
        · cases hnew.symm.trans hfail
        · cases hnew.symm.trans hdone
          exact congrArg View.layout hview
      refine (blind_writeEntry hlt (hlayout ▸ htable) _ _).bind fun _ m₂ _ => ?_
      exact (blind_emit _ m₂).bind fun _ m₃ _ => .pure node m₃
    next => exact .fail _ m

/-- A step of a walk, if it does not fail, comes to the next table on the route. -/
theorem child_arrives {m' : Machine} {allocate : Bool} {next : PhysAddr} (hsound : m.view.Sound)
    (htree : m.view.Tree root) (hreach : m.view.tableAt root virt.route depth = some table)
    (habove : depth + 1 < m.layout.top)
    (hrun : child virt allocate (frameBase table) (m.layout.top - depth) m = .ok next m') :
    ∃ t, next = frameBase t ∧ View.Grown root m.view m'.view ∧
      m'.view.tableAt root virt.route (depth + 1) = some t := by
  cases allocate with
  | true => exact child_reaches hsound htree hreach habove hrun
  | false =>
      have htable : m.layout.Plain table :=
        htree.plain table (View.mem_tables (Nat.lt_of_succ_lt habove) hreach)
      rcases child_lookup hsound htable virt (m.layout.top - depth) with
        ⟨t, hchild, hsame⟩ | ⟨_, e, hfail⟩
      · cases hrun.symm.trans hsame
        refine ⟨t, rfl, .refl htree, ?_⟩
        rw [View.tableAt, hreach]
        exact hchild
      · cases hrun.symm.trans hfail

theorem blind_walk (hsound : m.view.Sound) (htree : m.view.Tree root) (allocate : Bool)
    {target steps : Nat} (htarget : 1 ≤ target)
    (hreach : m.view.tableAt root virt.route depth = some table)
    (hdepth : depth + steps + target = m.layout.top) :
    Blind Rehoused (walk virt allocate target steps (frameBase table)) m := by
  induction steps generalizing m depth table with
  | zero => exact .pure _ m
  | succ steps ih =>
      have habove : depth + 1 < m.layout.top := by
        omega
      have htable : m.layout.Plain table :=
        htree.plain table (View.mem_tables (Nat.lt_of_succ_lt habove) hreach)
      rw [walk, show target + steps + 1 = m.layout.top - depth by omega]
      refine (blind_child hsound htable virt allocate _).bind fun next m₁ hrun => ?_
      obtain ⟨t, rfl, hgrown, hnext⟩ := child_arrives hsound htree hreach habove hrun
      have hlayout : m₁.layout = m.layout := hgrown.layout
      exact ih (hgrown.sound hsound) hgrown.tree hnext (by rw [hlayout]; omega)

theorem blind_walkTo (hsound : m.view.Sound) (htree : m.view.Tree root) (virt : VirtAddr)
    (target : Nat) (allocate : Bool) :
    Blind Rehoused (walkTo ⟨frameBase root⟩ virt target allocate) m := by
  have hroot : m.view.tableAt root virt.route 0 = some root := rfl
  refine .of_get (fun n hrehoused => ?_) ?_
  · rw [hrehoused.rest]
  · dsimp only
    split
    next hlevel =>
      exact blind_walk hsound htree allocate hlevel.1 hroot
        (show 0 + (m.layout.top - target) + target = m.layout.top from by
          have htop : target ≤ m.layout.top := hlevel.2
          omega)
    next => exact .abort _ m

/-! ## Pages -/

theorem blind_mapPage (hsound : m.view.Sound) (htree : m.view.Tree root) (virt : VirtAddr)
    (phys : PhysAddr) (rights : AccessRights) (size : PageSize) :
    Blind Rehoused (mapPage ⟨frameBase root⟩ virt phys rights size) m := by
  rw [mapPage]
  split
  next => exact .fail _ m
  next =>
    refine (blind_walkTo hsound htree virt.pageFloor 1 true).bind fun next m₁ hrun => ?_
    obtain ⟨_, hextended, hresult⟩ :=
      walkTo_extend hsound htree virt.pageFloor (le_refl 1) m.levels_pos
    rcases hresult with ⟨table, hleaf, hwalk⟩ | ⟨_, hfail⟩
    · cases hrun.symm.trans hwalk
      have hgrown := hextended.grown htree hsound
      have hlayout : m₁.layout = m.layout := hgrown.layout
      rw [← hlayout] at hleaf
      have htable : m₁.layout.Plain table := hgrown.tree.plain table
        (View.mem_tables (Nat.sub_one_lt_of_lt m₁.levels_pos) hleaf)
      have hlt := htable.lt (hgrown.sound hsound).memory
      have hslot : slot (frameBase table) (virt.pageFloor.tableIndex 1) =
          .ok (entryBase table (virt.pageFloor.route 1)) :=
        slot_frameBase hlt (virt.pageFloor.route 1)
      rw [hslot]
      refine .of_lift fun addr haddr => ?_
      cases haddr
      refine (blind_writeEntry hlt htable _ _).bind fun _ m₂ _ => ?_
      exact (blind_invalidate _ m₂).bind fun _ m₃ _ => blind_emit _ m₃
    · cases hrun.symm.trans hfail

theorem blind_leaf (hsound : m.view.Sound) (htree : m.view.Tree root) (virt : VirtAddr) :
    Blind Rehoused (leaf ⟨frameBase root⟩ virt : MachineM ε _) m := by
  refine (blind_walkTo hsound htree virt 1 false).attempt.bind fun found m₁ hrun => ?_
  rcases walkTo_lookup hsound htree virt (le_refl 1) m.levels_pos with
    ⟨table, hreach, hwalk⟩ | ⟨_, e, hwalk⟩
  · cases hrun.symm.trans (attempt_ok hwalk)
    have htable := htree.plain table
      (View.mem_tables (Nat.sub_one_lt_of_lt m.levels_pos) hreach)
    have hslot : slot (frameBase table) (virt.tableIndex 1) =
        .ok (entryBase table (virt.route 1)) :=
      slot_frameBase (htable.lt hsound.memory) (virt.route 1)
    simp only [hslot]
    refine .of_lift fun addr haddr => ?_
    cases haddr
    exact (blind_readEntry hsound htable (virt.route 1)).bind fun _ m₂ _ => .pure _ m₂
  · cases hrun.symm.trans (attempt_error hwalk)
    exact .pure none m

theorem blind_unmapPage (hsound : m.view.Sound) (htree : m.view.Tree root) (virt : VirtAddr) :
    Blind Rehoused (unmapPage ⟨frameBase root⟩ virt : MachineM ε _) m := by
  refine (blind_leaf hsound htree virt.pageFloor).bind_run
    (leaf_run hsound htree virt.pageFloor) ?_
  cases hreach : m.view.tableAt root virt.pageFloor.route (m.layout.top - 1) with
  | none => exact .pure none m
  | some table =>
      have htable := htree.plain table
        (View.mem_tables (Nat.sub_one_lt_of_lt m.levels_pos) hreach)
      simp only [Option.map_some]
      split
      next =>
        refine (blind_writeEntry (htable.lt hsound.memory) htable _ 0).bind fun _ m₁ _ => ?_
        exact (blind_invalidate _ m₁).bind fun _ m₂ _ => .pure _ m₂
      next => exact .pure none m

theorem blind_translate (hsound : m.view.Sound) (htree : m.view.Tree root) (virt : VirtAddr) :
    Blind Rehoused (translate ⟨frameBase root⟩ virt : MachineM ε _) m := by
  refine (blind_leaf hsound htree virt).bind fun found m₁ _ => ?_
  cases found with
  | none => exact .pure none m₁
  | some target =>
      dsimp only
      split
      next => exact .of_lift fun addr _ => .pure _ m₁
      next => exact .pure none m₁

theorem blind_mapPages (hsound : m.view.Sound) (htree : m.view.Tree root) (virt : VirtAddr)
    (phys : PhysAddr) (rights : AccessRights) (count first : Nat) :
    Blind Rehoused (mapPages ⟨frameBase root⟩ virt phys rights count first) m := by
  induction count generalizing m first with
  | zero => exact .pure _ m
  | succ count ih =>
      refine .of_lift fun offset _ => .of_lift fun page _ => .of_lift fun frame _ => ?_
      refine (blind_mapPage hsound htree page frame rights .size4KiB).bind fun _ m₁ hrun => ?_
      rcases mapPage_run hsound htree page frame rights .size4KiB with
        ⟨_, _, m', _, _, hdone, _, hset⟩ | ⟨e, m', hfail, _⟩
      · cases hrun.symm.trans hdone
        exact ih (hset.grown.sound hsound) hset.grown.tree (first + 1)
      · cases hrun.symm.trans hfail

theorem blind_mapRange (hsound : m.view.Sound) (htree : m.view.Tree root) (request : MapRequest)
    (rights : AccessRights) : Blind Rehoused (mapRange ⟨frameBase root⟩ request rights) m := by
  refine .of_lift fun pages _ => ?_
  obtain ⟨m₁, hemit, hview⟩ := emit_run (ε := MapError)
    (.mappingPages pages request.virt.pageFloor request.phys.pageFloor) m
  refine (blind_emit _ m).bind_run hemit ?_
  exact blind_mapPages (hview ▸ hsound) (hview ▸ htree) _ _ rights pages.toNat 0

/-! ## Releases -/

section Releases

variable {v : View} {x : MachineM ε Unit} {y : Unit → MachineM ε Unit} {frames : List Nat}

/-- Wherever some frames of the view were given back already, the action is blind. -/
def BlindGiving (v : View) (x : MachineM ε Unit) : Prop :=
  ∀ given m, (∀ f ∈ given, f ∈ v.layout.tracked → v.layout.Plain f) → m.view = v.give given →
    Blind Rehoused x m

theorem BlindGiving.andThen (hx : BlindGiving v x) (hrun : Releases v x frames)
    (hbits : ∀ f ∈ frames, f ∈ v.layout.tracked → v.layout.Plain f)
    (hy : BlindGiving v (y ⟨⟩)) : BlindGiving v (x >>= y) := by
  intro given m hgiven hview
  obtain ⟨m₁, hdone, hview₁, _⟩ := hrun given m hgiven hview
  refine (hx given m hgiven hview).bind_run hdone (hy _ m₁ ?_ hview₁)
  rintro f (hf | hf)
  · exact hgiven f hf
  · exact hbits f hf

theorem blindGiving_forM {α : Type} {x : α → MachineM ε Unit} {frames : α → List Nat}
    (items : List α) (hx : ∀ i ∈ items, BlindGiving v (x i))
    (hrun : ∀ i ∈ items, Releases v (x i) (frames i))
    (hbits : ∀ i ∈ items, ∀ f ∈ frames i, f ∈ v.layout.tracked → v.layout.Plain f) :
    BlindGiving v (items.forM x) := by
  induction items with
  | nil => exact fun _ m _ _ => .pure _ m
  | cons i rest ih =>
      apply (hx i List.mem_cons_self).andThen (hrun i List.mem_cons_self)
      · exact hbits i List.mem_cons_self
      · exact ih (fun k hk => hx k (List.mem_cons_of_mem i hk))
          (fun k hk => hrun k (List.mem_cons_of_mem i hk))
          (fun k hk => hbits k (List.mem_cons_of_mem i hk))

/-- The entries are read as they were when the release began. -/
theorem blindGiving_entry (hsound : v.Sound) {level : Nat} (htable : v.layout.Plain table)
    (index : Fin 512)
    (hlower : ∀ lower, lower < 2 ^ 40 → v.next table index = some lower →
      BlindGiving v (releaseTree (ε := ε) level (frameBase lower))) :
    BlindGiving v (do
      let entry : TableEntry := ⟨← readWord (← slot (frameBase table) index)⟩
      if entry.isPresent then releaseTree (ε := ε) level entry.address) := by
  intro given m hgiven hview
  have hsound' : m.view.Sound := hview ▸ hsound.give hgiven
  have htable' : m.layout.Plain table := by
    rwa [show m.layout = v.layout from congrArg View.layout hview]
  have hentry : m.view.entry table index = v.entry table index := by
    rw [hview]
    rfl
  have hslot : slot (frameBase table) index = .ok (entryBase table index) :=
    slot_frameBase (htable.lt hsound.memory) index
  have hread := readEntry_run (ε := ε) hsound' htable' index
  rw [hslot]
  refine .of_lift fun addr haddr => ?_
  obtain rfl := Except.ok.inj haddr
  refine (blind_readEntry hsound' htable' index).bind_run hread ?_
  rw [hentry]
  dsimp only
  split
  next hpresent =>
    rw [TableEntry.address_eq_frameBase]
    exact hlower _ (TableEntry.frame_lt _) (if_pos hpresent) given m hgiven hview
  next => exact .pure _ m

theorem blindGiving_tree (hsound : v.Sound) {level : Nat} (hlt : table < 2 ^ 40)
    (hreleasable : v.Releasable level table) :
    BlindGiving v (releaseTree (ε := ε) level (frameBase table)) := by
  induction level using Nat.strong_induction_on generalizing table with
  | _ level ih =>
      match level with
      | 0 => exact fun _ m _ _ => blind_free _ 1 m
      | 1 => exact fun _ m _ _ => blind_free _ 1 m
      | level + 2 =>
          have htable : v.layout.Plain table := hreleasable.reads [] table (Nat.succ_lt_succ
            (Nat.succ_pos level)) rfl
          have hentries : ∀ index ∈ List.finRange 512, Releases (ε := ε) v _ _ :=
            fun index _ => releases_entry hsound htable index fun lower hlower hnext =>
              releases_tree hsound hlower (hreleasable.below hnext)
          have hbits : ∀ index ∈ List.finRange 512, ∀ f ∈ v.below (level + 1) table index,
              f ∈ v.layout.tracked → v.layout.Plain f :=
            fun _ _ _ => hreleasable.bits_below
          rw [releaseTree_succ]
          apply BlindGiving.andThen
          · refine blindGiving_forM _ (fun index _ => ?_) hentries hbits
            exact blindGiving_entry hsound htable index fun lower hlower hnext =>
              ih (level + 1) (Nat.lt_succ_self _) hlower (hreleasable.below hnext)
          · exact releases_forM _ hentries hbits
          · intro f hf
            obtain ⟨index, hindex, hf⟩ := List.mem_flatMap.mp hf
            exact hbits index hindex f hf
          · exact fun _ m _ _ => blind_free _ 1 m

theorem blind_releaseSpace (hsound : m.view.Sound) (htree : m.view.Tree root)
    (hsmall : m.view.AllSmall root) :
    Blind Rehoused (releaseSpace ⟨frameBase root⟩ : MachineM ε Unit) m := by
  have hlt := (htree.plain root (m.view.root_mem_tables root)).lt hsound.memory
  refine .of_get (fun n hrehoused => ?_) ?_
  · rw [hrehoused.rest]
  · dsimp only
    split
    next => exact .abort _ m
    next =>
      exact blindGiving_tree hsound hlt (htree.releasable hsmall) ∅ m (by simp)
        (View.give_empty m.view).symm

end Releases

/-! ## Images -/

section Images

variable {file : ByteArray} {h : Elf.ProgramHeader} {s : Segment}

theorem blind_fillFrames {f : Nat} {count : Word} (offset : Word) (contents : List UInt8)
    (hsound : m.view.Sound) (hfits : offset.toNat + contents.length ≤ count.toNat * 4096)
    (hstart : offset.toNat < count.toNat * 4096)
    (hplain : ∀ g, f ≤ g → g < f + count.toNat → m.layout.Plain g) :
    Blind Rehoused (do
      zeroPages (frameBase f) count
      copyIn (← (frameBase f).add offset) contents : MachineM MapError Unit) m := by
  have hlt : f < 2 ^ 40 := (hplain f (le_refl f) (by omega)).lt hsound.memory
  have hbelow := (hplain (f + offset.toNat / 4096) (by omega) (by omega)).lt hsound.memory
  have hbase : (frameBase f).word.toNat = f * 4096 := toNat_frameBase (lt_trans hlt (by decide))
  obtain ⟨hadd, haddr⟩ := add_frameBase hlt (show offset.toNat < 2 ^ 52 by omega)
  obtain ⟨m₁, hzero, hview⟩ := zeroFrames_plain (ε := MapError) hsound (by omega) hplain
  have hlayout : m₁.layout = m.layout := congrArg View.layout hview
  refine (blind_zeroPages fun k hk => ?_).bind_run hzero ?_
  · rw [hbase]
    exact (hplain ((f * 4096 + k) / 4096) (by omega) (by omega)).noBits _ rfl
  · rw [hadd]
    refine .of_lift fun addr hsum => ?_
    obtain rfl := Except.ok.inj hsum
    refine blind_copyIn fun k hk => ?_
    rw [hlayout, haddr]
    exact (hplain ((f * 4096 + offset.toNat + k) / 4096) (by omega) (by omega)).noBits _ rfl

theorem blind_placeSegment (hsound : m.view.Sound) (htree : m.view.Tree root)
    (hdescribes : h.Describes file s) :
    Blind Rehoused (placeSegment ⟨frameBase root⟩ s) m := by
  obtain ⟨length, pages, hpages, hcount, hplace⟩ := placeSegment_eq hdescribes
  rw [hplace]
  refine (blind_alloc pages m).mapError.bind fun frames m₁ halloc => ?_
  obtain ⟨f, rfl, hfree, hview₁⟩ := alloc_eq_ok hsound (mapError_eq_ok halloc)
  rw [hcount] at hfree hview₁
  obtain ⟨m₂, hemit, hview₂⟩ := emit_run (ε := MapError)
    (.loadingSegment s.index s.virt s.memorySize (frameBase f) s.rights) m₁
  have hview := hview₂.trans hview₁
  refine (blind_emit _ m₁).bind_run hemit ?_
  refine (blind_mapRange (hview ▸ hsound.take f _) (hview ▸ htree.take f _) _ s.rights).bind
    fun _ m₃ hmap => ?_
  obtain ⟨k, m₄, hmapped, _, hresult⟩ :=
    mapPart_run hsound htree hdescribes hpages hcount hfree hview
  rcases hresult with ⟨rfl, hdone⟩ | ⟨failure, hfail⟩
  · cases hmap.symm.trans hdone
    obtain ⟨hfits, hstart⟩ := hdescribes.fill_fits hcount
    apply blind_fillFrames _ _ (hmapped.grown.sound (hsound.take f h.pageCount)) hfits hstart
    exact fun g hlow hhigh => hmapped.plain hsound ⟨hlow, hcount ▸ hhigh⟩
  · cases hmap.symm.trans hfail

theorem blind_placeSegments {headers : List Elf.ProgramHeader} {segments : List Segment}
    (hall : List.Forall₂ (fun h s => h.Describes file s) headers segments)
    (hsound : m.view.Sound) (htree : m.view.Tree root) :
    Blind Rehoused (segments.forM fun s =>
      Action.mapError LoadError.unmappable (placeSegment ⟨frameBase root⟩ s)) m := by
  induction hall generalizing m with
  | nil => exact .pure _ m
  | cons hdescribes _ ih =>
      refine (blind_placeSegment hsound htree hdescribes).mapError.bind fun _ m₁ hrun => ?_
      obtain ⟨f, hplaced⟩ := placeSegment_eq_ok hsound htree hdescribes (mapError_eq_ok hrun)
      exact ih (hplaced.confined.sound hsound) hplaced.tree

theorem blind_load (hsound : m.view.Sound) (htree : m.view.Tree root) (parse : Elf.Parser)
    (file : ByteArray) : Blind Rehoused (load parse ⟨frameBase root⟩ file) m := by
  rw [load]
  cases himage : Executable.ofImage parse file with
  | error e =>
      rw [loadBy_of_ofImage_error _ himage]
      exact .fail _ m
  | ok image =>
      obtain ⟨_, _, _, hall, hplaces⟩ := loadBy_of_ofImage_ok himage
      rw [hplaces]
      exact (blind_placeSegments hall hsound htree).bind fun _ m₁ _ => .pure image.entry m₁

end Images

end Machine

end BootMemory
