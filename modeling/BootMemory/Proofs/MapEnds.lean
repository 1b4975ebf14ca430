import BootMemory.Proofs.NextFit
import BootMemory.Proofs.SpaceMaps

/-!
# How mapping a page ends

A page is mapped if there is a frame for each table that is missing on its path, and exactly those
frames are taken.  If there are fewer, all that are left become tables on the path, and no page is
moved.  A large page on the way, or a page size that is not supported, ends the mapping before
anything is changed.
-/

namespace BootMemory

theorem FrameAllocator.freeCount_eq_ncard (a : FrameAllocator) :
    a.freeCount = a.freeFrames.ncard := by
  have hframes : a.freeFrames =
      ↑((freeBits a.taken 0 a.frameCount).map (a.first + ·)).toFinset := by
    ext f
    rw [Finset.mem_coe, List.mem_toFinset, mem_map_freeBits, Nat.add_zero]
    rfl
  have hnodup : ((freeBits a.taken 0 a.frameCount).map (a.first + ·)).Nodup :=
    (pairwise_map_freeBits 0 a.frameCount).imp ne_of_lt
  rw [hframes, Set.ncard_coe_finset, List.toFinset_card_of_nodup hnodup, List.length_map,
    freeCount_eq_length]

theorem Machine.freeCount_eq_ncard (m : Machine) : m.freeCount = m.view.free.ncard :=
  m.allocator.freeCount_eq_ncard

theorem Machine.finite_free (m : Machine) : m.view.free.Finite :=
  (Set.finite_Ico _ _).subset fun _ hf => hf.1

namespace View

/-- How many tables are missing on the path of a route. -/
def missing (v : View) (root : Nat) (route : Route) : Nat :=
  v.layout.top - (v.pathTables root route).length

/-- The spaces with the roots in `roots` are trees that have no table in common. -/
structure Housed (v : View) (roots : Set Nat) : Prop where
  sound : v.Sound
  tree : ∀ root ∈ roots, v.Tree root
  apart : ∀ root ∈ roots, ∀ other ∈ roots, root ≠ other →
    Disjoint (v.tables root) (v.tables other)

section Housed

variable {v w : View} {roots : Set Nat} {root other : Nat}

theorem Housed.singleton (hsound : v.Sound) (htree : v.Tree root) : v.Housed {root} where
  sound := hsound
  tree := by
    rintro other rfl
    exact htree
  apart := by
    rintro one rfl other rfl hne
    exact absurd rfl hne

theorem Housed.sameTables (hhoused : v.Housed roots) (hroot : root ∈ roots)
    (hgrown : Grown root v w) (hother : other ∈ roots) (hne : root ≠ other) :
    SameTables v w other :=
  hgrown.sameTables (hhoused.tree other hother) (hhoused.apart root hroot other hother hne)

theorem Housed.grown (hhoused : v.Housed roots) (hroot : root ∈ roots)
    (hgrown : Grown root v w) : w.Housed roots where
  sound := hgrown.sound hhoused.sound
  tree := by
    intro other hother
    by_cases heq : root = other
    · exact heq ▸ hgrown.tree
    · exact (hhoused.sameTables hroot hgrown hother heq).tree (hhoused.tree other hother)
        fun t ht hin => (hhoused.tree other hother).taken t ht (hgrown.free hin)
  apart := by
    have hroot_other : ∀ other ∈ roots, root ≠ other →
        Disjoint (w.tables root) (w.tables other) := fun other hother hne =>
      hgrown.confined.disjoint_other (hhoused.tree other hother)
        (hhoused.apart root hroot other hother hne)
    intro one hone other hother hne
    by_cases hfirst : root = one
    · exact hfirst ▸ hroot_other other hother (hfirst ▸ hne)
    · by_cases hlast : root = other
      · exact hlast ▸ (hroot_other one hone hfirst).symm
      · rw [(hhoused.sameTables hroot hgrown hone hfirst).tables_eq,
          (hhoused.sameTables hroot hgrown hother hlast).tables_eq]
        exact hhoused.apart one hone other hother hne

theorem Owned.housed {owners : Nat → Option Nat} {held : Set Nat} {maps : Nat → PageMap}
    (howned : v.Owned owners held maps) : v.Housed {root | ∃ slot, owners slot = some root} where
  sound := howned.sound
  tree := by
    rintro root ⟨slot, hslot⟩
    exact howned.tree slot root hslot
  apart := by
    rintro root ⟨slot, hslot⟩ other ⟨slot', hslot'⟩ hne
    apply howned.apart slot slot' root other hslot hslot'
    rintro rfl
    exact hne (Option.some.inj (hslot.symm.trans hslot'))

end Housed

section PathGrown

variable {v w : View} {root : Nat} {route : Route} {nodes : List Nat}

/-- Each table that was linked has cost one frame. -/
theorem PathGrown.ncard_free (hpath : PathGrown root route nodes v w) (hfinite : v.free.Finite) :
    w.free.ncard + nodes.length = v.free.ncard := by
  have hsubset : (↑nodes.toFinset : Set Nat) ⊆ v.free := by
    intro t ht
    exact hpath.fresh t (List.mem_toFinset.mp (Finset.mem_coe.mp ht))
  have hfree : w.free = v.free \ ↑nodes.toFinset := by
    rw [hpath.free, List.coe_toFinset]
  have hcard : (↑nodes.toFinset : Set Nat).ncard = nodes.length := by
    rw [Set.ncard_coe_finset, List.toFinset_card_of_nodup hpath.nodup]
  rw [hfree, ← hcard]
  exact Set.ncard_sdiff_add_ncard_of_subset hsubset hfinite

theorem PathGrown.length_path (hpath : PathGrown root route nodes v w) :
    (w.pathTables root route).length = (v.pathTables root route).length + nodes.length := by
  rw [hpath.path, List.length_append]

/-- Writing a leaf entry and dropping its page changes no path. -/
theorem PathGrown.setLeaf {table : Nat} {page : VirtAddr}
    (hpath : PathGrown root route nodes v w) (htree : w.Tree root)
    (hleaf : w.tableAt root page.route (w.layout.top - 1) = some table) (e : TableEntry) :
    PathGrown root route nodes v ((w.setEntry table (page.route 1) e).invalidate page) := by
  have hsame : SameTables (w.setEntry table (page.route 1) e)
      ((w.setEntry table (page.route 1) e).invalidate page) root :=
    .of_bytes rfl (fun _ _ => rfl)
  have hreach : ∀ q d, d < w.layout.top →
      ((w.setEntry table (page.route 1) e).invalidate page).tableAt root q d =
        w.tableAt root q d := by
    intro q d hd
    rw [hsame.tableAt_eq q hd, tableAt_setLeaf htree hleaf (page.route 1) q hd]
  constructor
  · exact hpath.layout
  · rw [← hpath.path]
    exact pathTables_congr rfl fun d hd => hreach route d hd
  · exact hpath.nodup
  · exact hpath.fresh
  · exact hpath.free
  · rw [hsame.tables_eq, tables_setLeaf htree hleaf, hpath.tables]
  · intro q d t hd hold
    rw [hreach q d (hpath.layout ▸ hd)]
    exact hpath.kept q d t hd hold
  · intro q d t hd hnew
    rw [hreach q d (hpath.layout ▸ hd)] at hnew
    exact hpath.reached q d t hd hnew

end PathGrown

end View

namespace Ledger

/-- The spaces that are live in a session are trees that have no table in common. -/
theorem Reached.housed {s : Session} {g : Ledger} (hreached : Reached s g) :
    ∃ roots, s.HasRoots roots ∧
      s.machine.view.Housed {root | ∃ slot, roots slot = some root} := by
  obtain ⟨roots, hroots, howned⟩ := hreached.describes
  exact ⟨roots, hroots, howned.housed⟩

end Ledger

namespace Machine

/-- A lookup in a space answers the same on two machines, and it changes neither. -/
def TranslatesAlike (space : AddressSpace) (virt : VirtAddr) (m n : Machine) : Prop :=
  ∃ result, ∀ ε : Type,
    translate space virt m = (.ok result m : EStateM.Result (Failure ε) _ _) ∧
    translate space virt n = (.ok result n : EStateM.Result (Failure ε) _ _)

section Ends

variable {m n : Machine} {roots : Set Nat} {root : Nat}

theorem translatesAlike_of_lookup_eq (hsound : m.view.Sound) (htree : m.view.Tree root)
    (hsound' : n.view.Sound) (htree' : n.view.Tree root) {virt : VirtAddr}
    (hlookup : n.view.lookup root virt.route = m.view.lookup root virt.route) :
    TranslatesAlike ⟨frameBase root⟩ virt m n := by
  refine ⟨_, fun ε => ⟨translate_run hsound htree virt, ?_⟩⟩
  rw [translate_run hsound' htree' virt, hlookup]

/-- Work in one space that does not move a page is not seen in any space. -/
theorem translatesAlike_of_grown (hhoused : m.view.Housed roots) (hroot : root ∈ roots)
    (hgrown : View.Grown root m.view n.view) {other : Nat} (hother : other ∈ roots)
    {virt : VirtAddr}
    (hlookup : root = other → n.view.lookup root virt.route = m.view.lookup root virt.route) :
    TranslatesAlike ⟨frameBase other⟩ virt m n := by
  have hhoused' := hhoused.grown hroot hgrown
  apply translatesAlike_of_lookup_eq hhoused.sound (hhoused.tree other hother) hhoused'.sound
    (hhoused'.tree other hother)
  by_cases heq : root = other
  · exact heq ▸ hlookup heq
  · exact (hhoused.sameTables hroot hgrown hother heq).lookup_eq virt.route

/-- Once a page is mapped, its addresses are translated to the frame. -/
theorem translate_of_pageSet {page : VirtAddr} {target : PhysAddr × EntryFlags}
    (hsound : m.view.Sound) (hset : View.PageSet root page.pageFloor (some target) m.view n.view)
    {virt : VirtAddr} (hkey : virt.pageKey m.layout.top = page.pageKey m.layout.top) {ε : Type} :
    translate ⟨frameBase root⟩ virt n =
      (.ok (some (⟨target.1.word + virt.pageOffset⟩, target.2)) n :
        EStateM.Result (Failure ε) _ _) := by
  have htop : m.layout.top ≤ 5 := by
    rcases m.layout.top_eq with htop | htop <;> omega
  have hagree : Route.Agree m.view.layout.top m.view.layout.top virt.route
      page.pageFloor.route := by
    rw [view_layout, Addr.agree_route_iff htop, Addr.pageKey_pageFloor]
    exact hkey
  rw [translate_run (hset.grown.sound hsound) hset.grown.tree, hset.lookup, if_pos hagree]
  rfl

/-- A page is mapped at the end of its path, or no frame is left and the path still ends in a gap,
or a large page is in the way, or the page size is not supported. -/
theorem mapPage_ends (hsound : m.view.Sound) (htree : m.view.Tree root) (virt : VirtAddr)
    (phys : PhysAddr) (rights : AccessRights) (size : PageSize) :
    (∃ nodes m', size = .size4KiB ∧
        mapPage ⟨frameBase root⟩ virt phys rights size m = .ok ⟨⟩ m' ∧
        View.PathGrown root virt.pageFloor.route nodes m.view m'.view ∧
        (m'.view.pathTables root virt.pageFloor.route).length = m.layout.top ∧
        View.PageSet root virt.pageFloor (some (pageTarget phys rights)) m.view m'.view) ∨
      (∃ nodes e m', size = .size4KiB ∧
        mapPage ⟨frameBase root⟩ virt phys rights size m = .error (.error (.noFrame e)) m' ∧
        View.Linked root virt.pageFloor.route m.view nodes m'.view ∧ m'.view.free = ∅ ∧
        ∃ d t, View.Gap m'.view root virt.pageFloor.route d t) ∨
      (∃ d t, View.Blocked m.view root virt.pageFloor.route d t ∧
        mapPage ⟨frameBase root⟩ virt phys rights size m =
          .error (.error (.largePage (m.layout.top - d))) m) ∨
      size ≠ .size4KiB ∧
        mapPage ⟨frameBase root⟩ virt phys rights size m =
          .error (.error (.unsupportedSize size)) m := by
  by_cases hsize : size = .size4KiB
  · subst hsize
    rcases walkTo_ends hsound htree virt.pageFloor (le_refl 1) m.levels_pos with
      ⟨nodes, table, m₁, hlinked, hleaf, hwalk⟩ | ⟨nodes, e, m₁, hlinked, hnone, hgap, hwalk⟩ |
        ⟨d, t, hblocked, hwalk⟩
    · have hkept := hlinked.extended.pagesKept htree hsound
      have hpath := hlinked.pathGrown htree hsound
      have hlayout : m₁.layout = m.layout := hkept.grown.layout
      rw [← hlayout] at hleaf
      obtain ⟨m', hrun, hview, hset⟩ := mapPage_reached (hkept.grown.sound hsound)
        hkept.grown.tree virt phys rights hleaf hwalk
      have hpath' : View.PathGrown root virt.pageFloor.route nodes m.view m'.view :=
        hview ▸ hpath.setLeaf hkept.grown.tree hleaf _
      refine .inl ⟨nodes, m', rfl, hrun, hpath', ?_, hkept.trans_set hset⟩
      rw [hpath'.path, ← hpath.path, View.length_pathTables_eq_top hleaf]
      exact congrArg Layout.top hlayout
    · refine .inr (.inl ⟨nodes, e, m₁, rfl, ?_, hlinked, hnone, hgap⟩)
      rw [mapPage, if_neg (not_not.mpr rfl), Action.bind_error hwalk]
    · refine .inr (.inr (.inl ⟨d, t, hblocked, ?_⟩))
      rw [mapPage, if_neg (not_not.mpr rfl), Action.bind_error hwalk]
  · refine .inr (.inr (.inr ⟨hsize, ?_⟩))
    rw [mapPage, if_pos hsize]
    rfl

/-- Where no large page is in the way, a page is mapped exactly if there is a frame for each table
that is missing on its path, and these frames are what it takes. -/
theorem mapPage_cost (hsound : m.view.Sound) (htree : m.view.Tree root) {virt : VirtAddr}
    (hclear : ∀ d t, ¬View.Blocked m.view root virt.pageFloor.route d t) (phys : PhysAddr)
    (rights : AccessRights) :
    (∃ nodes m', m.view.missing root virt.pageFloor.route = nodes.length ∧
        mapPage ⟨frameBase root⟩ virt phys rights .size4KiB m = .ok ⟨⟩ m' ∧
        m'.freeCount + nodes.length = m.freeCount ∧
        View.PathGrown root virt.pageFloor.route nodes m.view m'.view ∧
        (m'.view.pathTables root virt.pageFloor.route).length = m.layout.top ∧
        View.PageSet root virt.pageFloor (some (pageTarget phys rights)) m.view m'.view) ∨
      ∃ e m', m.freeCount < m.view.missing root virt.pageFloor.route ∧
        mapPage ⟨frameBase root⟩ virt phys rights .size4KiB m =
          .error (.error (.noFrame e)) m' := by
  rcases mapPage_ends hsound htree virt phys rights .size4KiB with
    ⟨nodes, m', _, hrun, hpath, hlength, hset⟩ | ⟨nodes, e, m', _, hrun, hlinked, hnone, hgap⟩ |
      ⟨d, t, hblocked, _⟩ | ⟨hsize, _⟩
  · left
    have hgrown := hpath.length_path
    refine ⟨nodes, m', ?_, hrun, ?_, hpath, hlength, hset⟩
    · rw [View.missing, view_layout]
      omega
    · rw [freeCount_eq_ncard, freeCount_eq_ncard, hpath.ncard_free m.finite_free]
  · right
    obtain ⟨d, t, hgap⟩ := hgap
    have hpath := hlinked.pathGrown htree hsound
    have hcount := hpath.ncard_free m.finite_free
    have hgrown := hpath.length_path
    have hlayout : m'.view.layout.top = m.view.layout.top :=
      congrArg Layout.top (hlinked.extended.grown htree hsound).layout
    have hdepth := hgap.length_pathTables
    have habove := hgap.above
    rw [hnone, Set.ncard_empty, Nat.zero_add] at hcount
    refine ⟨e, m', ?_, hrun⟩
    rw [freeCount_eq_ncard, View.missing]
    omega
  · exact absurd hblocked (hclear d t)
  · exact absurd rfl hsize

end Ends

end Machine

end BootMemory
