import BootMemory.Proofs.Following
import BootMemory.Proofs.Walk

/-!
# Giving a space back

A release goes through the entries in use and gives back each table after what is below it.  While
it runs it reads what lies in memory and changes nothing but the free frames, so what it reads
stays as it was at the start: it gives back the frames that it comes to, one after the other.  In a
space without large pages these are its tables, and no others.
-/

namespace BootMemory

namespace View

theorem give_give (v : View) (a b : Set Nat) : (v.give a).give b = v.give (a ∪ b) := by
  refine View.ext rfl rfl ?_ rfl
  change v.free ∪ a ∩ v.layout.tracked ∪ b ∩ v.layout.tracked = _
  rw [Set.union_assoc, ← Set.union_inter_distrib_right]
  rfl

@[simp] theorem give_empty (v : View) : v.give ∅ = v := by
  refine View.ext rfl rfl ?_ rfl
  change v.free ∪ ∅ ∩ v.layout.tracked = v.free
  rw [Set.empty_inter, Set.union_empty]

/-- What a release needs: the tables that it reads lie in memory, and it gives back no frame of the
bitmap. -/
structure Releasable (v : View) (level table : Nat) : Prop where
  reads : ∀ path f, path.length + 1 < level → v.follow table path = some f → v.layout.Plain f
  bits : ∀ f ∈ v.releaseOrder level table, f ∈ v.layout.tracked → v.layout.Plain f

theorem Releasable.below {v : View} {level table lower : Nat} {index : Fin 512}
    (hreleasable : v.Releasable (level + 2) table) (hnext : v.next table index = some lower) :
    v.Releasable (level + 1) lower := by
  constructor
  · intro path f hlength hpath
    apply hreleasable.reads (index :: path) f (Nat.succ_lt_succ hlength)
    rwa [follow_cons hnext]
  · intro f hf
    apply hreleasable.bits f
    rw [releaseOrder_succ, List.mem_append, List.mem_flatMap]
    exact .inl ⟨index, List.mem_finRange index, mem_below.mpr ⟨lower, hnext, hf⟩⟩

theorem Releasable.bits_below {v : View} {level table f : Nat} {index : Fin 512}
    (hreleasable : v.Releasable (level + 2) table) (hf : f ∈ v.below (level + 1) table index)
    (htracked : f ∈ v.layout.tracked) : v.layout.Plain f := by
  obtain ⟨lower, hnext, hf⟩ := mem_below.mp hf
  exact (hreleasable.below hnext).bits f hf htracked

theorem Tree.releasable {v : View} {root : Nat} (htree : v.Tree root) (hsmall : v.AllSmall root) :
    v.Releasable v.layout.top root := by
  constructor
  · intro path f hlength hpath
    obtain ⟨_, _, hreach⟩ := exists_tableAt_of_follow hsmall (Nat.lt_of_succ_lt hlength) hpath
    exact htree.plain f (mem_tables (Nat.lt_of_succ_lt hlength) hreach)
  · intro f hf _
    exact htree.plain f ((mem_releaseOrder_iff_tables hsmall).mp hf)

end View

/-- What is reported when a single frame is given back. -/
def LogEvent.freedFrame (f : Nat) : LogEvent :=
  .freed 1 (frameBase f)

namespace Machine

variable {ε : Type} {v : View}

/-- Wherever some frames were given back already, the action gives back `frames` as well, one after
the other, and does nothing else. -/
def Releases (v : View) (x : MachineM ε Unit) (frames : List Nat) : Prop :=
  ∀ given m, (∀ f ∈ given, f ∈ v.layout.tracked → v.layout.Plain f) → m.view = v.give given →
    ∃ m', x m = .ok ⟨⟩ m' ∧ m'.view = v.give (given ∪ {f | f ∈ frames}) ∧
      m'.log = m.log ++ frames.map LogEvent.freedFrame

theorem releases_free (hsound : v.Sound) {f : Nat} (hlt : f < 2 ^ 40) :
    Releases v (free (ε := ε) (frameBase f) 1) [f] := by
  intro given m hgiven hview
  have hpage : (frameBase f).page = f := page_frameBase (lt_trans hlt (by decide))
  have hstart : (frameBase f).startsPage = true :=
    startsPage_frameBase (lt_trans hlt (by decide))
  have hone : (1 : Word).toNat = 1 := rfl
  have hword : (frameBase f).page + (1 : Word).toNat < 2 ^ 64 := by
    omega
  have hframes : Set.Ico f (f + 1) = {g | g ∈ [f]} := by
    ext g
    rw [Set.mem_Ico, Set.mem_ofPred, List.mem_singleton]
    omega
  obtain ⟨m', hrun, hview', hlog⟩ := free_run (ε := ε) (hview ▸ hsound.give hgiven) hstart hword
  refine ⟨m', hrun, ?_, ?_⟩
  · rw [hview', hpage, hone, hframes, hview, View.give_give]
  · simpa [LogEvent.freedFrame] using hlog

theorem releases_seq {x : MachineM ε Unit} {y : Unit → MachineM ε Unit} {a b : List Nat}
    (hx : Releases v x a) (hbits : ∀ f ∈ a, f ∈ v.layout.tracked → v.layout.Plain f)
    (hy : Releases v (y ⟨⟩) b) : Releases v (x >>= y) (a ++ b) := by
  intro given m hgiven hview
  obtain ⟨m₁, hrun, hview₁, hlog₁⟩ := hx given m hgiven hview
  have hgiven₁ : ∀ f ∈ given ∪ {f | f ∈ a}, f ∈ v.layout.tracked → v.layout.Plain f := by
    rintro f (hf | hf)
    · exact hgiven f hf
    · exact hbits f hf
  obtain ⟨m₂, hrun₂, hview₂, hlog₂⟩ := hy _ m₁ hgiven₁ hview₁
  have hboth : {f | f ∈ a ++ b} = {f | f ∈ a} ∪ {f | f ∈ b} := by
    ext f
    simp
  refine ⟨m₂, ?_, ?_, ?_⟩
  · rw [Action.bind_ok hrun]
    exact hrun₂
  · rw [hview₂, hboth, Set.union_assoc]
  · apply Array.ext'
    simp [hlog₂, hlog₁]

theorem releases_nil : Releases v (pure ⟨⟩ : MachineM ε Unit) [] := by
  intro given m _ hview
  refine ⟨m, rfl, ?_, ?_⟩
  · simpa using hview
  · simp

theorem releases_forM {α : Type} {x : α → MachineM ε Unit} {frames : α → List Nat} (items : List α)
    (hrun : ∀ i ∈ items, Releases v (x i) (frames i))
    (hbits : ∀ i ∈ items, ∀ f ∈ frames i, f ∈ v.layout.tracked → v.layout.Plain f) :
    Releases v (items.forM x) (items.flatMap frames) := by
  induction items with
  | nil => exact releases_nil
  | cons i rest ih =>
      rw [List.flatMap_cons]
      apply releases_seq
      · exact hrun i List.mem_cons_self
      · exact hbits i List.mem_cons_self
      · exact ih (fun k hk => hrun k (List.mem_cons_of_mem i hk))
          (fun k hk => hbits k (List.mem_cons_of_mem i hk))

theorem releases_read (hsound : v.Sound) {table : Nat} (htable : v.layout.Plain table)
    (index : Fin 512) {y : Word → MachineM ε Unit} {frames : List Nat}
    (hy : Releases v (y (v.entry table index).bits) frames) :
    Releases v (readWord (entryBase table index) >>= y) frames := by
  intro given m hgiven hview
  have hsound' : m.view.Sound := hview ▸ hsound.give hgiven
  have htable' : m.layout.Plain table := by
    rwa [show m.layout = v.layout from congrArg View.layout hview]
  have hentry : m.view.entry table index = v.entry table index := by
    rw [hview]
    rfl
  have hread := readEntry_run (ε := ε) hsound' htable' index
  rw [hentry] at hread
  rw [Action.bind_ok hread]
  exact hy given m hgiven hview

theorem releaseTree_succ (level : Nat) (table : PhysAddr) :
    releaseTree (ε := ε) (level + 2) table =
      ((List.finRange 512).forM fun index => do
        let entry : TableEntry := ⟨← readWord (← slot table index)⟩
        if entry.isPresent then releaseTree (level + 1) entry.address) >>= fun _ =>
          free table 1 := by
  rw [releaseTree, entryCount, ← List.map_coe_finRange_eq_range]
  exact congrArg (fun x => x >>= fun _ => free table 1) List.forM_map

theorem releases_entry (hsound : v.Sound) {level table : Nat} (htable : v.layout.Plain table)
    (index : Fin 512)
    (hlower : ∀ lower, lower < 2 ^ 40 → v.next table index = some lower →
      Releases v (releaseTree (ε := ε) level (frameBase lower)) (v.releaseOrder level lower)) :
    Releases v (do
      let entry : TableEntry := ⟨← readWord (← slot (frameBase table) index)⟩
      if entry.isPresent then releaseTree (ε := ε) level entry.address)
      (v.below level table index) := by
  have hslot : slot (frameBase table) index = .ok (entryBase table index) :=
    slot_frameBase (htable.lt hsound.memory) index
  intro given m hgiven hview
  rw [hslot, Action.bind_ok (Action.lift_ok _ m)]
  refine releases_read hsound htable index ?_ given m hgiven hview
  cases hpresent : (v.entry table index).isPresent with
  | false =>
      have hnone : v.below level table index = [] := by
        simp [View.below, View.next, hpresent]
      rw [hnone]
      simp only [hpresent, Bool.false_eq_true, if_false]
      exact releases_nil
  | true =>
      have hnext : v.next table index = some (v.entry table index).frame := if_pos hpresent
      have hbelow : v.below level table index =
          v.releaseOrder level (v.entry table index).frame := by
        simp [View.below, hnext]
      rw [hbelow]
      simp only [hpresent, if_true]
      rw [TableEntry.address_eq_frameBase]
      exact hlower _ (TableEntry.frame_lt _) hnext

/-- A release gives back the frames that it comes to. -/
theorem releases_tree (hsound : v.Sound) {level table : Nat} (hlt : table < 2 ^ 40)
    (hreleasable : v.Releasable level table) :
    Releases v (releaseTree (ε := ε) level (frameBase table)) (v.releaseOrder level table) := by
  induction level using Nat.strong_induction_on generalizing table with
  | _ level ih =>
      match level with
      | 0 => exact releases_free hsound hlt
      | 1 => exact releases_free hsound hlt
      | level + 2 =>
          have htable : v.layout.Plain table := hreleasable.reads [] table (Nat.succ_lt_succ
            (Nat.succ_pos level)) rfl
          rw [releaseTree_succ, View.releaseOrder_succ]
          -- the tables below are given back first, so the entries of this one are read in time
          apply releases_seq
          · refine releases_forM _ (fun index _ => ?_) fun index _ f => hreleasable.bits_below
            exact releases_entry hsound htable index fun lower hlower hnext =>
              ih (level + 1) (Nat.lt_succ_self _) hlower (hreleasable.below hnext)
          · intro f hf
            obtain ⟨index, _, hf⟩ := List.mem_flatMap.mp hf
            exact hreleasable.bits_below hf
          · exact releases_free hsound hlt

section Space

variable {m : Machine} {root : Nat}

/-- A space that the processor is not using gives back the frames that a release comes to. -/
theorem releaseSpace_of_releasable (hsound : m.view.Sound) (hlt : root < 2 ^ 40)
    (hreleasable : m.view.Releasable m.layout.top root) (hactive : frameBase root ≠ m.activeRoot) :
    ∃ m', releaseSpace ⟨frameBase root⟩ m = (.ok ⟨⟩ m' : EStateM.Result (Failure ε) _ _) ∧
      m'.view = m.view.give {f | f ∈ m.view.releaseOrder m.layout.top root} ∧
      m'.log = m.log ++ (m.view.releaseOrder m.layout.top root).map LogEvent.freedFrame := by
  have hempty : ∀ f ∈ (∅ : Set Nat), f ∈ m.layout.tracked → m.layout.Plain f := by
    simp
  obtain ⟨m', hrun, hview, hlog⟩ := releases_tree (ε := ε) hsound hlt hreleasable ∅ m hempty
    (View.give_empty m.view).symm
  rw [Set.empty_union] at hview
  refine ⟨m', ?_, hview, hlog⟩
  rw [releaseSpace, Action.bind_ok (Action.get_apply m), if_neg hactive]
  exact hrun

/-- A space without large pages that the processor is not using gives back its tables. -/
theorem releaseSpace_run (hsound : m.view.Sound) (htree : m.view.Tree root)
    (hsmall : m.view.AllSmall root) (hactive : frameBase root ≠ m.activeRoot) :
    ∃ m', releaseSpace ⟨frameBase root⟩ m = (.ok ⟨⟩ m' : EStateM.Result (Failure ε) _ _) ∧
      m'.view = m.view.give (m.view.tables root) ∧
      m'.log = m.log ++ (m.view.releaseOrder m.layout.top root).map LogEvent.freedFrame := by
  have hlt := (htree.plain root (m.view.root_mem_tables root)).lt hsound.memory
  have hframes : {f | f ∈ m.view.releaseOrder m.layout.top root} = m.view.tables root := by
    ext f
    exact View.mem_releaseOrder_iff_tables hsmall
  have hrun := releaseSpace_of_releasable (ε := ε) hsound hlt (htree.releasable hsmall) hactive
  rwa [hframes] at hrun

theorem releaseSpace_fault {space : AddressSpace} (hactive : space.root = m.activeRoot) :
    releaseSpace space m =
      (.error (.fault (.releasingActive space.root m.activeRoot)) m :
        EStateM.Result (Failure ε) _ _) := by
  rw [releaseSpace, Action.bind_ok (Action.get_apply m), if_pos hactive]
  rfl

end Space

end Machine

end BootMemory
