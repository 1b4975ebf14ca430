import BootMemory.Proofs.RehousedSpaces
import BootMemory.Proofs.TableCost

/-!
# A range is mapped up to the first page that fails

Mapping a range reports what is going to be mapped and then maps its pages one by one.  Work does
not depend on what was reported before it, so the range leaves the machine as these single mappings
leave it.  They map the first pages of the range, and all others stay where they were.
-/

namespace BootMemory

namespace Action

variable {σ ε : Type}

theorem forM_range_succ (f : Nat → Action σ ε Unit) (count : Nat) :
    (List.range (count + 1)).forM f = (List.range count).forM f >>= fun _ => f count := by
  rw [List.range_succ]
  simp

/-- Actions in a row are carried out up to the first that fails, and its failure ends the row. -/
theorem forM_range_ends (f : Nat → Action σ ε Unit) (count : Nat) (s : σ) :
    ∃ k ≤ count, ∃ mid, (List.range k).forM f s = .ok ⟨⟩ mid ∧
      (k = count ∨ k < count ∧ ∃ failure last, f k mid = .error failure last ∧
        (List.range count).forM f s = .error failure last) := by
  induction count with
  | zero => exact ⟨0, le_refl 0, s, rfl, .inl rfl⟩
  | succ count ih =>
      rw [forM_range_succ]
      obtain ⟨k, hle, mid, hrun, rfl | ⟨hlt, failure, last, hfail, hstop⟩⟩ := ih
      · cases hlast : f k mid with
        | ok _ s' =>
            refine ⟨k + 1, le_refl _, s', ?_, .inl rfl⟩
            rw [forM_range_succ, bind_ok hrun]
            exact hlast
        | error failure last =>
            refine ⟨k, Nat.le_succ k, mid, hrun,
              .inr ⟨Nat.lt_succ_self k, failure, last, hlast, ?_⟩⟩
            rw [bind_ok hrun]
            exact hlast
      · exact ⟨k, Nat.le_succ_of_le hle, mid, hrun,
          .inr ⟨Nat.lt_succ_of_lt hlt, failure, last, hfail, bind_error hstop⟩⟩

end Action

namespace Machine

open BootMemory.Action

/-! ## What was reported -/

/-- Two machines that differ at most in what was reported. -/
def SameButLog (m n : Machine) : Prop :=
  ∃ log, n = { m with log := log }

theorem SameButLog.view_eq {m n : Machine} (hsame : SameButLog m n) : n.view = m.view := by
  obtain ⟨log, rfl⟩ := hsame
  rfl

/-- What was reported before does not matter to the action. -/
def Unread {ε α : Type} (x : MachineM ε α) : Prop :=
  ∀ m, Blind SameButLog x m

section Unread

variable {ε α β : Type} {x : MachineM ε α}

theorem unread_pure (a : α) : Unread (pure a : MachineM ε α) :=
  fun m => .pure a m

theorem unread_fail (e : ε) : Unread (Action.fail e : MachineM ε α) :=
  fun m => .fail e m

theorem unread_abort (f : Fault) : Unread (Action.abort f : MachineM ε α) :=
  fun m => .abort f m

theorem Unread.bind {f : α → MachineM ε β} (hx : Unread x) (hf : ∀ a, Unread (f a)) :
    Unread (x >>= f) :=
  fun m => (hx m).bind fun a m' _ => hf a m'

theorem unread_get {f : Machine → MachineM ε α}
    (hsame : ∀ m log, f { m with log := log } = f m) (hf : ∀ m, Unread (f m)) :
    Unread (get >>= f) := by
  refine fun m => .of_get ?_ (hf m m)
  rintro _ ⟨log, rfl⟩
  exact hsame m log

theorem unread_lift {checked : Except Fault β} {f : β → MachineM ε α} (hf : ∀ b, Unread (f b)) :
    Unread (liftM checked >>= f) :=
  fun m => .of_lift fun b _ => hf b m

theorem Unread.ok {m n m' : Machine} {a : α} (hx : Unread x) (hsame : SameButLog m n)
    (hrun : x m = .ok a m') : ∃ n', x n = .ok a n' ∧ SameButLog m' n' := by
  have halike := hx m n hsame
  rw [hrun] at halike
  generalize x n = result at halike
  cases halike with
  | ok hnext => exact ⟨_, rfl, hnext⟩

theorem Unread.error {m n m' : Machine} {failure : Failure ε} (hx : Unread x)
    (hsame : SameButLog m n) (hrun : x m = .error failure m') :
    ∃ n', x n = .error failure n' ∧ SameButLog m' n' := by
  have halike := hx m n hsame
  rw [hrun] at halike
  generalize x n = result at halike
  cases halike with
  | error hnext => exact ⟨_, rfl, hnext⟩

theorem unread_emit (event : LogEvent) : Unread (emit event : MachineM ε Unit) := by
  rintro m _ ⟨log, rfl⟩
  exact .ok ⟨_, rfl⟩

theorem unread_invalidate (virt : VirtAddr) : Unread (invalidate virt : MachineM ε Unit) := by
  rintro m _ ⟨log, rfl⟩
  exact .ok ⟨_, rfl⟩

theorem unread_overwrite (i : Nat) (values : List UInt8) :
    Unread (overwrite i values : MachineM ε Unit) := by
  rintro m _ ⟨log, rfl⟩
  exact .ok ⟨_, rfl⟩

theorem withAllocator_log (m : Machine) (log : Array LogEvent) (a : FrameAllocator) :
    ({ m with log := log } : Machine).withAllocator a = { m.withAllocator a with log := log } := by
  cases hhome : m.home <;> simp only [withAllocator, hhome]

theorem unread_alloc (count : Word) : Unread (alloc count) := by
  rintro m _ ⟨log, rfl⟩
  have hsame : ({ m with log := log } : Machine).allocator = m.allocator := rfl
  rw [alloc_apply, alloc_apply, hsame]
  rcases m.allocator.alloc count with ⟨⟨_ | _⟩ | base, a⟩
  · simp only [withAllocator_log]
    exact .error ⟨_, rfl⟩
  · simp only [withAllocator_log]
    exact .error ⟨_, rfl⟩
  · simp only [withAllocator_log]
    exact .ok ⟨_, rfl⟩

theorem unread_readWord (addr : PhysAddr) : Unread (readWord addr : MachineM ε Word) := by
  refine unread_get (fun _ _ => rfl) fun m => ?_
  cases hread : m.memory.readWord addr with
  | ok word => exact unread_pure word
  | error f => exact unread_abort f

theorem unread_writeWord (addr : PhysAddr) (value : Word) :
    Unread (writeWord addr value : MachineM ε Unit) :=
  unread_get (fun _ _ => rfl) fun _ => unread_lift fun i => unread_overwrite i _

theorem unread_zeroPages (addr : PhysAddr) (count : Word) :
    Unread (zeroPages addr count : MachineM ε Unit) :=
  unread_get (fun _ _ => rfl) fun _ => unread_lift fun _ => unread_lift fun _ =>
    unread_get (fun _ _ => rfl) fun _ => unread_lift fun i => unread_overwrite i _

theorem unread_newTable : Unread newTable :=
  Unread.bind (fun m => (unread_alloc 1 m).mapError) fun _ =>
    (unread_zeroPages _ 1).bind fun _ => unread_pure _

theorem unread_child (virt : VirtAddr) (allocate : Bool) (table : PhysAddr) (level : Nat) :
    Unread (child virt allocate table level) := by
  refine unread_lift fun entryAddr => (unread_readWord entryAddr).bind fun entry => ?_
  dsimp only
  split
  next =>
    split
    next => exact unread_fail _
    next => exact unread_pure _
  next =>
    split
    next =>
      refine unread_newTable.bind fun node => (unread_writeWord _ _).bind fun _ => ?_
      exact (unread_emit _).bind fun _ => unread_pure node
    next => exact unread_fail _

theorem unread_walk (virt : VirtAddr) (allocate : Bool) (target steps : Nat) (table : PhysAddr) :
    Unread (walk virt allocate target steps table) := by
  induction steps generalizing table with
  | zero => exact unread_pure table
  | succ steps ih => exact (unread_child virt allocate table _).bind ih

theorem unread_walkTo (space : AddressSpace) (virt : VirtAddr) (target : Nat) (allocate : Bool) :
    Unread (walkTo space virt target allocate) := by
  refine unread_get (fun _ _ => rfl) fun m => ?_
  dsimp only
  split
  next => exact unread_walk virt allocate target _ space.root
  next => exact unread_abort _

theorem unread_mapPage (space : AddressSpace) (virt : VirtAddr) (phys : PhysAddr)
    (rights : AccessRights) (size : PageSize) : Unread (mapPage space virt phys rights size) := by
  rw [mapPage]
  split
  next => exact unread_fail _
  next =>
    refine (unread_walkTo space _ 1 true).bind fun table => unread_lift fun entryAddr => ?_
    refine (unread_writeWord _ _).bind fun _ => (unread_invalidate _).bind fun _ => ?_
    exact unread_emit _

theorem unread_forM {x : α → MachineM ε Unit} (hx : ∀ a, Unread (x a)) (items : List α) :
    Unread (items.forM x) := by
  induction items with
  | nil => exact unread_pure _
  | cons a rest ih => exact (hx a).bind fun _ => ih

end Unread

end Machine

/-! ## The pages of a range -/

namespace MapRequest

/-- How many pages the length of a request comes to. -/
def pages (r : MapRequest) : Nat :=
  (r.length.toNat + 4095) / 4096

def page (r : MapRequest) (i : Nat) : VirtAddr :=
  r.virt.pageFloor.afterPages i

def frame (r : MapRequest) (i : Nat) : PhysAddr :=
  r.phys.pageFloor.afterPages i

/-- The addresses of the pages and of their frames stay in the word, and no two pages have one
key. -/
structure Proper (r : MapRequest) (top : Nat) : Prop where
  virt : ∀ i < r.pages, r.virt.pageFloor.word.toNat + i * 4096 < 2 ^ 64
  phys : ∀ i < r.pages, r.phys.pageFloor.word.toNat + i * 4096 < 2 ^ 64
  keys : ∀ i < r.pages, ∀ j < r.pages, (r.page i).pageKey top = (r.page j).pageKey top → i = j

variable {r : MapRequest} {top : Nat}

theorem pageFloor_page (r : MapRequest) (i : Nat) : (r.page i).pageFloor = r.page i := by
  refine (Addr.eq_pageFloor ?_ rfl).symm
  rw [Addr.startsPage_iff, page, Addr.afterPages, UInt64.toNat_add, UInt64.toNat_ofNat',
    Addr.toNat_pageFloor]
  omega

/-- There are no more pages than keys. -/
theorem Proper.pages_le (hproper : r.Proper top) : r.pages ≤ 512 ^ top := by
  have hmaps : ∀ i ∈ Finset.range r.pages, (r.page i).pageKey top ∈ Finset.range (512 ^ top) := by
    intro i _
    exact Finset.mem_range.mpr (Nat.mod_lt _ (Nat.pow_pos (by decide)))
  have hcard := Finset.card_le_card_of_injOn (fun i => (r.page i).pageKey top) hmaps (by
    intro i hi j hj heq
    exact hproper.keys i (Finset.mem_range.mp hi) j (Finset.mem_range.mp hj) heq)
  rwa [Finset.card_range, Finset.card_range] at hcard

theorem Proper.pageCount (hproper : r.Proper top) (htop : top ≤ 5) :
    Word.pageCount r.length = .ok (UInt64.ofNat r.pages) := by
  have hpages := hproper.pages_le.trans (Nat.pow_le_pow_right (by decide) htop)
  rw [pages] at hpages
  rw [Word.pageCount_eq, if_pos (by omega), pages]

end MapRequest

namespace Machine

open BootMemory.Action

/-- Maps one page of a range. -/
def mapPageOf (space : AddressSpace) (r : MapRequest) (rights : AccessRights) (i : Nat) :
    MachineM MapError Unit :=
  mapPage space (r.page i) (r.frame i) rights .size4KiB

section Programs

variable {r : MapRequest} {top : Nat}

theorem mapPages_eq_forM (hproper : r.Proper top) (space : AddressSpace) (rights : AccessRights)
    {count first : Nat} (hrange : first + count ≤ r.pages) :
    mapPages space r.virt.pageFloor r.phys.pageFloor rights count first =
      (List.range' first count).forM (mapPageOf space r rights) := by
  induction count generalizing first with
  | zero => rfl
  | succ count ih =>
      have hvirt := hproper.virt first (by omega)
      have hphys := hproper.phys first (by omega)
      rw [Addr.toNat_pageFloor] at hvirt hphys
      rw [mapPages_succ_of_fits space rights (by omega) (by omega), ih (by omega),
        List.range'_succ]
      rfl

/-- Mapping a range is a report and one mapping for each page, in increasing order. -/
theorem mapRange_eq_forM (hproper : r.Proper top) (htop : top ≤ 5) (space : AddressSpace)
    (rights : AccessRights) :
    mapRange space r rights =
      (emit (.mappingPages (UInt64.ofNat r.pages) r.virt.pageFloor r.phys.pageFloor) >>=
        fun _ => (List.range r.pages).forM (mapPageOf space r rights)) := by
  have hpages := hproper.pages_le.trans (Nat.pow_le_pow_right (by decide) htop)
  have hcount : (UInt64.ofNat r.pages).toNat = r.pages :=
    UInt64.toNat_ofNat_of_lt' (by simp only [UInt64.size]; omega)
  funext m
  rw [mapRange, hproper.pageCount htop, bind_ok (lift_ok _ m), hcount,
    mapPages_eq_forM hproper space rights (Nat.zero_add r.pages).le, ← List.range_eq_range']

end Programs

/-- The first `k` pages of a range were mapped one after the other, and no other page was moved. -/
structure PagesMapped (root : Nat) (r : MapRequest) (rights : AccessRights) (k : Nat)
    (m m' : Machine) : Prop where
  grown : View.Grown root m.view m'.view
  invalidated : m'.view.invalidated = m.view.invalidated ++ ((List.range k).map r.page).toArray
  moved : ∀ i < k, ∀ virt : VirtAddr,
    virt.pageKey m.layout.top = (r.page i).pageKey m.layout.top →
      m'.view.lookup root virt.route = some (pageTarget (r.frame i) rights)
  kept : ∀ virt : VirtAddr,
    (∀ i < k, virt.pageKey m.layout.top ≠ (r.page i).pageKey m.layout.top) →
      m'.view.lookup root virt.route = m.view.lookup root virt.route

namespace PagesMapped

variable {m mid m' : Machine} {root k : Nat} {r : MapRequest} {rights : AccessRights}

theorem zero (htree : m.view.Tree root) : PagesMapped root r rights 0 m m where
  grown := .refl htree
  invalidated := by simp
  moved := by
    intro i hi
    exact absurd hi (Nat.not_lt_zero i)
  kept := fun _ _ => rfl

theorem succ (hpages : PagesMapped root r rights k m mid)
    (hkey : ∀ i < k, (r.page i).pageKey m.layout.top ≠ (r.page k).pageKey m.layout.top)
    (hset : View.PageSet root (r.page k).pageFloor (some (pageTarget (r.frame k) rights))
      mid.view m'.view) : PagesMapped root r rights (k + 1) m m' := by
  have htop : m.layout.top ≤ 5 := by
    rcases m.layout.top_eq with htop | htop <;> omega
  have hlookup : ∀ virt : VirtAddr, m'.view.lookup root virt.route =
      if virt.pageKey m.layout.top = (r.page k).pageKey m.layout.top then
        some (pageTarget (r.frame k) rights)
      else mid.view.lookup root virt.route := by
    intro virt
    rw [hset.lookup, hpages.grown.layout, view_layout, r.pageFloor_page]
    simp only [Addr.agree_route_iff htop]
  constructor
  · exact hpages.grown.trans hset.grown
  · rw [hset.invalidated, hpages.invalidated, r.pageFloor_page, List.range_succ]
    simp
  · intro i hi virt hvirt
    rw [hlookup]
    rcases Nat.lt_succ_iff_lt_or_eq.mp hi with hlt | rfl
    · rw [if_neg fun heq => hkey i hlt (hvirt.symm.trans heq)]
      exact hpages.moved i hlt virt hvirt
    · rw [if_pos hvirt]
  · intro virt hvirt
    rw [hlookup, if_neg (hvirt k (Nat.lt_succ_self k))]
    exact hpages.kept virt fun i hi => hvirt i (Nat.lt_succ_of_lt hi)

theorem trans_kept (hpages : PagesMapped root r rights k m mid)
    (hkept : View.PagesKept root mid.view m'.view) : PagesMapped root r rights k m m' where
  grown := hpages.grown.trans hkept.grown
  invalidated := hkept.invalidated.trans hpages.invalidated
  moved := fun i hi virt hvirt => (hkept.lookup _).trans (hpages.moved i hi virt hvirt)
  kept := fun virt hvirt => (hkept.lookup _).trans (hpages.kept virt hvirt)

theorem of_view_eq (hpages : PagesMapped root r rights k m mid) (hview : m'.view = mid.view) :
    PagesMapped root r rights k m m' := by
  obtain ⟨hgrown, hinvalidated, hmoved, hkept⟩ := hpages
  rw [← hview] at hgrown hinvalidated
  simp only [← hview] at hmoved hkept
  exact ⟨hgrown, hinvalidated, hmoved, hkept⟩

theorem translate (hpages : PagesMapped root r rights k m m') (hsound : m.view.Sound) {i : Nat}
    (hi : i < k) {virt : VirtAddr}
    (hvirt : virt.pageKey m.layout.top = (r.page i).pageKey m.layout.top) {ε : Type} :
    translate ⟨frameBase root⟩ virt m' =
      (.ok (some (⟨((r.frame i).word &&& frameMask) + virt.pageOffset⟩, .ofRights rights)) m' :
        EStateM.Result (Failure ε) _ _) := by
  rw [translate_run (hpages.grown.sound hsound) hpages.grown.tree, hpages.moved i hi virt hvirt]
  rfl

end PagesMapped

section Ends

variable {m mid m' : Machine} {root k : Nat} {r : MapRequest}

theorem pagesMapped_of_forM (hsound : m.view.Sound) (htree : m.view.Tree root)
    (hproper : r.Proper m.layout.top) (rights : AccessRights) (hk : k ≤ r.pages)
    (hrun : (List.range k).forM (mapPageOf ⟨frameBase root⟩ r rights) m = .ok ⟨⟩ m') :
    PagesMapped root r rights k m m' := by
  induction k generalizing m' with
  | zero =>
      cases hrun
      exact .zero htree
  | succ k ih =>
      rw [forM_range_succ] at hrun
      obtain ⟨_, mid, hfirst, hlast⟩ := bind_eq_ok.mp hrun
      have hpages := ih (by omega) hfirst
      have hkeys : ∀ i < k,
          (r.page i).pageKey m.layout.top ≠ (r.page k).pageKey m.layout.top := by
        intro i hi heq
        have hsame := hproper.keys i (by omega) k (by omega) heq
        omega
      rcases mapPage_run (hpages.grown.sound hsound) hpages.grown.tree (r.page k) (r.frame k)
        rights .size4KiB with ⟨_, _, m₁, _, _, hdone, _, hset⟩ | ⟨e, m₁, hfail, _⟩
      · cases hlast.symm.trans hdone
        exact hpages.succ hkeys hset
      · cases hlast.symm.trans hfail

/-- A range comes to where the mappings of its first pages come to, and it fails if and as the
mapping of the next page fails then. -/
theorem mapRange_stops (hsound : m.view.Sound) (htree : m.view.Tree root)
    (hproper : r.Proper m.layout.top) (rights : AccessRights) :
    ∃ k ≤ r.pages, ∃ mid m', PagesMapped root r rights k m m' ∧
      (List.range k).forM (mapPageOf ⟨frameBase root⟩ r rights) m = .ok ⟨⟩ mid ∧
      ((k = r.pages ∧ mapRange ⟨frameBase root⟩ r rights m = .ok ⟨⟩ m' ∧ SameButLog mid m') ∨
        k < r.pages ∧ ∃ e last,
          mapPageOf ⟨frameBase root⟩ r rights k mid = .error (.error e) last ∧
          mapRange ⟨frameBase root⟩ r rights m = .error (.error e) m' ∧ SameButLog last m') := by
  have htop : m.layout.top ≤ 5 := by
    rcases m.layout.top_eq with htop | htop <;> omega
  have hunread := unread_forM (fun i => unread_mapPage ⟨frameBase root⟩ (r.page i) (r.frame i)
    rights .size4KiB) (List.range r.pages)
  rw [mapRange_eq_forM hproper htop]
  obtain ⟨k, hle, mid, hrun, hends⟩ :=
    forM_range_ends (mapPageOf ⟨frameBase root⟩ r rights) r.pages m
  have hpages := pagesMapped_of_forM hsound htree hproper rights hle hrun
  rcases hends with rfl | ⟨hlt, failure, last, hfail, hstop⟩
  · obtain ⟨m', hrange, hsame⟩ := hunread.ok ⟨_, rfl⟩ hrun
    exact ⟨r.pages, le_refl _, mid, m', hpages.of_view_eq hsame.view_eq, hrun,
      .inl ⟨rfl, hrange, hsame⟩⟩
  · rcases mapPage_run (hpages.grown.sound hsound) hpages.grown.tree (r.page k) (r.frame k)
      rights .size4KiB with ⟨_, _, m₁, _, _, hdone, _⟩ | ⟨e, m₁, hfail', _, hkept⟩
    · cases hfail.symm.trans hdone
    · cases hfail.symm.trans hfail'
      obtain ⟨m', hrange, hsame⟩ := hunread.error ⟨_, rfl⟩ hstop
      exact ⟨k, hle, mid, m', (hpages.trans_kept hkept).of_view_eq hsame.view_eq, hrun,
        .inr ⟨hlt, e, _, hfail, hrange, hsame⟩⟩

end Ends

/-- Mapping a range maps its first pages, all of them if it succeeds, and moves no other page of
any space.  The machine comes to where the single mappings come to, the one that fails included. -/
theorem range_maps_its_first_pages {m : Machine} {roots : Set Nat} {root : Nat}
    (hhoused : m.view.Housed roots) (hroot : root ∈ roots) {r : MapRequest}
    (hproper : r.Proper m.layout.top) (rights : AccessRights) :
    ∃ k ≤ r.pages, ∃ mid m',
      (List.range k).forM (mapPageOf ⟨frameBase root⟩ r rights) m = .ok ⟨⟩ mid ∧
      ((k = r.pages ∧ mapRange ⟨frameBase root⟩ r rights m = .ok ⟨⟩ m' ∧ SameButLog mid m') ∨
        k < r.pages ∧ ∃ e last,
          mapPageOf ⟨frameBase root⟩ r rights k mid = .error (.error e) last ∧
          mapRange ⟨frameBase root⟩ r rights m = .error (.error e) m' ∧ SameButLog last m') ∧
      (∀ i < k, ∀ virt : VirtAddr,
        virt.pageKey m.layout.top = (r.page i).pageKey m.layout.top → ∀ ε : Type,
          translate ⟨frameBase root⟩ virt m' =
            (.ok (some (⟨((r.frame i).word &&& frameMask) + virt.pageOffset⟩, .ofRights rights))
              m' : EStateM.Result (Failure ε) _ _)) ∧
      (∀ virt : VirtAddr,
        (∀ i < k, virt.pageKey m.layout.top ≠ (r.page i).pageKey m.layout.top) →
          TranslatesAlike ⟨frameBase root⟩ virt m m') ∧
      (∀ other ∈ roots, root ≠ other → ∀ virt, TranslatesAlike ⟨frameBase other⟩ virt m m') ∧
      m'.invalidated = m.invalidated ++ ((List.range k).map r.page).toArray := by
  have hsound := hhoused.sound
  obtain ⟨k, hle, mid, m', hpages, hrun, hends⟩ :=
    mapRange_stops hsound (hhoused.tree root hroot) hproper rights
  refine ⟨k, hle, mid, m', hrun, hends, ?_, ?_, ?_, hpages.invalidated⟩
  · intro i hi virt hvirt ε
    exact hpages.translate hsound hi hvirt
  · intro virt hvirt
    exact translatesAlike_of_grown hhoused hroot hpages.grown hroot fun _ => hpages.kept virt hvirt
  · intro other hother hne virt
    exact translatesAlike_of_grown hhoused hroot hpages.grown hother fun heq => absurd heq hne

/-- Two pages on either side of a border between areas of 512 GiB. -/
def straddlingRange : MapRequest :=
  ⟨⟨0x7ffffff000⟩, ⟨0x200000⟩, 0x1800⟩

/-- The two pages need three tables each, and the small machine has frames for four, so only the
first of them is mapped. -/
theorem range_maps_its_first_pages_tightMachine :
    ∃ root m e m', m.view.Housed {root} ∧ straddlingRange.Proper m.layout.top ∧
      mapRange ⟨frameBase root⟩ straddlingRange .read m = .error (.error e) m' ∧
      m'.invalidated = m.invalidated ++ #[⟨0x7ffffff000⟩] := by
  obtain ⟨root, m, _, hcharted, htop, hcount⟩ := exists_newSpace_tightMachine
  have hhoused := View.Housed.singleton hcharted.sound hcharted.tree
  have hproper : straddlingRange.Proper m.layout.top := by
    rw [htop]
    exact ⟨by decide, by decide, by decide⟩
  obtain ⟨k, hle, mid, m', hrun, hends, _, _, _, hdropped⟩ :=
    range_maps_its_first_pages hhoused rfl hproper .read
  rcases mapPage_charted hcharted ⟨straddlingRange.page 0, straddlingRange.frame 0, .read⟩ with
    ⟨m₁, hfirst, hcharted₁, hlayout, hpaid⟩ | ⟨_, _, _, hfew⟩
  · have hone : (List.range 1).forM (mapPageOf ⟨frameBase root⟩ straddlingRange .read) m =
        .ok ⟨⟩ m₁ := bind_ok hfirst
    have hcost : tableCost 4 [straddlingRange.page 0] = 3 := by decide
    have hcosts : tableCost 4 [straddlingRange.page 1, straddlingRange.page 0] = 6 := by decide
    rw [htop, hcount, List.map_cons, List.map_nil, hcost, tableCost_nil] at hpaid
    rcases mapPage_charted hcharted₁ ⟨straddlingRange.page 1, straddlingRange.frame 1, .read⟩ with
      ⟨m₂, _, _, _, hpaid₂⟩ | ⟨e, m₂, hsecond, _⟩
    · rw [hlayout, htop, List.map_cons, List.map_cons, List.map_nil, hcost, hcosts] at hpaid₂
      omega
    · rcases hends with ⟨rfl, hdone, _⟩ | ⟨hlt, e', last, hfail, hstop, _⟩
      · rw [show straddlingRange.pages = 1 + 1 from rfl, forM_range_succ, bind_ok hone] at hrun
        cases hrun.symm.trans hsecond
      · refine ⟨root, m, e', m', hhoused, hproper, hstop, ?_⟩
        obtain rfl | rfl : k = 0 ∨ k = 1 := by
          change k < 2 at hlt
          omega
        · cases hrun
          cases hfail.symm.trans hfirst
        · exact hdropped
  · rw [htop, hcount] at hfew
    exact absurd hfew (by decide)

end Machine

end BootMemory
