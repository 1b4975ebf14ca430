import BootMemory.Proofs.Construction

/-!
# Frames on lease

Clients allocate frames, give back what they hold, and set frames aside, in any order.  Beside
the allocator a tenancy keeps who holds which frames and which frames were set aside and not given
back since.  The free frames, the frames on lease and the frames set aside never meet more than
clients make them meet: a frame is handed out only while it is free, and only frames on lease
become free again.
-/

namespace BootMemory

def runFrames (base : PhysAddr) (count : Word) : Set Nat :=
  Set.Ico base.page (base.page + count.toNat)

theorem page_mem_runFrames {base : PhysAddr} {count : Word} (hcount : count ≠ 0) :
    base.page ∈ runFrames base count := by
  have hpos := FrameAllocator.toNat_pos_of_ne_zero hcount
  exact Set.mem_Ico.mpr ⟨le_rfl, by omega⟩

/-- A new allocator for a memory map, with the frames that hold its own bitmap. -/
inductive FrameAllocator.Fresh (map : MemoryMap) : FrameAllocator → Set Nat → Prop
  | lent {storage : ByteArray} {a : FrameAllocator} {log log' : Array LogEvent}
      (hrun : overStorage map storage log = .ok a log') : Fresh map a ∅
  | hosted {memory : Memory} {levels : PagingDepth} {m : Machine} {log log' : Array LogEvent}
      (hrun : Machine.selfHosted memory levels map log = .ok m log') :
      Fresh map m.allocator m.layout.bitmapFrames

theorem FrameAllocator.Fresh.spec {map : MemoryMap} {a : FrameAllocator} {hidden : Set Nat}
    (hfresh : Fresh map a hidden) :
    a.Fits ∧ a.freeFrames = {f | f ≠ 0 ∧ f ∉ hidden ∧ ∃ r ∈ map.usable, r.Holds f} := by
  cases hfresh with
  | lent hrun =>
      have hbuilt := overStorage_eq_ok hrun
      refine ⟨hbuilt.fits, ?_⟩
      rw [hbuilt.free]
      simp
  | hosted hrun =>
      have hbuilt := Machine.selfHosted_eq_ok hrun
      exact ⟨hbuilt.fits, hbuilt.free⟩

inductive FrameRequest (Client : Type) where
  | alloc (client : Client) (count : Word)
  | free (client : Client) (base : PhysAddr) (count : Word)
  | reserve (client : Client) (base : PhysAddr) (count : Word)

/-- The frames of an allocation that its holder did not give back yet. -/
structure Lease (Client : Type) where
  holder : Client
  frames : Set Nat

def Lease.giveUp {Client : Type} (lease : Lease Client) (client : Client) (frames : Set Nat) :
    Lease Client :=
  { lease with frames := {f | f ∈ lease.frames ∧ ¬(lease.holder = client ∧ f ∈ frames)} }

def Lease.Apart {Client : Type} (x y : Lease Client) : Prop :=
  Disjoint x.frames y.frames

instance {Client : Type} : Std.Symm (@Lease.Apart Client) where
  symm _ _ hapart := Disjoint.symm hapart

structure Tenancy (Client : Type) where
  allocator : FrameAllocator
  leases : List (Lease Client)
  /-- The frames that were set aside and not given back since. -/
  reserved : Set Nat

namespace Tenancy

variable {Client : Type}

def start (a : FrameAllocator) : Tenancy Client :=
  ⟨a, [], ∅⟩

/-- A client gives back only what it holds. -/
def Permits (s : Tenancy Client) : FrameRequest Client → Prop
  | .free client base count =>
      ∀ f ∈ runFrames base count, ∃ lease ∈ s.leases, lease.holder = client ∧ f ∈ lease.frames
  | _ => True

/-- What a call leaves.  A call that fails leaves all frames as they were. -/
def after (s : Tenancy Client) : FrameRequest Client → Tenancy Client
  | .alloc client count =>
      match s.allocator.alloc count with
      | (.ok base, a) => { s with allocator := a, leases := ⟨client, runFrames base count⟩ :: s.leases }
      | (.error _, a) => { s with allocator := a }
  | .free client base count =>
      match s.allocator.free base count with
      | .ok a =>
          { allocator := a
            leases := s.leases.map fun lease => lease.giveUp client (runFrames base count)
            reserved := s.reserved \ runFrames base count }
      | .error _ => s
  | .reserve _ base count =>
      match s.allocator.reserve base count with
      | .ok a => { s with allocator := a, reserved := s.reserved ∪ runFrames base count }
      | .error _ => s

/-- The tenancies that come of calls in any order. -/
inductive Reached (a : FrameAllocator) : Tenancy Client → Prop
  | start : Reached a (start a)
  | call {s : Tenancy Client} (hreached : Reached a s) (request : FrameRequest Client)
      (hpermits : s.Permits request) : Reached a (s.after request)

/-- Frames on lease are apart from each other and from the free frames; `pool` are the frames that
may be handed out at all. -/
structure Inv (pool : Set Nat) (s : Tenancy Client) : Prop where
  fits : s.allocator.Fits
  free : s.allocator.freeFrames ⊆ pool \ s.reserved
  held : ∀ lease ∈ s.leases, lease.frames ⊆ (pool ∩ s.allocator.tracked) \ s.allocator.freeFrames
  apart : s.leases.Pairwise Lease.Apart

section Inv

variable {pool : Set Nat} {s : Tenancy Client}

theorem inv_start {a : FrameAllocator} (hfits : a.Fits) :
    Inv a.freeFrames (start a : Tenancy Client) where
  fits := hfits
  free := by
    rw [start, Set.sdiff_empty]
  held := by
    simp [start]
  apart := List.Pairwise.nil

theorem Inv.alloc (hinv : Inv pool s) (client : Client) (count : Word) :
    Inv pool (s.after (.alloc client count)) := by
  rw [after]
  rcases halloc : s.allocator.alloc count with ⟨e | base, a⟩
  · obtain ⟨hfits, htracked, hfree⟩ := FrameAllocator.alloc_eq_error hinv.fits halloc
    refine ⟨hfits, ?_, ?_, hinv.apart⟩
    · rw [hfree]
      exact hinv.free
    · rw [htracked, hfree]
      exact hinv.held
  · obtain ⟨hfits, htracked, hrun, hfree⟩ := FrameAllocator.alloc_eq_ok hinv.fits halloc
    constructor
    · exact hfits
    · rw [hfree]
      exact Set.sdiff_subset.trans hinv.free
    · rw [htracked, hfree]
      intro lease hlease f hf
      rcases List.mem_cons.mp hlease with rfl | hold
      · have hwas := hrun hf
        exact ⟨⟨(hinv.free hwas).1, hwas.1⟩, fun hstill => hstill.2 hf⟩
      · obtain ⟨hpool, htaken⟩ := hinv.held lease hold hf
        exact ⟨hpool, fun hstill => htaken hstill.1⟩
    · refine List.Pairwise.cons ?_ hinv.apart
      intro lease hlease
      apply Set.disjoint_left.mpr
      intro f hnew hheld
      exact (hinv.held lease hlease hheld).2 (hrun hnew)

theorem Lease.giveUp_subset (lease : Lease Client) (client : Client) (frames : Set Nat) :
    (lease.giveUp client frames).frames ⊆ lease.frames :=
  fun _ hf => hf.1

/-- Frames that become free are held by the caller alone, so no lease is left with them. -/
theorem Inv.free_call (hinv : Inv pool s) {client : Client} {base : PhysAddr} {count : Word}
    (hpermits : s.Permits (.free client base count)) :
    Inv pool (s.after (.free client base count)) := by
  rw [after]
  cases hfree : s.allocator.free base count with
  | error f => exact hinv
  | ok a =>
      obtain ⟨start, length, _, rfl, hframes⟩ := FrameAllocator.free_eq_ok hinv.fits hfree
      constructor
      · exact hinv.fits.marked
      · rw [hframes]
        rintro f (hstill | ⟨hgiven, _⟩)
        · exact ⟨(hinv.free hstill).1, fun hin => (hinv.free hstill).2 hin.1⟩
        · obtain ⟨lease, hlease, _, hheld⟩ := hpermits f hgiven
          exact ⟨(hinv.held lease hlease hheld).1.1, fun hin => hin.2 hgiven⟩
      · rw [hframes]
        intro left hleft f hf
        obtain ⟨lease, hlease, rfl⟩ := List.mem_map.mp hleft
        obtain ⟨hpool, htaken⟩ := hinv.held lease hlease hf.1
        refine ⟨hpool, ?_⟩
        rintro (hstill | ⟨hgiven, _⟩)
        · exact htaken hstill
        · obtain ⟨other, hother, hholder, hheld⟩ := hpermits f hgiven
          by_cases hsame : lease.holder = client
          · exact hf.2 ⟨hsame, hgiven⟩
          -- the frame is on a lease of the caller, so on no lease of anyone else
          · have hne : lease ≠ other := fun heq => hsame (heq ▸ hholder)
            have hapart := hinv.apart.forall hlease hother hne
            exact Set.disjoint_left.mp hapart hf.1 hheld
      · rw [List.pairwise_map]
        exact hinv.apart.imp fun hapart =>
          hapart.mono (Lease.giveUp_subset ..) (Lease.giveUp_subset ..)

theorem Inv.reserve_call (hinv : Inv pool s) (client : Client) (base : PhysAddr) (count : Word) :
    Inv pool (s.after (.reserve client base count)) := by
  rw [after]
  cases hreserve : s.allocator.reserve base count with
  | error f => exact hinv
  | ok a =>
      obtain ⟨start, length, _, rfl, hframes⟩ := FrameAllocator.reserve_eq_ok hinv.fits hreserve
      constructor
      · exact hinv.fits.marked
      · rw [hframes]
        rintro f ⟨hstill, hout⟩
        refine ⟨(hinv.free hstill).1, ?_⟩
        rintro (hbefore | hnow)
        · exact (hinv.free hstill).2 hbefore
        · exact hout hnow
      · rw [hframes]
        intro lease hlease f hf
        obtain ⟨hpool, htaken⟩ := hinv.held lease hlease hf
        exact ⟨hpool, fun hstill => htaken hstill.1⟩
      · exact hinv.apart

theorem Reached.inv {a : FrameAllocator} (hfits : a.Fits) (hreached : Reached a s) :
    Inv a.freeFrames s := by
  induction hreached with
  | start => exact inv_start hfits
  | call _ request hpermits ih =>
      cases request with
      | alloc client count => exact ih.alloc client count
      | free client base count => exact ih.free_call hpermits
      | reserve client base count => exact ih.reserve_call client base count

end Inv

end Tenancy

/-- However the calls of the clients are interleaved, no frame is on two leases.  Frames on lease
lie in one usable region as a whole, are not frame 0 and have their bits set.  No allocation answers
frames that were set aside and not given back since, or that hold the bitmap. -/
theorem frames_leased_once {Client : Type} {map : MemoryMap} {a : FrameAllocator}
    {hidden : Set Nat} (hfresh : FrameAllocator.Fresh map a hidden) {s : Tenancy Client}
    (hreached : Tenancy.Reached a s) :
    s.leases.Pairwise Lease.Apart ∧
      (∀ lease ∈ s.leases, ∀ f ∈ lease.frames, f ≠ 0 ∧ (∃ r ∈ map.usable, r.Holds f) ∧
        f ∈ s.allocator.tracked ∧ s.allocator.taken (f - s.allocator.first) = true) ∧
      ∀ count base a', s.allocator.alloc count = (.ok base, a') →
        Disjoint (runFrames base count) (s.reserved ∪ hidden) := by
  obtain ⟨hfits, hpool⟩ := hfresh.spec
  have hinv := hreached.inv hfits
  refine ⟨hinv.apart, ?_, ?_⟩
  · intro lease hlease f hf
    obtain ⟨⟨hfrom, htracked⟩, hnotFree⟩ := hinv.held lease hlease hf
    rw [hpool] at hfrom
    obtain ⟨hzero, _, hholds⟩ := hfrom
    refine ⟨hzero, hholds, htracked, ?_⟩
    by_contra hclear
    exact hnotFree ⟨htracked, Bool.eq_false_iff.mpr hclear⟩
  · intro count base a' halloc
    have hrun := (FrameAllocator.alloc_eq_ok hinv.fits halloc).2.2.1
    rw [Set.disjoint_left]
    intro f hf
    obtain ⟨hfrom, hunreserved⟩ := hinv.free (hrun hf)
    rw [hpool] at hfrom
    rintro (hreserved | hhidden)
    · exact hunreserved hreserved
    · exact hfrom.2.1 hhidden

def fourFrames : MemoryMap :=
  ⟨[⟨⟨0⟩, 0x4000, .usable⟩], none⟩

/-- Two clients on a small map: one holds frames 1 and 2, the other set frame 3 aside. -/
theorem frames_leased_once_on_fourFrames :
    ∃ a log', FrameAllocator.overStorage fourFrames ⟨#[0]⟩ #[] = .ok a log' ∧
      let s : Tenancy Nat :=
        ((Tenancy.start a).after (.alloc 0 2)).after (.reserve 1 ⟨0x3000⟩ 1)
      s.leases = [⟨0, runFrames ⟨0x1000⟩ 2⟩] ∧ s.leases.Pairwise Lease.Apart ∧
        (∀ f ∈ runFrames ⟨0x1000⟩ 2, f ≠ 0 ∧ s.allocator.taken f = true) ∧
        ∀ count base a', s.allocator.alloc count = (.ok base, a') →
          Disjoint (runFrames base count) s.reserved := by
  have hrun : FrameAllocator.overStorage fourFrames ⟨#[0]⟩ #[] =
      .ok ⟨⟨⟨#[0xF1]⟩, 0⟩, ⟨0⟩, 4, 0⟩ _ := rfl
  have hfresh : FrameAllocator.Fresh fourFrames ⟨⟨⟨#[0xF1]⟩, 0⟩, ⟨0⟩, 4, 0⟩ ∅ := .lent hrun
  have hreached : Tenancy.Reached ⟨⟨⟨#[0xF1]⟩, 0⟩, ⟨0⟩, 4, 0⟩
      (((Tenancy.start _ : Tenancy Nat).after (.alloc 0 2)).after (.reserve 1 ⟨0x3000⟩ 1)) :=
    .call (.call .start (.alloc 0 2) trivial) (.reserve 1 ⟨0x3000⟩ 1) trivial
  obtain ⟨hapart, hleases, halloc⟩ := frames_leased_once hfresh hreached
  refine ⟨_, _, hrun, rfl, hapart, ?_, ?_⟩
  · intro f hf
    obtain ⟨hzero, _, _, htaken⟩ := hleases ⟨0, runFrames ⟨0x1000⟩ 2⟩ List.mem_cons_self f hf
    exact ⟨hzero, htaken⟩
  · intro count base a' hcount
    exact (halloc count base a' hcount).mono_right Set.subset_union_left

end BootMemory
