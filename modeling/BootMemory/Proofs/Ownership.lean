import BootMemory.Proofs.Mapping
import BootMemory.Proofs.Release

/-!
# Who owns which frames

Any number of spaces and clients share the frames.  Each live space owns its tables, clients own
the frames they hold, and no owned frame is free or has a second owner.  Every operation changes
frames of one owner only, or frames that were free, so all other spaces look their pages up as
before.
-/

namespace BootMemory

namespace View

/-- The live spaces with the roots `roots` own their tables and look pages up as `maps` says, and
clients own the frames `held`. -/
structure Owned (v : View) (roots : Nat → Option Nat) (held : Set Nat) (maps : Nat → PageMap) :
    Prop where
  sound : v.Sound
  tree : ∀ slot root, roots slot = some root → v.Tree root
  small : ∀ slot root, roots slot = some root → v.AllSmall root
  maps : ∀ slot root, roots slot = some root → v.Maps root (maps slot)
  apart : ∀ slot other root root', roots slot = some root → roots other = some root' →
    slot ≠ other → Disjoint (v.tables root) (v.tables root')
  plain : ∀ f ∈ held, v.layout.Plain f
  taken : ∀ f ∈ held, f ∉ v.free
  client : ∀ f ∈ held, ∀ slot root, roots slot = some root → f ∉ v.tables root

namespace Owned

variable {v w : View} {roots : Nat → Option Nat} {held held' : Set Nat} {maps : Nat → PageMap}
  {slot root : Nat}

theorem start (hsound : v.Sound) : v.Owned (fun _ => none) ∅ maps := by
  constructor
  · exact hsound
  all_goals simp

theorem of_sameTables (howned : v.Owned roots held maps) (hsound : w.Sound)
    (hsame : ∀ slot root, roots slot = some root → SameTables v w root)
    (hlayout : w.layout = v.layout)
    (hfree : ∀ slot root, roots slot = some root → ∀ t ∈ v.tables root, t ∉ w.free)
    (hplain : ∀ f ∈ held', v.layout.Plain f) (htaken : ∀ f ∈ held', f ∉ w.free)
    (hclient : ∀ f ∈ held', ∀ slot root, roots slot = some root → f ∉ v.tables root) :
    w.Owned roots held' maps := by
  constructor
  · exact hsound
  · intro slot root hroot
    exact (hsame slot root hroot).tree (howned.tree slot root hroot) (hfree slot root hroot)
  · intro slot root hroot
    exact (hsame slot root hroot).allSmall (howned.small slot root hroot)
  · intro slot root hroot
    exact (howned.maps slot root hroot).of_lookup_eq hlayout (hsame slot root hroot).lookup_eq
  · intro slot other root root' hroot hroot' hne
    rw [(hsame slot root hroot).tables_eq, (hsame other root' hroot').tables_eq]
    exact howned.apart slot other root root' hroot hroot' hne
  · rw [hlayout]
    exact hplain
  · exact htaken
  · intro f hf slot root hroot
    rw [(hsame slot root hroot).tables_eq]
    exact hclient f hf slot root hroot

theorem alloc (howned : v.Owned roots held maps) {f count : Nat}
    (hfree : Set.Ico f (f + count) ⊆ v.free) :
    (v.take f count).Owned roots (held ∪ Set.Ico f (f + count)) maps := by
  apply howned.of_sameTables (howned.sound.take f count)
  · exact fun slot root _ => .take v f count
  · rfl
  · intro slot root hroot t ht hin
    exact (howned.tree slot root hroot).taken t ht hin.1
  · rintro g (hg | hg)
    · exact howned.plain g hg
    · exact howned.sound.plain g (hfree hg)
  · rintro g (hg | hg) hin
    · exact howned.taken g hg hin.1
    · exact hin.2 hg
  · rintro g (hg | hg) slot root hroot hin
    · exact howned.client g hg slot root hroot hin
    · exact (howned.tree slot root hroot).taken g hin (hfree hg)

theorem reserve (howned : v.Owned roots held maps) (f count : Nat) :
    (v.take f count).Owned roots held maps := by
  apply howned.of_sameTables (howned.sound.take f count)
  · exact fun slot root _ => .take v f count
  · rfl
  · intro slot root hroot t ht hin
    exact (howned.tree slot root hroot).taken t ht hin.1
  · exact howned.plain
  · exact fun g hg hin => howned.taken g hg hin.1
  · exact howned.client

theorem free (howned : v.Owned roots held maps) {frames : Set Nat} (hheld : frames ⊆ held) :
    (v.give frames).Owned roots (held \ frames) maps := by
  apply howned.of_sameTables (howned.sound.give fun g hg _ => howned.plain g (hheld hg))
  · exact fun slot root _ => .give v frames
  · rfl
  · rintro slot root hroot t ht (hin | hin)
    · exact (howned.tree slot root hroot).taken t ht hin
    · exact howned.client t (hheld hin.1) slot root hroot ht
  · exact fun g hg => howned.plain g hg.1
  · rintro g hg (hin | hin)
    · exact howned.taken g hg.1 hin
    · exact hg.2 hin.1
  · exact fun g hg => howned.client g hg.1

theorem root_page (howned : v.Owned roots held maps) (hslot : roots slot = some root) :
    (frameBase root).page = root := by
  have hplain := (howned.tree slot root hslot).plain root (root_mem_tables _ root)
  exact page_frameBase (lt_trans (hplain.lt howned.sound.memory) (by decide))

/-- A client that writes in its own frames changes no table. -/
theorem sameTables_write (howned : v.Owned roots held maps) {a : Nat} {values : List UInt8}
    (hheld : ∀ k < values.length, (a + k) / 4096 ∈ held) (hslot : roots slot = some root) :
    SameTables v (v.write a values) root := by
  refine .of_bytes rfl ?_
  intro b hb
  apply byte_write_of_outside
  by_contra hinside
  rw [not_or, Nat.not_lt, Nat.not_le] at hinside
  have hin := hheld (b - a) (by omega)
  rw [show a + (b - a) = b by omega] at hin
  exact howned.client _ hin slot root hslot hb

theorem write (howned : v.Owned roots held maps) {a : Nat} {values : List UInt8}
    (hheld : ∀ k < values.length, (a + k) / 4096 ∈ held) :
    (v.write a values).Owned roots held maps := by
  apply howned.of_sameTables (howned.sound.write a values)
  · intro slot root hroot
    exact howned.sameTables_write hheld hroot
  · rfl
  · exact fun slot root hroot => (howned.tree slot root hroot).taken
  · exact howned.plain
  · exact howned.taken
  · exact howned.client

theorem insert (howned : v.Owned roots held maps) {pages : PageMap} (slot : Nat)
    (htree : v.Tree root) (hsmall : v.AllSmall root) (hmaps : v.Maps root pages)
    (hapart : ∀ other root', roots other = some root' →
      Disjoint (v.tables root) (v.tables root'))
    (hclient : ∀ f ∈ held, f ∉ v.tables root) :
    v.Owned (Function.update roots slot (some root)) held (Function.update maps slot pages) := by
  have hcases : ∀ other root', Function.update roots slot (some root) other = some root' →
      (other = slot ∧ root' = root) ∨ (other ≠ slot ∧ roots other = some root') := by
    intro other root' hroot'
    by_cases heq : other = slot
    · rw [heq, Function.update_self] at hroot'
      exact .inl ⟨heq, (Option.some.inj hroot').symm⟩
    · rw [Function.update_of_ne heq] at hroot'
      exact .inr ⟨heq, hroot'⟩
  constructor
  · exact howned.sound
  · intro other root' hroot'
    rcases hcases other root' hroot' with ⟨_, rfl⟩ | ⟨_, hold⟩
    · exact htree
    · exact howned.tree other root' hold
  · intro other root' hroot'
    rcases hcases other root' hroot' with ⟨_, rfl⟩ | ⟨_, hold⟩
    · exact hsmall
    · exact howned.small other root' hold
  · intro other root' hroot'
    rcases hcases other root' hroot' with ⟨rfl, rfl⟩ | ⟨hne, hold⟩
    · rw [Function.update_self]
      exact hmaps
    · rw [Function.update_of_ne hne]
      exact howned.maps other root' hold
  · intro one other root₁ root₂ hroot₁ hroot₂ hne
    rcases hcases one root₁ hroot₁ with ⟨rfl, rfl⟩ | ⟨_, hold₁⟩ <;>
      rcases hcases other root₂ hroot₂ with ⟨rfl, rfl⟩ | ⟨_, hold₂⟩
    · contradiction
    · exact hapart other root₂ hold₂
    · exact (hapart one root₁ hold₁).symm
    · exact howned.apart one other root₁ root₂ hold₁ hold₂ hne
  · exact howned.plain
  · exact howned.taken
  · intro f hf other root' hroot'
    rcases hcases other root' hroot' with ⟨_, rfl⟩ | ⟨_, hold⟩
    · exact hclient f hf
    · exact howned.client f hf other root' hold

theorem of_forgotten {other root' : Nat}
    (hroot' : Function.update roots slot none other = some root') :
    slot ≠ other ∧ roots other = some root' := by
  by_cases heq : slot = other
  · rw [heq, Function.update_self] at hroot'
    contradiction
  · rw [Function.update_of_ne (Ne.symm heq)] at hroot'
    exact ⟨heq, hroot'⟩

/-- A space that is given back, or only forgotten, takes nothing from the others. -/
theorem forget (howned : v.Owned roots held maps) (slot : Nat) :
    v.Owned (Function.update roots slot none) held maps where
  sound := howned.sound
  tree := fun other root hroot => howned.tree other root (of_forgotten hroot).2
  small := fun other root hroot => howned.small other root (of_forgotten hroot).2
  maps := fun other root hroot => howned.maps other root (of_forgotten hroot).2
  apart := fun one other root₁ root₂ hroot₁ hroot₂ =>
    howned.apart one other root₁ root₂ (of_forgotten hroot₁).2 (of_forgotten hroot₂).2
  plain := howned.plain
  taken := howned.taken
  client := fun f hf other root hroot => howned.client f hf other root (of_forgotten hroot).2

theorem forgotten_apart (howned : v.Owned roots held maps) (hslot : roots slot = some root)
    {other root' : Nat} (hroot' : Function.update roots slot none other = some root') :
    Disjoint (v.tables root) (v.tables root') := by
  obtain ⟨hne, hold⟩ := of_forgotten hroot'
  exact howned.apart slot other root root' hslot hold hne

theorem release (howned : v.Owned roots held maps) (hslot : roots slot = some root) :
    (v.give (v.tables root)).Owned (Function.update roots slot none) held maps := by
  have hforgot := howned.forget slot
  apply hforgot.of_sameTables
    (howned.sound.give fun t ht _ => (howned.tree slot root hslot).plain t ht)
  · exact fun other root' _ => .give v (v.tables root)
  · rfl
  · rintro other root' hroot' t ht (hin | hin)
    · exact (hforgot.tree other root' hroot').taken t ht hin
    · exact Set.disjoint_left.mp (howned.forgotten_apart hslot hroot') hin.1 ht
  · exact howned.plain
  · rintro f hf (hin | hin)
    · exact howned.taken f hf hin
    · exact howned.client f hf slot root hslot hin.1
  · exact hforgot.client

/-- Work in one space: the others are kept as if it were forgotten, and then it is added again. -/
theorem confined (howned : v.Owned roots held maps) (hslot : roots slot = some root)
    (hconfined : Confined root v w) (hsmall : w.AllSmall root) {pages : PageMap}
    (hmaps : w.Maps root pages) : w.Owned roots held (Function.update maps slot pages) := by
  have hforgot := howned.forget slot
  have hothers : w.Owned (Function.update roots slot none) held maps := by
    apply hforgot.of_sameTables (howned.sound.of_free_subset hconfined.layout hconfined.free)
    · intro other root' hroot'
      exact hconfined.sameTables (hforgot.tree other root' hroot')
        (howned.forgotten_apart hslot hroot')
    · exact hconfined.layout
    · intro other root' hroot' t ht hin
      exact (hforgot.tree other root' hroot').taken t ht (hconfined.free hin)
    · exact howned.plain
    · exact fun f hf hin => howned.taken f hf (hconfined.free hin)
    · exact hforgot.client
  have hback : Function.update (Function.update roots slot none) slot (some root) = roots := by
    rw [Function.update_idem, ← hslot, Function.update_eq_self]
  rw [← hback]
  apply hothers.insert slot hconfined.tree hsmall hmaps
  · intro other root' hroot'
    exact hconfined.disjoint_other (hforgot.tree other root' hroot')
      (howned.forgotten_apart hslot hroot')
  · intro f hf
    exact hconfined.not_mem_tables (howned.client f hf slot root hslot) (howned.taken f hf)

theorem grown (howned : v.Owned roots held maps) (hslot : roots slot = some root)
    (hgrown : Grown root v w) {pages : PageMap} (hmaps : w.Maps root pages) :
    w.Owned roots held (Function.update maps slot pages) :=
  howned.confined hslot hgrown.confined (hgrown.small (howned.small slot root hslot)) hmaps

end Owned

/-! ## A new space -/

def newRoot (v : View) (f : Nat) : View :=
  (v.take f 1).clear f 1

section NewRoot

variable {v : View} {f : Nat}

theorem tableAt_newRoot (v : View) (f : Nat) (q : Route) (depth : Nat) :
    (v.newRoot f).tableAt f q (depth + 1) = none := by
  have hchild : ∀ index, (v.newRoot f).child f index = none := by
    intro index
    rw [child, newRoot, entry_clear]
    rfl
  induction depth with
  | zero => exact hchild _
  | succ depth ih =>
      rw [tableAt, ih]
      rfl

theorem newRoot_reach {q : Route} {depth t : Nat}
    (hreach : (v.newRoot f).tableAt f q depth = some t) : depth = 0 ∧ t = f := by
  cases depth with
  | zero => exact ⟨rfl, (Option.some.inj hreach).symm⟩
  | succ depth =>
      rw [tableAt_newRoot] at hreach
      contradiction

theorem tables_newRoot (v : View) (f : Nat) : (v.newRoot f).tables f = {f} := by
  apply Set.Subset.antisymm
  · rintro t ⟨q, depth, _, hreach⟩
    exact (newRoot_reach hreach).2
  · rintro t rfl
    exact root_mem_tables _ t

theorem tree_newRoot (hplain : v.layout.Plain f) : (v.newRoot f).Tree f := by
  constructor
  · rw [tables_newRoot]
    rintro t rfl
    exact hplain
  · rw [tables_newRoot]
    rintro t rfl hfree
    exact hfree.2 (Set.mem_Ico.mpr ⟨le_refl t, Nat.lt_succ_self t⟩)
  · intro p q d e t _ _ hp hq
    obtain ⟨rfl, _⟩ := newRoot_reach hp
    obtain ⟨rfl, _⟩ := newRoot_reach hq
    exact ⟨rfl, fun k hk => absurd hk (Nat.not_lt_zero k)⟩

theorem allSmall_newRoot (v : View) (f : Nat) : (v.newRoot f).AllSmall f := by
  intro p d t i _ hreach hpresent
  obtain ⟨_, rfl⟩ := newRoot_reach hreach
  rw [newRoot, entry_clear] at hpresent
  contradiction

theorem maps_newRoot (v : View) (f : Nat) : (v.newRoot f).Maps f (fun _ => none) := by
  intro virt
  have hlast : ∃ depth, (v.newRoot f).layout.top - 1 = depth + 1 := by
    rcases (v.newRoot f).layout.top_eq with htop | htop
    · exact ⟨2, by omega⟩
    · exact ⟨3, by omega⟩
  obtain ⟨depth, hlast⟩ := hlast
  rw [lookup, hlast, tableAt_newRoot]
  rfl

section Owned

variable {roots : Nat → Option Nat} {held : Set Nat} {maps : Nat → PageMap}

theorem Owned.sameTables_newRoot (howned : v.Owned roots held maps) (hfree : f ∈ v.free)
    {slot root : Nat} (hslot : roots slot = some root) : SameTables v (v.newRoot f) root :=
  .take_clear fun hin => (howned.tree slot root hslot).taken f hin hfree

theorem Owned.newRoot (howned : v.Owned roots held maps) (hfree : f ∈ v.free) (slot : Nat) :
    (v.newRoot f).Owned (Function.update roots slot (some f)) held
      (Function.update maps slot fun _ => none) := by
  have hapart : ∀ other root, roots other = some root → f ∉ v.tables root :=
    fun other root hroot hin => (howned.tree other root hroot).taken f hin hfree
  have hsame : ∀ other root, roots other = some root → SameTables v (v.newRoot f) root :=
    fun other root hroot => howned.sameTables_newRoot hfree hroot
  have hkept : (v.newRoot f).Owned roots held maps := by
    apply howned.of_sameTables ((howned.sound.take f 1).write _ _) hsame rfl
    · intro other root hroot t ht hin
      exact (howned.tree other root hroot).taken t ht hin.1
    · exact howned.plain
    · exact fun g hg hin => howned.taken g hg hin.1
    · exact howned.client
  apply hkept.insert slot (tree_newRoot (howned.sound.plain f hfree)) (allSmall_newRoot v f)
    (maps_newRoot v f)
  · intro other root hroot
    rw [tables_newRoot, (hsame other root hroot).tables_eq, Set.disjoint_singleton_left]
    exact hapart other root hroot
  · rw [tables_newRoot]
    rintro g hg rfl
    exact howned.taken g hg hfree

end Owned

end NewRoot

end View

end BootMemory
