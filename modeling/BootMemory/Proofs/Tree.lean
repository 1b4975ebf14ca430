import BootMemory.Proofs.Entries
import BootMemory.Proofs.View

/-!
# Trees of tables

The tables of an address space are the frames that are reached from its root through entries that
lead to tables.  A route is an index for each level, and a space is a tree if no table is reached
by two routes that differ on the way.  Then writing one entry moves one page, and linking a fresh
cleared table under an entry that is not present moves none.
-/

namespace BootMemory

/-- A way down the tables: an index for each level. -/
abbrev Route := Nat → Fin 512

def Addr.route (virt : VirtAddr) : Route := fun level =>
  ⟨virt.tableIndex level, virt.tableIndex_lt level⟩

/-- The routes take the same `depth` steps from a root of level `top`. -/
def Route.Agree (top depth : Nat) (p q : Route) : Prop :=
  ∀ k < depth, p (top - k) = q (top - k)

instance (top depth : Nat) (p q : Route) : Decidable (Route.Agree top depth p q) :=
  inferInstanceAs (Decidable (∀ k < depth, p (top - k) = q (top - k)))

theorem Addr.agree_route_iff_tableIndex {top below : Nat} (hbelow : below ≤ top)
    (a b : VirtAddr) :
    Route.Agree top (top - below) a.route b.route ↔
      ∀ level, below < level → level ≤ top → a.tableIndex level = b.tableIndex level := by
  constructor
  · intro hagree level hlow hhigh
    have hstep := Fin.ext_iff.mp (hagree (top - level) (by omega))
    rwa [show top - (top - level) = level by omega] at hstep
  · intro hindices k hk
    exact Fin.ext (hindices (top - k) (by omega) (by omega))

theorem Route.Agree.mono {top depth lower : Nat} {p q : Route} (hagree : Agree top depth p q)
    (hle : lower ≤ depth) : Agree top lower p q :=
  fun k hk => hagree k (lt_of_lt_of_le hk hle)

theorem Route.agree_succ {top depth : Nat} {p q : Route} :
    Agree top (depth + 1) p q ↔ Agree top depth p q ∧ p (top - depth) = q (top - depth) := by
  constructor
  · intro hagree
    exact ⟨hagree.mono (Nat.le_succ depth), hagree depth (Nat.lt_succ_self depth)⟩
  · rintro ⟨hagree, hlast⟩ k hk
    rcases Nat.lt_succ_iff_lt_or_eq.mp hk with hlt | rfl
    · exact hagree k hlt
    · exact hlast

namespace View

def entry (v : View) (table : Nat) (index : Fin 512) : TableEntry :=
  ⟨v.word (table * 4096 + index * 8)⟩

def setEntry (v : View) (table : Nat) (index : Fin 512) (e : TableEntry) : View :=
  v.writeWord (table * 4096 + index * 8) e.bits

def child (v : View) (table : Nat) (index : Fin 512) : Option Nat :=
  if (v.entry table index).isPresent && !(v.entry table index).isLargePage then
    some (v.entry table index).frame
  else none

def tableAt (v : View) (root : Nat) (route : Route) : (depth : Nat) → Option Nat
  | 0 => some root
  | depth + 1 =>
      (tableAt v root route depth).bind fun table => v.child table (route (v.layout.top - depth))

/-- The tables of the space with a root. -/
def tables (v : View) (root : Nat) : Set Nat :=
  {t | ∃ route depth, depth < v.layout.top ∧ v.tableAt root route depth = some t}

def leafTarget (e : TableEntry) : Option (PhysAddr × EntryFlags) :=
  if e.isPresent then some (e.address, e.flags) else none

def lookup (v : View) (root : Nat) (route : Route) : Option (PhysAddr × EntryFlags) :=
  (v.tableAt root route (v.layout.top - 1)).bind fun table => leafTarget (v.entry table (route 1))

/-- The tables of a space are plain frames that are not free, and each is reached in one way. -/
structure Tree (v : View) (root : Nat) : Prop where
  plain : ∀ t ∈ v.tables root, v.layout.Plain t
  taken : ∀ t ∈ v.tables root, t ∉ v.free
  once : ∀ p q d e t, d < v.layout.top → e < v.layout.top →
    v.tableAt root p d = some t → v.tableAt root q e = some t →
      d = e ∧ Route.Agree v.layout.top d p q

/-- No large pages are entered in the tables of a space. -/
def AllSmall (v : View) (root : Nat) : Prop :=
  ∀ p d t i, d + 1 < v.layout.top → v.tableAt root p d = some t →
    (v.entry t i).isPresent = true → (v.entry t i).isLargePage = false

/-! ## Entries under writes -/

section Entries

variable {v w : View} {table other : Nat} {index : Fin 512}

theorem entry_congr (hbytes : ∀ a, a / 4096 = table → w.byte a = v.byte a) (index : Fin 512) :
    w.entry table index = v.entry table index := by
  have hindex := index.isLt
  unfold entry word
  congr 3
  apply List.map_congr_left
  intro k hk
  rw [List.mem_range] at hk
  exact hbytes _ (by omega)

theorem entry_setEntry (v : View) (table : Nat) (index : Fin 512) (e : TableEntry) :
    (v.setEntry table index e).entry table index = e :=
  congrArg TableEntry.mk (word_writeWord v _ e.bits)

theorem entry_setEntry_of_ne {i : Fin 512} {e : TableEntry}
    (hne : table ≠ other ∨ index ≠ i) :
    (v.setEntry table index e).entry other i = v.entry other i := by
  have hindex := index.isLt
  have hi := i.isLt
  have hslots : table ≠ other ∨ index.val ≠ i.val := by
    rcases hne with hne | hne
    · exact .inl hne
    · exact .inr fun heq => hne (Fin.ext heq)
  apply congrArg TableEntry.mk
  apply word_writeWord_of_disjoint
  omega

theorem byte_setEntry_of_ne {e : TableEntry} {a : Nat} (hne : a / 4096 ≠ table) :
    (v.setEntry table index e).byte a = v.byte a := by
  have hindex := index.isLt
  apply byte_write_of_outside
  rw [length_toLittleEndian]
  omega

theorem entry_clear (v : View) (table : Nat) (index : Fin 512) :
    (v.clear table 1).entry table index = ⟨0⟩ := by
  have hindex := index.isLt
  apply congrArg TableEntry.mk
  apply word_clear_of_inside <;> omega

theorem entry_clear_of_ne (hne : table ≠ other) (index : Fin 512) :
    (v.clear table 1).entry other index = v.entry other index := by
  apply entry_congr
  intro a ha
  rw [byte_clear, if_neg (by omega)]

theorem child_congr (hentry : w.entry table index = v.entry table index) :
    w.child table index = v.child table index := by
  unfold child
  rw [hentry]

end Entries

/-! ## Walking -/

section Walking

variable {v w : View} {root : Nat} {p q : Route}

theorem tableAt_congr {depth : Nat} (hagree : Route.Agree v.layout.top depth p q) :
    v.tableAt root p depth = v.tableAt root q depth := by
  induction depth with
  | zero => rfl
  | succ depth ih =>
      rw [Route.agree_succ] at hagree
      rw [tableAt, tableAt, ih hagree.1, hagree.2]

theorem tableAt_succ_eq_some {depth t : Nat} (hreach : v.tableAt root p (depth + 1) = some t) :
    ∃ parent, v.tableAt root p depth = some parent ∧
      v.child parent (p (v.layout.top - depth)) = some t :=
  Option.bind_eq_some_iff.mp hreach

theorem mem_tables {depth t : Nat} (hdepth : depth < v.layout.top)
    (hreach : v.tableAt root p depth = some t) : t ∈ v.tables root :=
  ⟨p, depth, hdepth, hreach⟩

theorem root_mem_tables (v : View) (root : Nat) : root ∈ v.tables root := by
  have htop : 0 < v.layout.top := by
    rcases v.layout.top_eq with htop | htop <;> omega
  exact ⟨fun _ => 0, 0, htop, rfl⟩

/-- Entries of tables above the lowest level decide what is reached. -/
theorem tableAt_eq_of_entries (hlayout : w.layout = v.layout)
    (hentry : ∀ p d t, d + 1 < v.layout.top → v.tableAt root p d = some t →
      w.child t (p (v.layout.top - d)) = v.child t (p (v.layout.top - d)))
    (p : Route) {depth : Nat} (hdepth : depth < v.layout.top) :
    w.tableAt root p depth = v.tableAt root p depth := by
  induction depth with
  | zero => rfl
  | succ depth ih =>
      rw [tableAt, tableAt, ih (by omega), hlayout]
      apply Option.bind_congr
      intro t hreach
      exact hentry p depth t hdepth hreach

end Walking

theorem lookup_congr {v : View} {root : Nat} {p q : Route}
    (hagree : Route.Agree v.layout.top v.layout.top p q) : v.lookup root p = v.lookup root q := by
  have htop : 0 < v.layout.top := by
    rcases v.layout.top_eq with htop | htop <;> omega
  have hlast := hagree (v.layout.top - 1) (by omega)
  rw [show v.layout.top - (v.layout.top - 1) = 1 by omega] at hlast
  rw [lookup, lookup, tableAt_congr (hagree.mono (Nat.sub_le _ 1)), hlast]

/-- Two views in which the tables of a space have the same entries. -/
structure SameTables (v w : View) (root : Nat) : Prop where
  layout : w.layout = v.layout
  entry : ∀ t ∈ v.tables root, ∀ i, w.entry t i = v.entry t i

namespace SameTables

variable {v w : View} {root : Nat}

theorem of_bytes (hlayout : w.layout = v.layout)
    (hbytes : ∀ a, a / 4096 ∈ v.tables root → w.byte a = v.byte a) : SameTables v w root where
  layout := hlayout
  entry := fun _ ht => entry_congr fun a ha => hbytes a (ha ▸ ht)

theorem tableAt_eq (hsame : SameTables v w root) (p : Route) {depth : Nat}
    (hdepth : depth < v.layout.top) : w.tableAt root p depth = v.tableAt root p depth := by
  apply tableAt_eq_of_entries hsame.layout ?_ p hdepth
  intro p d t hd hreach
  exact child_congr (hsame.entry t (mem_tables (by omega) hreach) _)

theorem tables_eq (hsame : SameTables v w root) : w.tables root = v.tables root := by
  ext t
  constructor
  · rintro ⟨p, d, hd, hreach⟩
    rw [hsame.layout] at hd
    exact ⟨p, d, hd, (hsame.tableAt_eq p hd).symm.trans hreach⟩
  · rintro ⟨p, d, hd, hreach⟩
    exact ⟨p, d, by rwa [hsame.layout], (hsame.tableAt_eq p hd).trans hreach⟩

theorem lookup_eq (hsame : SameTables v w root) (p : Route) :
    w.lookup root p = v.lookup root p := by
  have htop : v.layout.top - 1 < v.layout.top := by
    rcases v.layout.top_eq with htop | htop <;> omega
  rw [lookup, lookup, hsame.layout, hsame.tableAt_eq p htop]
  apply Option.bind_congr
  intro t hreach
  rw [hsame.entry t (mem_tables htop hreach)]

theorem tree (hsame : SameTables v w root) (htree : v.Tree root)
    (htaken : ∀ t ∈ v.tables root, t ∉ w.free) : w.Tree root := by
  constructor
  · rw [hsame.tables_eq, hsame.layout]
    exact htree.plain
  · rw [hsame.tables_eq]
    exact htaken
  · intro p q d e t hd he hp hq
    rw [hsame.layout] at hd he ⊢
    rw [hsame.tableAt_eq p hd] at hp
    rw [hsame.tableAt_eq q he] at hq
    exact htree.once p q d e t hd he hp hq

theorem allSmall (hsame : SameTables v w root) (hsmall : v.AllSmall root) : w.AllSmall root := by
  intro p d t i hd hreach
  rw [hsame.layout] at hd
  rw [hsame.tableAt_eq p (by omega)] at hreach
  rw [hsame.entry t (mem_tables (by omega) hreach)]
  exact hsmall p d t i hd hreach

theorem take (v : View) (f count : Nat) : SameTables v (v.take f count) root :=
  .of_bytes rfl (fun _ _ => rfl)

theorem give (v : View) (frames : Set Nat) : SameTables v (v.give frames) root :=
  .of_bytes rfl (fun _ _ => rfl)

theorem take_clear {f : Nat} (hf : f ∉ v.tables root) :
    SameTables v ((v.take f 1).clear f 1) root := by
  refine .of_bytes rfl ?_
  intro a ha
  rw [byte_clear, if_neg]
  · rfl
  · intro hin
    exact hf (by rwa [show f = a / 4096 by omega])

end SameTables

theorem Tree.take {v : View} {root : Nat} (htree : v.Tree root) (f count : Nat) :
    (v.take f count).Tree root :=
  (SameTables.take v f count).tree htree fun t ht hin => htree.taken t ht hin.1

end View

end BootMemory
