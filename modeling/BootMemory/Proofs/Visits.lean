import Mathlib
import BootMemory.Packing

/-!
# The files that packing finds

Packing comes to the files and directories of a tree that no hidden name leads to, and to nothing
else.  It comes to them in the order of the lists of names that lead to them, where names are
compared byte by byte and a directory stands before what is in it, so no visit is made twice.
-/

namespace BootMemory

namespace FileTree

/-- A tree as it can lie on a disk: the names in a directory differ and can stand between slashes,
and the size of a file is a 64-bit number. -/
inductive Proper : FileTree → Prop
  | file {contents : ByteArray} (hsize : contents.size < 2 ^ 64) : Proper (.file contents)
  | directory {entries : List (FileName × FileTree)} (hnodup : (entries.map Prod.fst).Nodup)
      (hnames : ∀ entry ∈ entries, entry.1 ≠ [] ∧ Path.slash ∉ entry.1)
      (hnodes : ∀ entry ∈ entries, Proper entry.2) : Proper (.directory entries)
  | link (target : Path) : Proper (.link target)
  | special : Proper .special

theorem at?_concat (t : FileTree) (place : Place) (name : FileName) :
    t.at? (place ++ [name]) = (t.entry? name).bind fun node => node.at? place := by
  induction place with
  | nil => simp [at?]
  | cons last above ih => simp [at?, ih, Option.bind_assoc]

theorem lookup_eq_some {entries : List (FileName × FileTree)}
    (hnodup : (entries.map Prod.fst).Nodup) {name : FileName} {node : FileTree} :
    entries.lookup name = some node ↔ (name, node) ∈ entries := by
  induction entries with
  | nil => simp
  | cons entry entries ih =>
      obtain ⟨other, sibling⟩ := entry
      simp only [List.map_cons, List.nodup_cons] at hnodup
      rw [List.lookup_cons, List.mem_cons]
      by_cases hname : name = other
      · subst hname
        have hrest : (name, node) ∉ entries := fun hmem =>
          hnodup.1 (List.mem_map.mpr ⟨_, hmem, rfl⟩)
        simp [hrest, eq_comm]
      · have hkey : (name == other) = false := by simpa using hname
        simp [hname, hkey, ih hnodup.2]

/-- What lies in a proper tree is proper, and so are the names that lead to it. -/
theorem Proper.of_at? {t node : FileTree} (ht : t.Proper) {place : Place}
    (hat : t.at? place = some node) :
    node.Proper ∧ ∀ name ∈ place, name ≠ [] ∧ Path.slash ∉ name := by
  induction place generalizing node with
  | nil =>
      cases hat
      exact ⟨ht, by simp⟩
  | cons name above ih =>
      obtain ⟨parent, habove, hentry⟩ := Option.bind_eq_some_iff.mp hat
      obtain ⟨hparent, hnames⟩ := ih habove
      cases hparent with
      | file | link | special => cases hentry
      | directory hnodup hproper hnodes =>
          have hmem := (lookup_eq_some hnodup).mp hentry
          exact ⟨hnodes _ hmem, List.forall_mem_cons.mpr ⟨hproper _ hmem, hnames⟩⟩

/-! ## Which visits are made -/

theorem visitsByName_eq (entries : List (FileName × FileTree)) :
    visitsByName entries = (entries.filter fun entry => !isHidden entry.1).map fun entry =>
      (entry.1, entry.2.visits.map (Visit.under entry.1)) := by
  induction entries with
  | nil => rfl
  | cons entry entries ih =>
      obtain ⟨name, node⟩ := entry
      rw [visitsByName, ih]
      cases hhidden : isHidden name <;> simp [hhidden]

theorem mem_visitsByName {entries : List (FileName × FileTree)}
    {block : FileName × List Visit} : block ∈ visitsByName entries ↔
      ∃ name node, (name, node) ∈ entries ∧ isHidden name = false ∧
        block = (name, node.visits.map (Visit.under name)) := by
  simp [visitsByName_eq, and_assoc, eq_comm (a := block)]

theorem mem_visits_directory {entries : List (FileName × FileTree)} {v : Visit} :
    v ∈ (directory entries).visits ↔ v = ⟨[], none⟩ ∨
      ∃ name node, (name, node) ∈ entries ∧ isHidden name = false ∧
        ∃ u ∈ node.visits, u.under name = v := by
  simp only [visits, List.mem_cons, List.mem_flatMap, List.mem_mergeSort, mem_visitsByName]
  apply or_congr_right
  constructor
  · rintro ⟨_, ⟨name, node, hentry, hshown, rfl⟩, hmem⟩
    exact ⟨name, node, hentry, hshown, List.mem_map.mp hmem⟩
  · rintro ⟨name, node, hentry, hshown, hmem⟩
    exact ⟨_, ⟨name, node, hentry, hshown, rfl⟩, List.mem_map.mpr hmem⟩

/-- The visit is one of a file with these contents, or of a directory. -/
def seenBy (v : Visit) : FileTree → Prop
  | .file contents => v.contents? = some contents
  | .directory _ => v.contents? = none
  | _ => False

theorem mem_visits {t : FileTree} (ht : t.Proper) {v : Visit} :
    v ∈ t.visits ↔ (∀ name ∈ v.names, isHidden name = false) ∧
      ∃ node, t.at? v.names.reverse = some node ∧ seenBy v node := by
  -- Only a directory leads on, by one name of the visit at a time.
  induction ht generalizing v with
  | file | link | special =>
      obtain ⟨names, contents?⟩ := v
      cases names <;> simp [visits, at?, at?_concat, entry?, seenBy]
  | @directory entries hnodup _ _ ih =>
      obtain ⟨names, contents?⟩ := v
      rw [mem_visits_directory]
      cases names with
      | nil => simp [at?, seenBy, Visit.under]
      | cons name names =>
          simp only [List.reverse_cons, at?_concat, entry?, Option.bind_eq_some_iff,
            lookup_eq_some hnodup, List.forall_mem_cons]
          constructor
          · rintro (hempty | ⟨_, child, hentry, hshown, ⟨_, _⟩, hu, heq⟩)
            · cases hempty
            · cases heq
              obtain ⟨hnames, node, hat, hsees⟩ := (ih _ hentry).mp hu
              exact ⟨⟨hshown, hnames⟩, node, ⟨child, hentry, hat⟩, hsees⟩
          · rintro ⟨⟨hshown, hnames⟩, node, ⟨child, hentry, hat⟩, hsees⟩
            exact .inr ⟨name, child, hentry, hshown, ⟨names, contents?⟩,
              (ih _ hentry).mpr ⟨hnames, node, hat, hsees⟩, rfl⟩

/-! ## Their order -/

theorem FileName.lt_of_le_of_ne {a b : FileName} (hle : a ≤ b) (hne : a ≠ b) : a < b := by
  by_contra hlt
  exact hne (List.le_antisymm hle hlt)

theorem pairwise_sorted {α : Type} {entries : List (FileName × α)}
    (hnodup : (entries.map Prod.fst).Nodup) :
    (entries.mergeSort namedInOrder).Pairwise fun a b => a.1 < b.1 := by
  have hsorted : (entries.mergeSort namedInOrder).Pairwise fun a b => namedInOrder a b := by
    apply List.pairwise_mergeSort
    · simp only [namedInOrder, decide_eq_true_eq]
      intro a b c
      exact List.le_trans
    · simp only [namedInOrder, Bool.or_eq_true, decide_eq_true_eq]
      intro a b
      exact List.le_total a.1 b.1
  have hapart : (entries.mergeSort namedInOrder).Pairwise fun a b => a.1 ≠ b.1 := by
    have hperm := (List.mergeSort_perm entries namedInOrder).map Prod.fst
    exact List.pairwise_map.mp (hperm.nodup_iff.mpr hnodup)
  refine (hsorted.and hapart).imp ?_
  rintro a b ⟨hle, hne⟩
  exact FileName.lt_of_le_of_ne (of_decide_eq_true hle) hne

theorem pairwise_visits {t : FileTree} (ht : t.Proper) :
    t.visits.Pairwise fun v w => v.names < w.names := by
  induction ht with
  | file | link | special => simp [visits]
  | @directory entries hnodup _ _ ih =>
      have hkeys : ((visitsByName entries).map Prod.fst).Nodup := by
        rw [visitsByName_eq, List.map_map]
        exact hnodup.sublist (List.filter_sublist.map _)
      have hblock (block : FileName × List Visit)
          (hmem : block ∈ (visitsByName entries).mergeSort namedInOrder) :
          ∃ node, (block.1, node) ∈ entries ∧
            block.2 = node.visits.map (Visit.under block.1) := by
        obtain ⟨name, node, hentry, _, rfl⟩ := mem_visitsByName.mp (List.mem_mergeSort.mp hmem)
        exact ⟨node, hentry, rfl⟩
      have hnames (block : FileName × List Visit)
          (hmem : block ∈ (visitsByName entries).mergeSort namedInOrder) :
          ∀ v ∈ block.2, ∃ names, v.names = block.1 :: names := by
        obtain ⟨node, _, hvisits⟩ := hblock block hmem
        simp [hvisits, Visit.under]
      rw [visits, List.pairwise_cons, List.pairwise_flatMap]
      refine ⟨?_, ?_, ?_⟩
      · intro v hv
        obtain ⟨block, hmem, hin⟩ := List.mem_flatMap.mp hv
        obtain ⟨names, hv⟩ := hnames block hmem v hin
        simp [hv]
      · intro block hmem
        obtain ⟨node, hentry, hvisits⟩ := hblock block hmem
        rw [hvisits, List.pairwise_map]
        exact (ih _ hentry).imp fun hlt => by simpa [Visit.under] using hlt
      · refine (pairwise_sorted hkeys).imp_of_mem ?_
        intro a b ha hb hlt v hv w hw
        obtain ⟨_, hv⟩ := hnames a ha v hv
        obtain ⟨_, hw⟩ := hnames b hb w hw
        simp [hv, hw, List.cons_lt_cons_iff, hlt]

/-! ## The files among them -/

/-- The regular files of a tree that no hidden name leads to.  The lists of names are in
lexicographic order, which is the order depth first with the names in each directory sorted. -/
structure Lists (t : FileTree) (found : List FoundFile) : Prop where
  mem (f : FoundFile) : f ∈ found ↔
    (∀ name ∈ f.names, isHidden name = false) ∧ t.at? f.names.reverse = some (.file f.contents)
  ordered : found.Pairwise fun f g => f.names < g.names

theorem file?_eq_some {v : Visit} {f : FoundFile} :
    v.file? = some f ↔ v = ⟨f.names, some f.contents⟩ := by
  obtain ⟨names, contents?⟩ := v
  obtain ⟨others, contents⟩ := f
  cases contents? <;> simp [Visit.file?]

theorem lists_found {t : FileTree} (ht : t.Proper) : t.Lists t.found where
  mem f := by
    have hsees (node : FileTree) :
        seenBy ⟨f.names, some f.contents⟩ node ↔ node = .file f.contents := by
      cases node <;> simp [seenBy, eq_comm]
    simp only [found, List.mem_filterMap, file?_eq_some, exists_eq_right, mem_visits ht, hsees]
  ordered := by
    refine (pairwise_visits ht).filterMap _ ?_
    intro v w hlt f hf g hg
    rw [file?_eq_some] at hf hg
    simpa [hf, hg] using hlt

/-- The directory that `names` lead to is there and is not left out. -/
def Reads (t : FileTree) (names : List FileName) : Prop :=
  (∀ name ∈ names, isHidden name = false) ∧
    ∃ entries, t.at? names.reverse = some (.directory entries)

theorem reads_iff {t : FileTree} (ht : t.Proper) {names : List FileName} :
    t.Reads names ↔ ∃ v ∈ t.visits.filter Visit.isDirectory, v.names = names := by
  have hsees (node : FileTree) :
      seenBy ⟨names, none⟩ node ↔ ∃ entries, node = .directory entries := by
    cases node <;> simp [seenBy]
  have hvisit : (∃ v ∈ t.visits.filter Visit.isDirectory, v.names = names) ↔
      ⟨names, none⟩ ∈ t.visits := by
    simp only [List.mem_filter, Visit.isDirectory, Option.isNone_iff_eq_none]
    constructor
    · rintro ⟨⟨_, _⟩, ⟨hmem, rfl⟩, rfl⟩
      exact hmem
    · intro hmem
      exact ⟨_, ⟨hmem, rfl⟩, rfl⟩
  rw [hvisit, mem_visits ht]
  simp [Reads, hsees]

end FileTree

end BootMemory
