import Mathlib
import BootMemory.Proofs.PathNames
import BootMemory.Proofs.Visits

/-!
# Packing a tree

Packing opens the directories first and then goes through the files in order.  A file whose name
is not text or is too long for a record, or that cannot be opened, ends it, and what has been put
out by then are the records of the files before.  If there is none, the archive is read as the
files that were found.
-/

namespace BootMemory

theorem FileSystem.bytes_ne_nil_of_find? {files : FileSystem} {root : Path} {node : FileTree}
    (hfind : files.find? root = some node) : root.bytes ≠ [] := by
  intro hempty
  simp [FileSystem.find?, FileSystem.locate, hempty] at hfind

namespace Packing

/-- The node that `names` lead to from `root` has a path that is not too long. -/
def Opens (root : Path) (names : List FileName) : Prop :=
  (names.foldl Path.join root).bytes.length ≤ maxPathLength

structure Packable (root : Path) (f : FoundFile) : Prop where
  text : (archiveName f.names).toByteArray.IsValidUTF8
  short : (archiveName f.names).length ≤ Archive.maxNameLength
  opens : Opens root f.names

/-- The file in an archive that a file of the tree becomes. -/
def archived (f : FoundFile) : ArchiveFile :=
  ⟨(Text.ofBytes? (archiveName f.names)).getD "", f.contents⟩

variable {root : Path} {f : FoundFile} {names : List FileName} {p : Packed}

theorem run_openBelow_of_opens (hopens : Opens root names) :
    (openBelow root names).run p = .ok ⟨⟩ p := by
  rw [openBelow, if_neg (by simpa [Path.isTooLong, Opens] using hopens), EStateM.run_pure]

theorem run_openBelow_of_not_opens (hopens : ¬Opens root names) :
    (openBelow root names).run p = .error (.unreadable .nameTooLong) p := by
  rw [openBelow, if_pos (by simpa [Path.isTooLong, Opens] using hopens), EStateM.run_throw]

/-- Opening all directories changes nothing, and fails if one of them cannot be opened. -/
theorem run_openAll (root : Path) (p : Packed) (visits : List Visit) :
    (visits.forM fun v => openBelow root v.names).run p = .ok ⟨⟩ p ∧
        (∀ v ∈ visits, Opens root v.names) ∨
      (visits.forM fun v => openBelow root v.names).run p = .error (.unreadable .nameTooLong) p ∧
        ∃ v ∈ visits, ¬Opens root v.names := by
  induction visits with
  | nil => exact .inl ⟨rfl, by simp⟩
  | cons v visits ih =>
      simp only [List.forM, EStateM.run_bind]
      by_cases hopens : Opens root v.names
      · rw [run_openBelow_of_opens hopens]
        simpa [hopens] using ih
      · rw [run_openBelow_of_not_opens hopens]
        exact .inr ⟨rfl, v, by simp, hopens⟩

/-! ## One file -/

/-- A file as a proper tree can have it where no hidden name leads to. -/
structure IsFound (f : FoundFile) : Prop where
  names : ∀ name ∈ f.names, name ≠ [] ∧ Path.slash ∉ name ∧ isHidden name = false
  size : f.contents.size < 2 ^ 64

theorem isFound_of_mem_found {t : FileTree} (ht : t.Proper) (hf : f ∈ t.found) : IsFound f := by
  obtain ⟨hshown, hat⟩ := ((FileTree.lists_found ht).mem f).mp hf
  obtain ⟨hfile, hnames⟩ := ht.of_at? hat
  constructor
  · intro name hname
    have hproper := hnames name (List.mem_reverse.mpr hname)
    exact ⟨hproper.1, hproper.2, hshown name hname⟩
  · cases hfile
    assumption

theorem Packable.text_archived (hf : Packable root f) :
    Text.ofBytes? (archiveName f.names) = some (archived f).name := by
  cases htext : Text.ofBytes? (archiveName f.names) with
  | none => exact absurd hf.text (Text.ofBytes?_eq_none.mp htext)
  | some name => simp [archived, htext]

theorem Packable.fits (hf : Packable root f) (hfound : IsFound f) :
    Archive.Fits (archived f) where
  name := by
    rw [Text.utf8ByteSize_of_ofBytes? hf.text_archived]
    exact hf.short
  contents := hfound.size

theorem run_append_of_short (file : ArchiveFile)
    (hshort : file.name.utf8ByteSize ≤ Archive.maxNameLength) :
    (append file).run p = .ok ⟨⟩ { p with out := p.out ++ Archive.encoded file } := by
  rw [append, Archive.record_eq_ok hshort]
  rfl

theorem run_append_of_long (file : ArchiveFile)
    (hlong : Archive.maxNameLength < file.name.utf8ByteSize) :
    (append file).run p = .error (.format (.nameTooLong file.name.utf8ByteSize)) p := by
  rw [append, Archive.record_eq_error hlong]
  rfl

theorem run_packFile_of_packable (hroot : root.bytes ≠ []) (hfound : IsFound f)
    (hf : Packable root f) : (packFile root f).run p =
      .ok ⟨⟩ ⟨p.out ++ Archive.encoded (archived f), p.lines.push (fileLine (archived f))⟩ := by
  rw [packFile, nameBelow_foldl_join hroot hfound.names, hf.text_archived]
  simp only [EStateM.run_bind, run_openBelow_of_opens hf.opens, EStateM.run_modify]
  exact run_append_of_short _ (hf.fits hfound).name

/-- A file that cannot be packed adds nothing to the output. -/
theorem run_packFile_of_not_packable (hroot : root.bytes ≠ []) (hfound : IsFound f)
    (hf : ¬Packable root f) : ∃ e lines, (packFile root f).run p = .error e ⟨p.out, lines⟩ := by
  rw [packFile, nameBelow_foldl_join hroot hfound.names]
  cases htext : Text.ofBytes? (archiveName f.names) with
  | none => exact ⟨_, p.lines, rfl⟩
  | some name =>
      simp only [EStateM.run_bind]
      by_cases hopens : Opens root f.names
      · have hlong : Archive.maxNameLength < name.utf8ByteSize := by
          by_contra hshort
          rw [Text.utf8ByteSize_of_ofBytes? htext, Nat.not_lt] at hshort
          exact hf ⟨Text.isValidUTF8_of_ofBytes? htext, hshort, hopens⟩
        simp only [run_openBelow_of_opens hopens, EStateM.run_modify,
          run_append_of_long ⟨name, f.contents⟩ hlong]
        exact ⟨_, _, rfl⟩
      · simp only [run_openBelow_of_not_opens hopens]
        exact ⟨_, p.lines, rfl⟩

/-! ## All files -/

theorem run_packFiles_append (hroot : root.bytes ≠ []) {before : List FoundFile}
    (hfound : ∀ f ∈ before, IsFound f) (hbefore : ∀ f ∈ before, Packable root f)
    (after : List FoundFile) : ∃ lines, ((before ++ after).forM (packFile root)).run p =
      (after.forM (packFile root)).run
        ⟨p.out ++ Archive.inARow ((before.map archived).map Archive.encoded), lines⟩ := by
  induction before generalizing p with
  | nil => exact ⟨p.lines, by simp⟩
  | cons f before ih =>
      rw [List.forall_mem_cons] at hfound hbefore
      obtain ⟨lines, hrest⟩ := ih (p := ⟨p.out ++ Archive.encoded (archived f),
        p.lines.push (fileLine (archived f))⟩) hfound.2 hbefore.2
      refine ⟨lines, ?_⟩
      simp only [List.cons_append, List.forM, EStateM.run_bind,
        run_packFile_of_packable hroot hfound.1 hbefore.1, hrest]
      simp [ByteArray.append_assoc]

/-- The file of the archive has the path of the found one as its name, and its contents. -/
structure Archived (f : FoundFile) (file : ArchiveFile) : Prop where
  name : file.name.toUTF8 = (archiveName f.names).toByteArray
  contents : file.contents = f.contents

theorem Archived.eq_of_text {file : ArchiveFile} (hfile : Archived f file) (text : String)
    (htext : text.toUTF8 = (archiveName f.names).toByteArray) : file = ⟨text, f.contents⟩ := by
  obtain ⟨name, contents⟩ := file
  obtain ⟨hname, rfl⟩ := hfile
  rw [← htext] at hname
  obtain rfl : name = text := String.toByteArray_inj.mp hname
  rfl

/-- `out` is made of the whole records of `found`, one after the other. -/
def Written (found : List FoundFile) (out : ByteArray) : Prop :=
  ∃ list records, List.Forall₂ Archived found list ∧ list.mapM Archive.record = .ok records ∧
    out = Archive.inARow records

theorem Packable.archived (hf : Packable root f) : Archived f (archived f) :=
  ⟨Text.ofBytes?_eq_some.mp hf.text_archived, rfl⟩

theorem forall₂_archived {found : List FoundFile} (hall : ∀ f ∈ found, Packable root f) :
    List.Forall₂ Archived found (found.map Packing.archived) := by
  induction found with
  | nil => exact .nil
  | cons f found ih =>
      rw [List.forall_mem_cons] at hall
      exact .cons hall.1.archived (ih hall.2)

theorem fits_archived {found : List FoundFile} (hfound : ∀ f ∈ found, IsFound f)
    (hall : ∀ f ∈ found, Packable root f) :
    ∀ file ∈ found.map Packing.archived, Archive.Fits file := by
  intro file hfile
  obtain ⟨f, hf, rfl⟩ := List.mem_map.mp hfile
  exact (hall f hf).fits (hfound f hf)

theorem written_archived {found : List FoundFile} (hfound : ∀ f ∈ found, IsFound f)
    (hall : ∀ f ∈ found, Packable root f) :
    Written found (Archive.inARow ((found.map Packing.archived).map Archive.encoded)) :=
  ⟨_, _, forall₂_archived hall, Archive.mapM_record (fits_archived hfound hall), rfl⟩

/-- Different files have different names in the archive. -/
theorem nodup_archived {t : FileTree} (ht : t.Proper) (hall : ∀ f ∈ t.found, Packable root f) :
    ((t.found.map Packing.archived).map ArchiveFile.name).Nodup := by
  rw [List.map_map, List.Nodup, List.pairwise_map]
  refine (FileTree.lists_found ht).ordered.imp_of_mem ?_
  intro f g hf hg hlt heq
  have htext : (archiveName f.names).toByteArray = (archiveName g.names).toByteArray := by
    rw [← (hall f hf).archived.name, ← (hall g hg).archived.name]
    exact congrArg String.toUTF8 heq
  have hnames : f.names = g.names :=
    archiveName_injOn (fun name hname => ((isFound_of_mem_found ht hf).names name hname).2.1)
      (fun name hname => ((isFound_of_mem_found ht hg).names name hname).2.1)
      (List.toByteArray_inj.mp htext)
  rw [hnames] at hlt
  exact List.lt_irrefl _ hlt

section

variable {files : FileSystem} {tree : FileTree}

theorem run_pack_of_not_opens (hroot : files.find? root = some tree)
    (hdirectory : ∃ entries, tree = .directory entries) (hproper : tree.Proper)
    (hread : tree.Reads names) (hnames : ¬Opens root names) :
    (pack files root).run p = .error (.unreadable .nameTooLong) p := by
  obtain ⟨entries, rfl⟩ := hdirectory
  obtain ⟨v, hv, rfl⟩ := (FileTree.reads_iff hproper).mp hread
  rw [pack, hroot, packAt, EStateM.run_bind]
  rcases run_openAll root p ((FileTree.directory entries).visits.filter Visit.isDirectory) with
    ⟨_, hall⟩ | ⟨hrun, _⟩
  · exact absurd (hall v hv) hnames
  · rw [hrun]

theorem run_pack_of_opens (hroot : files.find? root = some tree)
    (hdirectory : ∃ entries, tree = .directory entries) (hproper : tree.Proper)
    (hopens : ∀ names, tree.Reads names → Opens root names) :
    (pack files root).run p =
      match (tree.found.forM (packFile root)).run p with
      | .ok _ p => .ok tree.found.length p
      | .error e p => .error e p := by
  obtain ⟨entries, rfl⟩ := hdirectory
  rw [pack, hroot, packAt, EStateM.run_bind]
  rcases run_openAll root p ((FileTree.directory entries).visits.filter Visit.isDirectory) with
    ⟨hrun, _⟩ | ⟨_, v, hv, hnot⟩
  · rw [hrun]
    simp only [EStateM.run_bind]
    cases ((FileTree.directory entries).found.forM (packFile root)).run p <;> rfl
  · exact absurd (hopens _ ((FileTree.reads_iff hproper).mpr ⟨v, hv, rfl⟩)) hnot

/-- What becomes of packing a directory: all its files are in the archive, or the files before the
first one that cannot be packed, or nothing, if there is a directory that cannot be opened. -/
theorem pack_outcome (hroot : files.find? root = some tree)
    (hdirectory : ∃ entries, tree = .directory entries) (hproper : tree.Proper) :
    tree.Lists tree.found ∧
      ((∃ names, tree.Reads names ∧ ¬Opens root names) →
        ∃ e, (pack files root).run start = .error e start) ∧
      ((∀ names, tree.Reads names → Opens root names) →
        ((∀ f ∈ tree.found, Packable root f) →
          ∃ p, (pack files root).run start = .ok tree.found.length p ∧
            List.Forall₂ Archived tree.found (Archive.files p.out) ∧
            ∀ file ∈ Archive.files p.out, Archive.lookup p.out file.name = some file.contents) ∧
        ∀ before f after, tree.found = before ++ f :: after → (∀ g ∈ before, Packable root g) →
          ¬Packable root f →
            ∃ e p, (pack files root).run start = .error e p ∧ Written before p.out) := by
  have hbytes := FileSystem.bytes_ne_nil_of_find? hroot
  have hfound : ∀ f ∈ tree.found, IsFound f := fun f hf => isFound_of_mem_found hproper hf
  refine ⟨FileTree.lists_found hproper, ?_, ?_⟩
  · rintro ⟨names, hread, hnot⟩
    exact ⟨_, run_pack_of_not_opens hroot hdirectory hproper hread hnot⟩
  intro hopens
  rw [run_pack_of_opens hroot hdirectory hproper hopens]
  constructor
  · intro hall
    obtain ⟨lines, hrun⟩ := run_packFiles_append (p := start) hbytes hfound hall []
    rw [List.append_nil] at hrun
    have hholds := Archive.holds_of_files (Archive.files_inARow (fits_archived hfound hall))
    rw [hrun]
    refine ⟨_, rfl, ?_⟩
    simp only [start, ByteArray.empty_append, hholds.files]
    refine ⟨forall₂_archived hall, ?_⟩
    intro file hfile
    exact hholds.lookup_of_nodup (nodup_archived hproper hall) hfile
  · intro before f after hsplit hbefore hnot
    rw [hsplit, List.forall_mem_append, List.forall_mem_cons] at hfound
    obtain ⟨lines, hrun⟩ := run_packFiles_append (p := start) hbytes hfound.1 hbefore (f :: after)
    rw [hsplit, hrun]
    simp only [List.forM, EStateM.run_bind]
    obtain ⟨e, lines', hfail⟩ := run_packFile_of_not_packable hbytes hfound.2.1 hnot
    rw [hfail]
    refine ⟨e, _, rfl, ?_⟩
    simp only [start, ByteArray.empty_append]
    exact written_archived hfound.1 hbefore

end

/-! ## A small tree -/

/-- An empty file, a file in a directory, one that is left out and something that is no file. -/
def pantry : FileTree :=
  .directory [([0x62], .directory [([0x63], .file [1, 2].toByteArray)]),
    ([0x2e, 0x78], .file [3].toByteArray), ([0x61], .file ByteArray.empty), ([0x73], .special)]

def pantryFiles : FileSystem := ⟨.directory [([0x72], pantry)], []⟩

theorem find?_pantry : pantryFiles.find? ⟨[0x72]⟩ = some pantry := by
  simp [FileSystem.find?, FileSystem.locate, Path.isTooLong, maxPathLength, WalkGoal.steps,
    Path.endsInSlash, Path.slash, Path.steps, Path.split, FileTree.startOf, Path.isAbsolute,
    FileTree.walk, FileTree.at?, pantryFiles, maxFileNameLength, Path.dot, FileTree.entry?, pantry]

theorem proper_pantry : pantry.Proper := by
  refine .directory (by decide) (by decide) ?_
  simp only [List.forall_mem_cons, List.not_mem_nil, IsEmpty.forall_iff, implies_true, and_true]
  refine ⟨.directory (by decide) (by decide) ?_, .file (by decide), .file (by decide), .special⟩
  simp only [List.forall_mem_singleton]
  exact .file (by decide)

theorem visits_pantry : pantry.visits = [⟨[], none⟩, ⟨[[0x61]], some ByteArray.empty⟩,
    ⟨[[0x62]], none⟩, ⟨[[0x62], [0x63]], some [1, 2].toByteArray⟩] := by
  have hba : ¬([0x62] : FileName) ≤ [0x61] := by decide
  have has : ([0x61] : FileName) ≤ [0x73] := by decide
  have hbs : ([0x62] : FileName) ≤ [0x73] := by decide
  simp [pantry, FileTree.visits, FileTree.visitsByName, isHidden, Path.dot, Visit.under,
    List.mergeSort, List.MergeSort.Internal.splitInTwo, namedInOrder, hba, has, hbs]

theorem pack_outcome_pantry : pantryFiles.find? ⟨[0x72]⟩ = some pantry ∧ pantry.Proper ∧
    ∃ p, (pack pantryFiles ⟨[0x72]⟩).run start = .ok 2 p ∧
      Archive.files p.out = [⟨"/a", ByteArray.empty⟩, ⟨"/b/c", [1, 2].toByteArray⟩] ∧
      Archive.lookup p.out "/b/c" = some [1, 2].toByteArray := by
  have hfound : pantry.found =
      [⟨[[0x61]], ByteArray.empty⟩, ⟨[[0x62], [0x63]], [1, 2].toByteArray⟩] := by
    rw [FileTree.found, visits_pantry]
    rfl
  obtain ⟨_, _, hpacked⟩ := pack_outcome find?_pantry ⟨_, rfl⟩ proper_pantry
  obtain ⟨hall, _⟩ := hpacked (by
    intro names hread
    have hdirectories : pantry.visits.filter Visit.isDirectory =
        [⟨[], none⟩, ⟨[[0x62]], none⟩] := by
      rw [visits_pantry]
      rfl
    rw [FileTree.reads_iff proper_pantry, hdirectories] at hread
    obtain ⟨v, hv, rfl⟩ := hread
    have hnames : v = ⟨[], none⟩ ∨ v = ⟨[[0x62]], none⟩ := by simpa using hv
    rcases hnames with rfl | rfl <;> unfold Opens <;> decide)
  rw [hfound] at hall
  obtain ⟨p, hrun, hfiles, hlookup⟩ := hall (by
    simp only [List.forall_mem_cons, List.not_mem_nil, IsEmpty.forall_iff, implies_true, and_true]
    refine ⟨⟨by decide, by decide, ?_⟩, ⟨by decide, by decide, ?_⟩⟩ <;> unfold Opens <;> decide)
  have hlist : Archive.files p.out = [⟨"/a", ByteArray.empty⟩, ⟨"/b/c", [1, 2].toByteArray⟩] := by
    obtain ⟨first, rest, hfirst, hrest, heq⟩ := List.forall₂_cons_left_iff.mp hfiles
    obtain ⟨second, rest, hsecond, hnil, rfl⟩ := List.forall₂_cons_left_iff.mp hrest
    rw [heq, hfirst.eq_of_text "/a" rfl, hsecond.eq_of_text "/b/c" rfl,
      List.forall₂_nil_left_iff.mp hnil]
  refine ⟨find?_pantry, proper_pantry, p, hrun, hlist, ?_⟩
  rw [hlist] at hlookup
  exact hlookup ⟨"/b/c", [1, 2].toByteArray⟩ (by simp)

/-! ## A root whose path is long -/

/-- A directory, with slashes after its name. -/
def slashed (count : Nat) : Path := ⟨0x72 :: List.replicate count Path.slash⟩

def drawer : FileTree := .directory [([0x61], .file [0x31].toByteArray)]

def drawerFiles : FileSystem := ⟨.directory [([0x72], drawer)], []⟩

theorem steps_slashed (count : Nat) :
    WalkGoal.existing.steps (slashed (count + 1)) = [[0x72], [Path.dot]] := by
  have hend : (slashed (count + 1)).endsInSlash = true := by
    simp [Path.endsInSlash, slashed, List.getLast?_cons, List.getLast?_replicate]
  have hsplit : Path.split (slashed (count + 1)).bytes = [0x72] :: List.replicate (count + 1) [] :=
    Path.split_append_replicate [0x72] (count + 1)
  rw [WalkGoal.steps, if_pos hend, Path.steps, hsplit]
  simp

theorem find?_slashed {count : Nat} (hcount : count + 1 < maxPathLength) :
    drawerFiles.find? (slashed (count + 1)) = some drawer := by
  have hzero : (slashed (count + 1)).bytes.contains 0 = false := by
    simp [slashed, Path.slash]
  have hshort : (slashed (count + 1)).isTooLong = false := by
    simpa [Path.isTooLong, slashed] using hcount
  have hstart : FileTree.startOf (slashed (count + 1)) [] = [] := by simp [FileTree.startOf]
  have hwalk : drawerFiles.top.walk .existing maxLinks [] [[0x72], [Path.dot]] = .ok [[0x72]] := by
    simp [FileTree.walk, FileTree.at?, FileTree.entry?, drawerFiles, drawer, Path.dot,
      maxFileNameLength]
  have hplace : drawerFiles.locate .existing (slashed (count + 1)) = .ok [[0x72]] := by
    rw [FileSystem.locate, if_neg (Bool.eq_false_iff.mp hzero), if_neg (by simp [slashed]),
      if_neg (Bool.eq_false_iff.mp hshort), steps_slashed]
    exact hstart ▸ hwalk
  rw [FileSystem.find?, hplace]
  rfl

/-- The path of the root is not too long, but that of the file in it is. -/
theorem pack_slashed_fails :
    drawerFiles.find? (slashed 4094) = some drawer ∧ drawer.Proper ∧
      drawer.Lists [⟨[[0x61]], [0x31].toByteArray⟩] ∧
      (archiveName [[0x61]]).toByteArray.IsValidUTF8 ∧
      (archiveName [[0x61]]).length ≤ Archive.maxNameLength ∧
      ∃ e p, (pack drawerFiles (slashed 4094)).run start = .error e p ∧
        p.out = ByteArray.empty := by
  have hfind : drawerFiles.find? (slashed 4094) = some drawer := find?_slashed (by decide)
  have hproper : drawer.Proper := by
    refine .directory (by decide) (by decide) ?_
    simp only [List.forall_mem_singleton]
    exact .file (by decide)
  have hvisits : drawer.visits = [⟨[], none⟩, ⟨[[0x61]], some [0x31].toByteArray⟩] := by
    simp [drawer, FileTree.visits, FileTree.visitsByName, isHidden, Path.dot, Visit.under]
  have hfound : drawer.found = [⟨[[0x61]], [0x31].toByteArray⟩] := by
    rw [FileTree.found, hvisits]
    rfl
  have hlists : drawer.Lists [⟨[[0x61]], [0x31].toByteArray⟩] :=
    hfound ▸ FileTree.lists_found hproper
  have hlength : (slashed 4094).bytes.length = maxPathLength := by
    rw [slashed, List.length_cons, List.length_replicate, maxPathLength]
  have hopens (names : List FileName) (hread : drawer.Reads names) :
      Opens (slashed 4094) names := by
    have hdirectories : drawer.visits.filter Visit.isDirectory = [⟨[], none⟩] := by
      rw [hvisits]
      rfl
    rw [FileTree.reads_iff hproper, hdirectories] at hread
    obtain ⟨v, hv, rfl⟩ := hread
    obtain rfl : v = ⟨[], none⟩ := by simpa using hv
    simp only [Opens, List.foldl_nil]
    exact hlength.le
  have hnot : ¬Packable (slashed 4094) ⟨[[0x61]], [0x31].toByteArray⟩ := by
    intro hpackable
    have hjoin := Path.length_le_length_join (slashed 4094) [0x61]
    have hshort := hpackable.opens
    simp only [Opens, List.foldl_cons, List.foldl_nil] at hshort
    rw [List.length_singleton] at hjoin
    omega
  have hfile : IsFound ⟨[[0x61]], [0x31].toByteArray⟩ :=
    isFound_of_mem_found hproper (by simp [hfound])
  obtain ⟨e, lines, hrun⟩ := run_packFile_of_not_packable (p := start)
    (FileSystem.bytes_ne_nil_of_find? hfind) hfile hnot
  refine ⟨hfind, hproper, hlists, by decide, by decide, e, ⟨ByteArray.empty, lines⟩, ?_, rfl⟩
  rw [run_pack_of_opens hfind ⟨_, rfl⟩ hproper hopens, hfound]
  simp only [List.forM, EStateM.run_bind, hrun]
  rfl

end Packing

end BootMemory
