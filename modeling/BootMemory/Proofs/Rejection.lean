import BootMemory.Proofs.Images

/-!
# Images that are turned down

The checks of an image come in a fixed order, and the first of them that fails is the one that is
reported.  Nothing is touched before the last of them has passed.  The parts are looked up a second
time when they are loaded, but what was found once is found again, so nothing that comes later turns
an image down.
-/

namespace BootMemory

namespace Elf

namespace ProgramHeader

variable {h : ProgramHeader} {file : ByteArray} {index : Nat} {e : ImageError}

/-- The bytes that come from the file are in it.  The sum is exact: no file reaches the end of the
word, so a range that leaves the word is not in the file. -/
def LiesInFile (h : ProgramHeader) (file : ByteArray) : Prop :=
  h.offset + min h.fileSize h.memorySize ≤ file.size

/-- The addresses of the part are in the lower half of the canonical addresses, or they are in the
upper half. -/
def HasCanonicalRange (h : ProgramHeader) : Prop :=
  h.virtualAddress + h.memorySize ≤ 2 ^ 47 ∨
    2 ^ 64 - 2 ^ 47 ≤ h.virtualAddress ∧ h.virtualAddress + h.memorySize ≤ 2 ^ 64

/-- What is wrong first with the part that the header at `index` describes. -/
inductive Faulty (h : ProgramHeader) (file : ByteArray) (index : Nat) : ImageError → Prop
  | bounds (hfile : ¬h.LiesInFile file) : Faulty h file index (.segmentOutOfBounds index)
  | address (hfile : h.LiesInFile file) (hrange : ¬h.HasCanonicalRange) :
      Faulty h file index (.badSegmentAddress index)

theorem exists_faulty_iff (index : Nat) :
    (∃ e, h.Faulty file index e) ↔ ¬(h.LiesInFile file ∧ h.HasCanonicalRange) := by
  constructor
  · rintro ⟨_, hbeyond | ⟨_, hsplit⟩⟩ ⟨hfile, hrange⟩
    · exact hbeyond hfile
    · exact hsplit hrange
  · intro hbad
    by_cases hfile : h.LiesInFile file
    · exact ⟨_, .address hfile fun hrange => hbad ⟨hfile, hrange⟩⟩
    · exact ⟨_, .bounds hfile⟩

theorem check_of_faulty (hpart : h.IsPart) (hfaulty : h.Faulty file index e) :
    h.check file index = .error e := by
  cases hfaulty with
  | bounds hfile =>
      have hnone : h.contents? file = none := if_neg hfile
      rw [check, hnone]
      rfl
  | address hfile hrange =>
      have hsome : h.contents? file = some _ := if_pos hfile
      have hhalf : ¬h.liesInOneHalf = true :=
        fun hsame => hrange ((liesInOneHalf_iff (Nat.pos_of_ne_zero hpart.2)).mp hsame)
      rw [check, hsome]
      exact if_neg hhalf

theorem check_of_good (index : Nat) (hpart : h.IsPart)
    (hgood : h.LiesInFile file ∧ h.HasCanonicalRange) : h.check file index = .ok ⟨⟩ := by
  have hsome : h.contents? file = some _ := if_pos hgood.1
  have hhalf := (liesInOneHalf_iff (Nat.pos_of_ne_zero hpart.2)).mpr hgood.2
  rw [check, hsome]
  exact if_pos hhalf

end ProgramHeader

section Table

variable {h : ProgramHeader} {file : ByteArray} {headers rest : List ProgramHeader} {start : Nat}
  {e : ImageError}

/-- What is wrong first in a table whose first header has the number `start`: what is wrong with
the first part in it that is not as it should be. -/
def FirstFaulty (file : ByteArray) (start : Nat) (headers : List ProgramHeader)
    (e : ImageError) : Prop :=
  ∃ (index : Nat) (h : ProgramHeader),
    headers[index]? = some h ∧ h.IsPart ∧ h.Faulty file (start + index) e ∧
      ∀ earlier < index, ∀ g : ProgramHeader, headers[earlier]? = some g → g.IsPart →
        g.LiesInFile file ∧ g.HasCanonicalRange

theorem firstFaulty_cons :
    FirstFaulty file start (h :: rest) e ↔
      h.IsPart ∧ h.Faulty file start e ∨
        (h.IsPart → h.LiesInFile file ∧ h.HasCanonicalRange) ∧
          FirstFaulty file (start + 1) rest e := by
  constructor
  · rintro ⟨index, g, hg, hpart, hfaulty, hearlier⟩
    cases index with
    | zero =>
        obtain rfl : h = g := Option.some.inj hg
        exact .inl ⟨hpart, hfaulty⟩
    | succ index =>
        refine .inr ⟨hearlier 0 (Nat.succ_pos index) h rfl, index, g, hg, hpart, ?_, ?_⟩
        · rwa [Nat.add_assoc, Nat.add_comm 1]
        · exact fun earlier hlt => hearlier (earlier + 1) (Nat.succ_lt_succ hlt)
  · rintro (⟨hpart, hfaulty⟩ | ⟨hgood, index, g, hg, hpart, hfaulty, hearlier⟩)
    · exact ⟨0, h, rfl, hpart, hfaulty, fun earlier hlt => absurd hlt (Nat.not_lt_zero earlier)⟩
    · refine ⟨index + 1, g, hg, hpart, ?_, ?_⟩
      · rwa [Nat.add_comm index, ← Nat.add_assoc]
      · intro earlier hlt
        cases earlier with
        | zero =>
            rintro _ ⟨⟩
            exact hgood
        | succ earlier => exact hearlier earlier (Nat.lt_of_succ_lt_succ hlt)

theorem exists_firstFaulty_iff (start : Nat) :
    (∃ e, FirstFaulty file start headers e) ↔
      ¬∀ h ∈ headers, h.IsPart → h.LiesInFile file ∧ h.HasCanonicalRange := by
  induction headers generalizing start with
  | nil => simp [FirstFaulty]
  | cons h rest ih =>
      rw [List.forall_mem_cons, not_and_or, Classical.not_imp, ← ih (start + 1),
        ← ProgramHeader.exists_faulty_iff start]
      simp only [firstFaulty_cons, exists_or, exists_and_left]
      by_cases hgood : h.IsPart → h.LiesInFile file ∧ h.HasCanonicalRange
      · have hnone : ¬(h.IsPart ∧ ∃ e, h.Faulty file start e) := by
          rwa [ProgramHeader.exists_faulty_iff, ← Classical.not_imp, not_not]
        simp only [hnone, eq_true hgood, true_and, false_or]
      · have hhere : h.IsPart ∧ ∃ e, h.Faulty file start e := by
          rwa [ProgramHeader.exists_faulty_iff, ← Classical.not_imp]
        simp [hhere]

/-- The checks of a table whose first header has the number `start`. -/
def checkFrom (file : ByteArray) (start : Nat) (headers : List ProgramHeader) :
    Except ImageError Unit :=
  ((headers.zipIdx start).filter fun part => part.1.isLoadable).forM
    fun part => part.1.check file part.2

theorem checkFrom_cons_of_isPart (hpart : h.IsPart) :
    checkFrom file start (h :: rest) =
      (h.check file start >>= fun _ => checkFrom file (start + 1) rest) := by
  have hload := (ProgramHeader.isLoadable_iff h).mpr hpart
  rw [checkFrom, List.zipIdx_cons, List.filter_cons, if_pos hload]
  rfl

theorem checkFrom_cons_of_not_isPart (hpart : ¬h.IsPart) :
    checkFrom file start (h :: rest) = checkFrom file (start + 1) rest := by
  have hload := (ProgramHeader.isLoadable_iff h).not.mpr hpart
  rw [checkFrom, List.zipIdx_cons, List.filter_cons, if_neg hload, checkFrom]

theorem checkFrom_of_firstFaulty (hfaulty : FirstFaulty file start headers e) :
    checkFrom file start headers = .error e := by
  induction headers generalizing start with
  | nil =>
      obtain ⟨_, _, hnone, _⟩ := hfaulty
      cases hnone
  | cons h rest ih =>
      rcases firstFaulty_cons.mp hfaulty with ⟨hpart, hhere⟩ | ⟨hgood, hlater⟩
      · rw [checkFrom_cons_of_isPart hpart, ProgramHeader.check_of_faulty hpart hhere]
        rfl
      · by_cases hpart : h.IsPart
        · rw [checkFrom_cons_of_isPart hpart,
            ProgramHeader.check_of_good start hpart (hgood hpart)]
          exact ih hlater
        · rw [checkFrom_cons_of_not_isPart hpart, ih hlater]

theorem checkFrom_of_good (start : Nat)
    (hgood : ∀ h ∈ headers, h.IsPart → h.LiesInFile file ∧ h.HasCanonicalRange) :
    checkFrom file start headers = .ok ⟨⟩ := by
  induction headers generalizing start with
  | nil => rfl
  | cons h rest ih =>
      obtain ⟨hhere, hlater⟩ := List.forall_mem_cons.mp hgood
      by_cases hpart : h.IsPart
      · rw [checkFrom_cons_of_isPart hpart,
          ProgramHeader.check_of_good start hpart (hhere hpart)]
        exact ih (start + 1) hlater
      · rw [checkFrom_cons_of_not_isPart hpart, ih (start + 1) hlater]

end Table

/-- The file starts with byte `0x7f` and the letters `ELF`. -/
def HasMagic (file : ByteArray) : Prop :=
  [0x7f, 0x45, 0x4c, 0x46] <+: file.data.toList

/-- None of the four bytes is zero, so they are not read off beyond the end of a short file. -/
theorem slice_eq_magic_iff (file : ByteArray) :
    Bytes.slice file 0 4 = magic ↔ HasMagic file := by
  have hbyte : ∀ i, Bytes.byteAt file i = (file.data.toList[i]?).getD 0 := by
    intro i
    rw [Bytes.byteAt]
    split
    · simp_all [ByteArray.getElem_eq_getElem_data]
    · simp_all
  have hslice : Bytes.slice file 0 4 = [Bytes.byteAt file 0, Bytes.byteAt file 1,
      Bytes.byteAt file 2, Bytes.byteAt file 3] := rfl
  rw [hslice, hbyte, hbyte, hbyte, hbyte, eq_comm, HasMagic]
  rcases file.data.toList with _ | ⟨a, _ | ⟨b, _ | ⟨c, _ | ⟨d, rest⟩⟩⟩⟩ <;>
    simp [magic, List.cons_prefix_cons]

section Files

variable (parse : Parser) (file : ByteArray)

/-- The check of an image that fails first, by the error that stands for it. -/
inductive FirstFault : ImageError → Prop
  | magic (hmagic : ¬HasMagic file) : FirstFault .badMagic
  | identification (hmagic : HasMagic file) (hparse : parse file = .error .badMagic) :
      FirstFault .badMagic
  | format (hmagic : HasMagic file) (hparse : parse file = .error .unsupportedVersion) :
      FirstFault .unsupportedVersion
  | malformed (hmagic : HasMagic file) (hparse : parse file = .error .malformed) :
      FirstFault .malformed
  | kind {parsed : File} (hmagic : HasMagic file) (hparse : parse file = .ok parsed)
      (hkind : parsed.kind ≠ 2) : FirstFault (.notExecutable parsed.kind)
  | version {parsed : File} (hmagic : HasMagic file) (hparse : parse file = .ok parsed)
      (hkind : parsed.kind = 2) (hversion : parsed.version ≠ 1) : FirstFault .unsupportedVersion
  | part {parsed : File} {e : ImageError} (hmagic : HasMagic file)
      (hparse : parse file = .ok parsed) (hkind : parsed.kind = 2) (hversion : parsed.version = 1)
      (hpart : FirstFaulty file 0 parsed.segments e) : FirstFault e

/-- Every check of the image passes. -/
def Passes : Prop :=
  HasMagic file ∧ ∃ parsed, parse file = .ok parsed ∧ parsed.kind = 2 ∧ parsed.version = 1 ∧
    ∀ h ∈ parsed.segments, h.IsPart → h.LiesInFile file ∧ h.HasCanonicalRange

theorem exists_firstFault_iff : (∃ e, FirstFault parse file e) ↔ ¬Passes parse file := by
  constructor
  · rintro ⟨e, hfault⟩ ⟨hmagic, parsed, hparse, hkind, hversion, hgood⟩
    cases hfault with
    | magic hother => exact hother hmagic
    | identification _ hother => cases hparse.symm.trans hother
    | format _ hother => cases hparse.symm.trans hother
    | malformed _ hother => cases hparse.symm.trans hother
    | kind _ hsame hother =>
        cases hparse.symm.trans hsame
        exact hother hkind
    | version _ hsame _ hother =>
        cases hparse.symm.trans hsame
        exact hother hversion
    | part _ hsame _ _ hpart =>
        cases hparse.symm.trans hsame
        exact (exists_firstFaulty_iff 0).mp ⟨e, hpart⟩ hgood
  · intro hfails
    by_cases hmagic : HasMagic file
    · cases hparse : parse file with
      | error e =>
          cases e with
          | badMagic => exact ⟨_, .identification hmagic hparse⟩
          | unsupportedVersion => exact ⟨_, .format hmagic hparse⟩
          | malformed => exact ⟨_, .malformed hmagic hparse⟩
      | ok parsed =>
          by_cases hkind : parsed.kind = 2
          · by_cases hversion : parsed.version = 1
            · have hbad : ∃ e, FirstFaulty file 0 parsed.segments e :=
                (exists_firstFaulty_iff 0).mpr fun hgood =>
                  hfails ⟨hmagic, parsed, hparse, hkind, hversion, hgood⟩
              exact hbad.imp fun e hpart => .part hmagic hparse hkind hversion hpart
            · exact ⟨_, .version hmagic hparse hkind hversion⟩
          · exact ⟨_, .kind hmagic hparse hkind⟩
    · exact ⟨_, .magic hmagic⟩

end Files

end Elf

namespace Executable

open Elf (FirstFault HasMagic Passes)

variable {parse : Elf.Parser} {file : ByteArray} {e : ImageError}

theorem ofImage_of_magic (hmagic : HasMagic file) :
    ofImage parse file = do
      let parsed ← match parse file with
        | .ok parsed => .ok parsed
        | .error .badMagic => .error .badMagic
        | .error .unsupportedVersion => .error .unsupportedVersion
        | .error .malformed => .error .malformed
      if parsed.kind ≠ Elf.executableKind then .error (.notExecutable parsed.kind)
      if parsed.version ≠ Elf.currentVersion then .error .unsupportedVersion
      Elf.checkFrom file 0 parsed.segments
      return ⟨⟨UInt64.ofNat parsed.entry⟩, Elf.loadable parsed.segments⟩ := by
  rw [ofImage, (Elf.slice_eq_magic_iff file).mpr hmagic]
  rfl

theorem ofImage_of_parsed {parsed : Elf.File} (hmagic : HasMagic file)
    (hparse : parse file = .ok parsed) (hkind : parsed.kind = 2) (hversion : parsed.version = 1) :
    ofImage parse file = do
      Elf.checkFrom file 0 parsed.segments
      return ⟨⟨UInt64.ofNat parsed.entry⟩, Elf.loadable parsed.segments⟩ := by
  have hsameKind : ¬parsed.kind ≠ Elf.executableKind := not_not.mpr hkind
  have hsameVersion : ¬parsed.version ≠ Elf.currentVersion := not_not.mpr hversion
  rw [ofImage_of_magic hmagic, hparse]
  exact (if_neg hsameKind).trans (if_neg hsameVersion)

theorem ofImage_of_firstFault (hfault : FirstFault parse file e) :
    ofImage parse file = .error e := by
  cases hfault with
  | magic hmagic => exact if_pos ((Elf.slice_eq_magic_iff file).not.mpr hmagic)
  | identification hmagic hparse =>
      rw [ofImage_of_magic hmagic, hparse]
      rfl
  | format hmagic hparse =>
      rw [ofImage_of_magic hmagic, hparse]
      rfl
  | malformed hmagic hparse =>
      rw [ofImage_of_magic hmagic, hparse]
      rfl
  | kind hmagic hparse hkind =>
      rw [ofImage_of_magic hmagic, hparse]
      exact if_pos hkind
  | @version parsed hmagic hparse hkind hversion =>
      have hsameKind : ¬parsed.kind ≠ Elf.executableKind := not_not.mpr hkind
      rw [ofImage_of_magic hmagic, hparse]
      exact (if_neg hsameKind).trans (if_pos hversion)
  | part hmagic hparse hkind hversion hpart =>
      rw [ofImage_of_parsed hmagic hparse hkind hversion, Elf.checkFrom_of_firstFaulty hpart]
      rfl

theorem ofImage_of_passes (hpasses : Passes parse file) :
    ∃ image, ofImage parse file = .ok image := by
  obtain ⟨hmagic, parsed, hparse, hkind, hversion, hgood⟩ := hpasses
  rw [ofImage_of_parsed hmagic hparse hkind hversion, Elf.checkFrom_of_good 0 hgood]
  exact ⟨_, rfl⟩

theorem ofImage_eq_error_iff : ofImage parse file = .error e ↔ FirstFault parse file e := by
  constructor
  · intro herror
    have hfails : ¬Passes parse file := by
      intro hpasses
      obtain ⟨image, hok⟩ := ofImage_of_passes hpasses
      cases hok.symm.trans herror
    obtain ⟨e', hfault⟩ := (Elf.exists_firstFault_iff parse file).mpr hfails
    obtain rfl := Except.error.inj (herror.symm.trans (ofImage_of_firstFault hfault))
    exact hfault
  · exact ofImage_of_firstFault

end Executable

namespace Machine

variable {m m' : Machine} {parse : Elf.Parser} {space : AddressSpace} {file : ByteArray}

/-- Placing segments does not turn an image down. -/
theorem placeSegments_ne_rejected {segments : List Segment} {e : ImageError} :
    (segments.forM fun s => Action.mapError LoadError.unmappable (placeSegment space s)) m ≠
      .error (.error (.rejected e)) m' := by
  induction segments generalizing m with
  | nil => exact fun hrun => nomatch hrun
  | cons s segments ih =>
      intro hrun
      rcases Action.bind_eq_error.mp hrun with hfirst | ⟨_, m₁, _, hrest⟩
      · obtain ⟨failure, hrestated, _⟩ := Action.mapError_eq_error.mp hfirst
        cases failure <;> cases hrestated
      · exact ih hrest

theorem load_eq_rejected_iff {e : ImageError} :
    load parse space file m = .error (.error (.rejected e)) m' ↔
      m' = m ∧ Executable.ofImage parse file = .error e := by
  cases himage : Executable.ofImage parse file with
  | error e' =>
      rw [load, loadBy_of_ofImage_error _ himage]
      constructor
      · rintro ⟨⟩
        exact ⟨rfl, rfl⟩
      · rintro ⟨rfl, ⟨⟩⟩
        rfl
  | ok image =>
      simp only [reduceCtorEq, and_false, iff_false]
      intro hrun
      obtain ⟨_, _, _, _, hload⟩ := loadBy_of_ofImage_ok himage
      rw [load, hload] at hrun
      rcases Action.bind_eq_error.mp hrun with hplace | ⟨_, _, _, hentry⟩
      · exact placeSegments_ne_rejected hplace
      · cases hentry

end Machine

/-- Whatever the parser, a file is turned down exactly if a check fails, with the error of the first
check that fails, and the machine is then as it was.  Once the checks have passed, loading may still
run out of frames or meet a page that cannot be mapped, but the file is not turned down. -/
theorem load_rejects_iff (m : Machine) (parse : Elf.Parser) (space : AddressSpace)
    (file : ByteArray) :
    (∀ e m', Machine.load parse space file m = .error (.error (.rejected e)) m' ↔
      m' = m ∧ Elf.FirstFault parse file e) ∧
    ((∃ e m', Machine.load parse space file m = .error (.error (.rejected e)) m') ↔
      ¬Elf.Passes parse file) := by
  have hrejects : ∀ e m', Machine.load parse space file m = .error (.error (.rejected e)) m' ↔
      m' = m ∧ Elf.FirstFault parse file e := by
    intro e m'
    rw [Machine.load_eq_rejected_iff, Executable.ofImage_eq_error_iff]
  refine ⟨hrejects, ?_⟩
  rw [← Elf.exists_firstFault_iff]
  simp [hrejects]

end BootMemory
