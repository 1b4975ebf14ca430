import Mathlib
import BootMemory.Packing
import BootMemory.Proofs.RoundTrip

/-!
# Names of packed files

The path of a file is the path of the root with the names that lead to the file after it.  Taken
apart into components again, it starts with the components of the root and goes on with exactly
these names, however the path of the root is written.  So the name of the file in an archive is
a slash and a name for each of them, and it is text if these bytes are UTF-8.
-/

namespace BootMemory

namespace Path

variable {name : FileName}

@[simp] theorem split_ne_nil (bytes : List UInt8) : split bytes ≠ [] := by
  cases bytes with
  | nil => simp [split]
  | cons byte rest =>
      rw [split]
      split
      · simp
      · split <;> simp

/-- A slash ends a piece, whatever stands before it and after it. -/
theorem split_append_slash (a b : List UInt8) : split (a ++ slash :: b) = split a ++ split b := by
  induction a with
  | nil => simp [split]
  | cons byte rest ih =>
      rw [List.cons_append, split, split, ih]
      split
      · rfl
      · cases hsplit : split rest with
        | nil => exact absurd hsplit (split_ne_nil rest)
        | cons piece pieces => rfl

theorem split_eq_singleton (hname : slash ∉ name) : split name = [name] := by
  induction name with
  | nil => rfl
  | cons byte rest ih =>
      rw [List.mem_cons, not_or] at hname
      rw [split, if_neg (Ne.symm hname.1), ih hname.2]

theorem split_append_replicate (bytes : List UInt8) (count : Nat) :
    split (bytes ++ List.replicate count slash) = split bytes ++ List.replicate count [] := by
  induction count generalizing bytes with
  | zero => simp
  | succ count ih =>
      have hslashes := ih []
      rw [List.nil_append] at hslashes
      rw [List.replicate_succ, split_append_slash, hslashes]
      rfl

theorem ofPiece_eq_entry (hname : name ≠ []) (hshown : isHidden name = false) :
    ofPiece name = some (.entry name) := by
  unfold ofPiece
  split <;> simp_all [isHidden, dot]

/-- The bytes of a joined path, with or without a slash that was there already. -/
theorem exists_join_eq {p : Path} (hp : p.bytes ≠ []) (name : FileName) :
    ∃ front, (p.join name).bytes = front ++ slash :: name ∧
      (p.bytes = front ∨ p.bytes = front ++ [slash]) := by
  unfold join
  split
  next hend =>
    obtain ⟨front, hfront⟩ := List.getLast?_eq_some_iff.mp (hend.resolve_right hp)
    exact ⟨front, by simp [hfront], .inr hfront⟩
  next => exact ⟨p.bytes, rfl, .inl rfl⟩

theorem join_ne_nil {p : Path} (hp : p.bytes ≠ []) (name : FileName) :
    (p.join name).bytes ≠ [] := by
  obtain ⟨front, hjoin, _⟩ := exists_join_eq hp name
  simp [hjoin]

theorem length_le_length_join (p : Path) (name : FileName) :
    p.bytes.length + name.length ≤ (p.join name).bytes.length := by
  unfold join
  split <;> simp

theorem components_join {p : Path} (hp : p.bytes ≠ []) (hname : name ≠ []) (hslash : slash ∉ name)
    (hshown : isHidden name = false) :
    (p.join name).components = p.components ++ [.entry name] := by
  obtain ⟨front, hjoin, hbytes⟩ := exists_join_eq hp name
  have hsplit : split (p.join name).bytes = split front ++ [name] := by
    rw [hjoin, split_append_slash, split_eq_singleton hslash]
  -- A slash at the end of the path of the directory adds an empty piece, which is no component.
  have hpieces : split p.bytes = split front ∨ split p.bytes = split front ++ [[]] := by
    rcases hbytes with heq | heq
    · exact .inl (by rw [heq])
    · exact .inr (by rw [heq, split_append_slash, split])
  have hbody : (split p.bytes).filterMap ofPiece = (split front).filterMap ofPiece := by
    rcases hpieces with heq | heq <;> simp [heq, ofPiece]
  have hfirst : (split front ++ [name]).head? = (split p.bytes).head? := by
    rw [List.head?_append_of_ne_nil _ (split_ne_nil front)]
    rcases hpieces with heq | heq
    · rw [heq]
    · rw [heq, List.head?_append_of_ne_nil _ (split_ne_nil front)]
  have habsolute : (p.join name).isAbsolute = p.isAbsolute := by
    rcases hbytes with heq | heq
    · rw [heq] at hp
      simp [isAbsolute, hjoin, heq, List.head?_append_of_ne_nil _ hp]
    · simp [isAbsolute, hjoin, heq, List.head?_append]
  simp only [components, habsolute, hfirst, hbody, hsplit, List.filterMap_append]
  split_ifs <;> simp [ofPiece_eq_entry hname hshown]

/-- The path of a file goes on from the path of the root with the names that lead to the file. -/
theorem components_foldl_join {root : Path} (hroot : root.bytes ≠ []) {names : List FileName}
    (hnames : ∀ name ∈ names, name ≠ [] ∧ slash ∉ name ∧ isHidden name = false) :
    (names.foldl join root).components = root.components ++ names.map .entry := by
  induction names generalizing root with
  | nil => simp
  | cons name names ih =>
      rw [List.forall_mem_cons] at hnames
      obtain ⟨⟨hname, hslash, hshown⟩, hrest⟩ := hnames
      rw [List.foldl_cons, ih (join_ne_nil hroot name) hrest,
        components_join hroot hname hslash hshown]
      simp

@[simp] theorem stripPrefix?_append (start rest : List PathComponent) :
    stripPrefix? start (start ++ rest) = some rest := by
  induction start with
  | nil => cases rest <;> rfl
  | cons c start ih => simpa [stripPrefix?] using ih

end Path

/-! ## Text and slashes -/

/-- The bytes of the name in an archive of the file that `names` lead to. -/
def archiveName (names : List FileName) : List UInt8 :=
  names.flatMap (Path.slash :: ·)

theorem archiveName_cons (name : FileName) (names : List FileName) :
    archiveName (name :: names) = Path.slash :: (name ++ archiveName names) := rfl

theorem toByteArray_archiveName_cons (name : FileName) (names : List FileName) :
    (archiveName (name :: names)).toByteArray =
      ['/'].utf8Encode ++ (name.toByteArray ++ (archiveName names).toByteArray) := by
  rw [archiveName_cons, ← List.singleton_append, List.toByteArray_append, List.toByteArray_append]
  rfl

namespace Text

theorem ofBytes?_eq_some {bytes : List UInt8} {text : String} :
    ofBytes? bytes = some text ↔ text.toUTF8 = bytes.toByteArray :=
  fromUTF8?_eq_some

theorem ofBytes?_eq_none {bytes : List UInt8} :
    ofBytes? bytes = none ↔ ¬ bytes.toByteArray.IsValidUTF8 := by
  unfold ofBytes? String.fromUTF8?
  split <;> simp_all

theorem isValidUTF8_of_ofBytes? {bytes : List UInt8} {text : String}
    (htext : ofBytes? bytes = some text) : bytes.toByteArray.IsValidUTF8 :=
  ofBytes?_eq_some.mp htext ▸ text.isValidUTF8

theorem utf8ByteSize_of_ofBytes? {bytes : List UInt8} {text : String}
    (htext : ofBytes? bytes = some text) : text.utf8ByteSize = bytes.length := by
  have hsize := congrArg ByteArray.size (ofBytes?_eq_some.mp htext)
  simpa using hsize

/-- Text can be cut where a character begins. -/
theorem isValidUTF8_append {a b : ByteArray} (hsize : 0 < b.size) (hfirst : b[0].IsUTF8FirstByte) :
    (a ++ b).IsValidUTF8 ↔ a.IsValidUTF8 ∧ b.IsValidUTF8 := by
  constructor
  · intro hboth
    let s : String := ⟨a ++ b, hboth⟩
    have htotal : s.utf8ByteSize = a.size + b.size := ByteArray.size_append
    have hlt : (⟨a.size⟩ : String.Pos.Raw) < s.rawEndPos := by
      change a.size < s.utf8ByteSize
      omega
    have hcut : String.Pos.Raw.IsValid s ⟨a.size⟩ := by
      rw [String.Pos.Raw.isValid_iff_isUTF8FirstByte]
      have hbyte : s.getUTF8Byte ⟨a.size⟩ hlt = b[0] := by
        simp [String.getUTF8Byte, s, ByteArray.getElem_append_right]
      exact .inr ⟨hlt, by rwa [hbyte]⟩
    have hleft : (a ++ b).extract 0 a.size = a := ByteArray.extract_append_eq_left rfl
    have hright : (a ++ b).extract a.size s.utf8ByteSize = b :=
      ByteArray.extract_append_eq_right rfl htotal
    exact ⟨hleft ▸ hcut.isValidUTF8_extract_zero, hright ▸ hcut.isValidUTF8_extract_utf8ByteSize⟩
  · rintro ⟨ha, hb⟩
    exact ha.append hb

theorem isValidUTF8_archiveName_cons {name : FileName} {names : List FileName} :
    (archiveName (name :: names)).toByteArray.IsValidUTF8 ↔
      name.toByteArray.IsValidUTF8 ∧ (archiveName names).toByteArray.IsValidUTF8 := by
  rw [toByteArray_archiveName_cons, ByteArray.isValidUTF8_utf8Encode_singleton_append_iff]
  cases names with
  | nil => simp [archiveName]
  | cons next names =>
      have hsize : 0 < (archiveName (next :: names)).toByteArray.size := by
        simp [archiveName_cons]
      have hbyte : (archiveName (next :: names)).toByteArray[0] = Path.slash := by
        simp [archiveName_cons]
      refine isValidUTF8_append hsize ?_
      rw [hbyte]
      decide

theorem ofBytes?_archiveName_cons (name : FileName) (names : List FileName) :
    ofBytes? (archiveName (name :: names)) = (ofBytes? name).bind fun piece =>
      (ofBytes? (archiveName names)).map fun rest => "/" ++ piece ++ rest := by
  cases hpiece : ofBytes? name with
  | none =>
      rw [ofBytes?_eq_none] at hpiece
      simp [ofBytes?_eq_none, isValidUTF8_archiveName_cons, hpiece]
  | some piece =>
      cases hrest : ofBytes? (archiveName names) with
      | none =>
          rw [ofBytes?_eq_none] at hrest
          simp [ofBytes?_eq_none, isValidUTF8_archiveName_cons, hrest]
      | some rest =>
          rw [ofBytes?_eq_some] at hpiece hrest
          rw [Option.bind_some, Option.map_some, ofBytes?_eq_some, toByteArray_archiveName_cons,
            ← hpiece, ← hrest]
          have hslash : "/".toUTF8 = ['/'].utf8Encode := rfl
          rw [← hslash]
          simp [String.append_assoc]

/-- The name that is put together piece by piece is the text of its bytes, if they are text. -/
theorem mapM_archiveText? (names : List FileName) :
    ((names.map PathComponent.entry).mapM PathComponent.archiveText?).map String.join =
      ofBytes? (archiveName names) := by
  induction names with
  | nil => exact (ofBytes?_eq_some.mpr rfl).symm
  | cons name names ih =>
      rw [ofBytes?_archiveName_cons, ← ih, List.map_cons, List.mapM_cons]
      have hname : (PathComponent.entry name).archiveText? =
        (ofBytes? name).map ("/" ++ ·) := rfl
      rw [hname]
      cases ofBytes? name with
      | none => rfl
      | some piece =>
          cases (names.map PathComponent.entry).mapM PathComponent.archiveText? with
          | none => rfl
          | some pieces => simp [String.join_cons]

end Text

theorem split_append_archiveName (front : List UInt8) {names : List FileName}
    (hnames : ∀ name ∈ names, Path.slash ∉ name) :
    Path.split (front ++ archiveName names) = Path.split front ++ names := by
  induction names generalizing front with
  | nil => simp [archiveName]
  | cons name names ih =>
      rw [List.forall_mem_cons] at hnames
      rw [archiveName_cons, Path.split_append_slash, ih name hnames.2,
        Path.split_eq_singleton hnames.1, List.singleton_append]

/-- Two files have the same name in an archive only if the same names lead to them. -/
theorem archiveName_injOn {names others : List FileName}
    (hnames : ∀ name ∈ names, Path.slash ∉ name) (hothers : ∀ name ∈ others, Path.slash ∉ name)
    (heq : archiveName names = archiveName others) : names = others := by
  have hsplit := split_append_archiveName [] hnames
  rw [heq, split_append_archiveName [] hothers] at hsplit
  exact (List.append_cancel_left hsplit).symm

/-- Below a root, a name is the text of a slash and the bytes of each component, if that is text. -/
theorem nameBelow_of_components {root path : Path} {below : List PathComponent}
    (hbelow : path.components = root.components ++ below) :
    nameBelow root path =
      match Text.ofBytes? (archiveName (below.map PathComponent.bytes)) with
      | none => .error (.notUtf8 path)
      | some name => .ok name := by
  have hentries : ((below.map PathComponent.bytes).map PathComponent.entry).mapM
      PathComponent.archiveText? = below.mapM PathComponent.archiveText? := by
    rw [List.mapM_map, List.mapM_map]
    rfl
  rw [nameBelow, hbelow, Path.stripPrefix?_append, ← Text.mapM_archiveText?, hentries]
  dsimp only
  cases below.mapM PathComponent.archiveText? <;> rfl

theorem nameBelow_foldl_join {root : Path} (hroot : root.bytes ≠ []) {names : List FileName}
    (hnames : ∀ name ∈ names, name ≠ [] ∧ Path.slash ∉ name ∧ isHidden name = false) :
    nameBelow root (names.foldl Path.join root) =
      match Text.ofBytes? (archiveName names) with
      | none => .error (.notUtf8 (names.foldl Path.join root))
      | some name => .ok name := by
  have hcomponents := Path.components_foldl_join hroot hnames
  have hbytes : (names.map PathComponent.entry).map PathComponent.bytes = names := by
    rw [List.map_map]
    exact List.map_id names
  rw [nameBelow_of_components hcomponents, hbytes]

end BootMemory
