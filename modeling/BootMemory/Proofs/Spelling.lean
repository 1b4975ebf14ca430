import BootMemory.Proofs.PathNames

/-!
# Spellings of paths and names in archives

A path can be written in many ways.  Slashes that repeat or end it and dots that stand for the
directory itself can be taken out, until the shortest way to write its components is left, so two
paths have the same components exactly if one is another spelling of the other.

The name of a file in an archive depends on nothing else.  The root has to lead the path by its
components, not by its bytes, and the components after it come back out of the name, so two paths
below a root have the same name only if they are spellings of one.
-/

namespace BootMemory

namespace Path

/-! ## Spellings -/

/-- One step to a shorter spelling.  A dot at the very start stays, and so does a slash there. -/
inductive Shortens : List UInt8 → List UInt8 → Prop
  | slashes (front rest : List UInt8) :
      Shortens (front ++ slash :: slash :: rest) (front ++ slash :: rest)
  | innerDot (front rest : List UInt8) :
      Shortens (front ++ slash :: dot :: slash :: rest) (front ++ slash :: rest)
  | lastDot (front : List UInt8) : Shortens (front ++ [slash, dot]) (front ++ [slash])
  | lastSlash {front : List UInt8} (hfront : front ≠ []) : Shortens (front ++ [slash]) front

/-- The same path, perhaps written in another way. -/
def Respelled (p q : Path) : Prop :=
  Relation.EqvGen Shortens p.bytes q.bytes

theorem components_append_slash_congr {front a b : List UInt8}
    (hpieces : (split a).filterMap ofPiece = (split b).filterMap ofPiece) :
    components ⟨front ++ slash :: a⟩ = components ⟨front ++ slash :: b⟩ := by
  have habsolute : isAbsolute ⟨front ++ slash :: a⟩ = isAbsolute ⟨front ++ slash :: b⟩ := by
    cases front <;> rfl
  simp only [components, habsolute, split_append_slash, List.filterMap_append, hpieces,
    List.head?_append_of_ne_nil _ (split_ne_nil front)]

theorem Shortens.components_eq {a b : List UInt8} (hshort : Shortens a b) :
    components ⟨a⟩ = components ⟨b⟩ := by
  cases hshort with
  | slashes front rest =>
      apply components_append_slash_congr
      rw [split, if_pos rfl]
      rfl
  | innerDot front rest =>
      apply components_append_slash_congr
      rw [← List.singleton_append, split_append_slash]
      rfl
  | lastDot front => exact components_append_slash_congr rfl
  | lastSlash hfront =>
      have habsolute : isAbsolute ⟨b ++ [slash]⟩ = isAbsolute ⟨b⟩ := by
        simp only [isAbsolute, List.head?_append_of_ne_nil _ hfront]
      have hnothing : (split []).filterMap ofPiece = [] := rfl
      simp only [components, habsolute, split_append_slash, List.filterMap_append, hnothing,
        List.append_nil, List.head?_append_of_ne_nil _ (split_ne_nil b)]

theorem split_eq_cons {bytes piece : List UInt8} {pieces : List (List UInt8)}
    (hsplit : split bytes = piece :: pieces) : bytes = piece ++ archiveName pieces := by
  induction bytes generalizing piece pieces with
  | nil =>
      cases hsplit
      rfl
  | cons byte rest ih =>
      obtain ⟨next, others, hrest⟩ := List.exists_cons_of_ne_nil (split_ne_nil rest)
      rw [ih hrest]
      rw [split, hrest] at hsplit
      split at hsplit
      next hslash =>
        cases hsplit
        rw [hslash]
        rfl
      next =>
        cases hsplit
        rfl

theorem bytes_of_ofPiece {piece : List UInt8} {c : PathComponent}
    (hpiece : ofPiece piece = some c) : c.bytes = piece := by
  unfold ofPiece at hpiece
  split at hpiece <;> cases hpiece <;> rfl

theorem eq_of_ofPiece_eq_none {piece : List UInt8} (hpiece : ofPiece piece = none) :
    piece = [] ∨ piece = [dot] := by
  unfold ofPiece at hpiece
  split at hpiece
  · exact .inl rfl
  · exact .inr rfl
  · cases hpiece
  · cases hpiece

/-- The names of the components that some pieces stand for. -/
def shown (pieces : List (List UInt8)) : List FileName :=
  (pieces.filterMap ofPiece).map PathComponent.bytes

theorem shown_cons_of_none {piece : List UInt8} (hpiece : ofPiece piece = none)
    (pieces : List (List UInt8)) : shown (piece :: pieces) = shown pieces := by
  rw [shown, List.filterMap_cons_none hpiece, shown]

theorem shown_cons_of_some {piece : List UInt8} {c : PathComponent}
    (hpiece : ofPiece piece = some c) (pieces : List (List UInt8)) :
    shown (piece :: pieces) = piece :: shown pieces := by
  rw [shown, List.filterMap_cons_some hpiece, List.map_cons, bytes_of_ofPiece hpiece, shown]

/-- After some start, pieces that stand for nothing can be taken out. -/
theorem eqvGen_archiveName_shown {front : List UInt8} (hfront : front ≠ [])
    (pieces : List (List UInt8)) :
    Relation.EqvGen Shortens (front ++ archiveName pieces)
      (front ++ archiveName (shown pieces)) := by
  induction pieces generalizing front with
  | nil => exact .refl _
  | cons piece pieces ih =>
      cases hpiece : ofPiece piece with
      | some c =>
          have hnext : front ++ Path.slash :: piece ≠ [] := by
            simp
          have hrest := ih hnext
          rw [shown_cons_of_some hpiece]
          simpa [archiveName_cons] using hrest
      | none =>
          rw [shown_cons_of_none hpiece]
          refine .trans _ _ _ ?_ (ih hfront)
          rcases eq_of_ofPiece_eq_none hpiece with rfl | rfl
          · cases pieces with
            | nil => exact .rel _ _ (by simpa [archiveName] using Shortens.lastSlash hfront)
            | cons next pieces => exact .rel _ _ (.slashes front (next ++ archiveName pieces))
          · cases pieces with
            | nil =>
                refine .trans _ _ _ (.rel _ _ (.lastDot front)) (.rel _ _ ?_)
                simpa [archiveName] using Shortens.lastSlash hfront
            | cons next pieces => exact .rel _ _ (.innerDot front (next ++ archiveName pieces))

theorem slash_notMem_of_mem_split {bytes piece : List UInt8} (hmem : piece ∈ split bytes) :
    slash ∉ piece := by
  induction bytes generalizing piece with
  | nil =>
      rw [split, List.mem_singleton] at hmem
      rw [hmem]
      exact List.not_mem_nil
  | cons byte rest ih =>
      obtain ⟨next, others, hrest⟩ := List.exists_cons_of_ne_nil (split_ne_nil rest)
      rw [hrest] at ih
      rw [split, hrest] at hmem
      split at hmem
      next =>
        rcases List.mem_cons.mp hmem with rfl | hmem
        · exact List.not_mem_nil
        · exact ih hmem
      next hbyte =>
        rcases List.mem_cons.mp hmem with rfl | hmem
        · rw [List.mem_cons, not_or]
          exact ⟨Ne.symm hbyte, ih List.mem_cons_self⟩
        · exact ih (List.mem_cons_of_mem _ hmem)

end Path

/-- A component that stands in a path: an entry has a name, which is not one or two dots and has no
slash. -/
def PathComponent.Proper : PathComponent → Prop
  | .entry name => name ≠ [] ∧ name ≠ [Path.dot] ∧ name ≠ [Path.dot, Path.dot] ∧ Path.slash ∉ name
  | _ => True

namespace Path

theorem proper_of_ofPiece {piece : List UInt8} {c : PathComponent} (hslash : slash ∉ piece)
    (hpiece : ofPiece piece = some c) : c.Proper := by
  unfold ofPiece at hpiece
  split at hpiece
  next => cases hpiece
  next => cases hpiece
  next =>
    cases hpiece
    trivial
  next hsome hone htwo =>
    cases hpiece
    exact ⟨hsome, hone, htwo, hslash⟩

theorem proper_of_mem_components {p : Path} {c : PathComponent} (hmem : c ∈ p.components) :
    c.Proper := by
  have hbody : c ∈ (split p.bytes).filterMap ofPiece → c.Proper := by
    intro hmem
    obtain ⟨piece, hin, hpiece⟩ := List.mem_filterMap.mp hmem
    exact proper_of_ofPiece (slash_notMem_of_mem_split hin) hpiece
  simp only [components] at hmem
  split_ifs at hmem
  · rcases List.mem_cons.mp hmem with rfl | hmem
    · trivial
    · exact hbody hmem
  · rcases List.mem_cons.mp hmem with rfl | hmem
    · trivial
    · exact hbody hmem
  · exact hbody hmem

/-! ## The shortest spelling -/

/-- The shortest spelling of a path with these components. -/
def written : List PathComponent → List UInt8
  | [] => []
  | [.root] => [slash]
  | .root :: c :: rest => slash :: (c.bytes ++ archiveName (rest.map PathComponent.bytes))
  | c :: rest => c.bytes ++ archiveName (rest.map PathComponent.bytes)

theorem written_cons {c : PathComponent} (hc : c ≠ .root) (rest : List PathComponent) :
    written (c :: rest) = c.bytes ++ archiveName (rest.map PathComponent.bytes) := by
  cases c with
  | root => exact absurd rfl hc
  | _ => rfl

theorem components_absolute {p : Path} {next : List UInt8} {pieces : List (List UInt8)}
    (hsplit : split p.bytes = [] :: next :: pieces) :
    p.components = .root :: (next :: pieces).filterMap ofPiece := by
  have habsolute : p.isAbsolute = true := by
    rw [isAbsolute, split_eq_cons hsplit]
    rfl
  rw [components, habsolute, if_pos rfl, hsplit, List.filterMap_cons_none rfl]

theorem components_relative {p : Path} {piece : List UInt8} {pieces : List (List UInt8)}
    (hsplit : split p.bytes = piece :: pieces) (hpiece : piece ≠ []) :
    ∃ c, p.components = c :: pieces.filterMap ofPiece ∧ c.bytes = piece ∧ c ≠ .root := by
  have habsolute : p.isAbsolute = false := by
    obtain ⟨byte, rest, rfl⟩ := List.exists_cons_of_ne_nil hpiece
    have hslash := slash_notMem_of_mem_split (hsplit ▸ List.mem_cons_self)
    rw [List.mem_cons, not_or] at hslash
    rw [isAbsolute, split_eq_cons hsplit]
    simpa using Ne.symm hslash.1
  rw [components, habsolute, if_neg Bool.false_ne_true, hsplit]
  by_cases hdot : piece = [dot]
  · rw [hdot]
    exact ⟨.current, rfl, rfl, PathComponent.noConfusion⟩
  · rw [if_neg (by simpa using hdot)]
    cases hshown : ofPiece piece with
    | none => exact absurd (eq_of_ofPiece_eq_none hshown) (not_or.mpr ⟨hpiece, hdot⟩)
    | some c =>
        refine ⟨c, List.filterMap_cons_some hshown, bytes_of_ofPiece hshown, ?_⟩
        rintro rfl
        have hbytes := bytes_of_ofPiece hshown
        have hslash := slash_notMem_of_mem_split (hsplit ▸ List.mem_cons_self)
        exact hslash (hbytes ▸ List.mem_singleton_self _)

theorem eqvGen_written_root (piece : List UInt8) (pieces : List (List UInt8)) :
    Relation.EqvGen Shortens (archiveName (piece :: pieces))
      (written (.root :: (piece :: pieces).filterMap ofPiece)) := by
  have hsome : ∀ {piece c} pieces, ofPiece piece = some c →
      Relation.EqvGen Shortens (archiveName (piece :: pieces))
        (written (.root :: (piece :: pieces).filterMap ofPiece)) := by
    intro piece c pieces hpiece
    rw [List.filterMap_cons_some hpiece, written, bytes_of_ofPiece hpiece]
    exact eqvGen_archiveName_shown (List.cons_ne_nil slash piece) pieces
  -- until a component comes, pieces are taken out behind the first slash, which stays
  induction pieces generalizing piece with
  | nil =>
      cases hpiece : ofPiece piece with
      | some c => exact hsome [] hpiece
      | none =>
          rcases eq_of_ofPiece_eq_none hpiece with rfl | rfl
          · exact .refl _
          · exact .rel _ _ (.lastDot [])
  | cons next pieces ih =>
      cases hpiece : ofPiece piece with
      | some c => exact hsome (next :: pieces) hpiece
      | none =>
          rw [List.filterMap_cons_none hpiece]
          refine .trans _ _ _ (.rel _ _ ?_) (ih next)
          rcases eq_of_ofPiece_eq_none hpiece with rfl | rfl
          · exact .slashes [] (next ++ archiveName pieces)
          · exact .innerDot [] (next ++ archiveName pieces)

theorem respelled_written (p : Path) : p.Respelled ⟨written p.components⟩ := by
  obtain ⟨piece, pieces, hsplit⟩ := List.exists_cons_of_ne_nil (split_ne_nil p.bytes)
  have hbytes := split_eq_cons hsplit
  rw [Respelled, hbytes]
  by_cases hpiece : piece = []
  · subst hpiece
    cases pieces with
    | nil =>
        have hempty : p = ⟨[]⟩ := congrArg Path.mk hbytes
        rw [hempty]
        exact .refl _
    | cons next pieces =>
        rw [components_absolute hsplit]
        exact eqvGen_written_root next pieces
  · obtain ⟨c, hcomponents, hc, hroot⟩ := components_relative hsplit hpiece
    rw [hcomponents, written_cons hroot, hc]
    exact eqvGen_archiveName_shown hpiece pieces

theorem components_eq_of_eqvGen {a b : List UInt8} (hsame : Relation.EqvGen Shortens a b) :
    components ⟨a⟩ = components ⟨b⟩ := by
  induction hsame with
  | rel a b hshort => exact hshort.components_eq
  | refl a => rfl
  | symm a b _ ih => exact ih.symm
  | trans a b c _ _ hab hbc => exact hab.trans hbc

/-- Paths are spellings of one another exactly if they have the same components. -/
theorem respelled_iff {p q : Path} : p.Respelled q ↔ p.components = q.components := by
  constructor
  · exact components_eq_of_eqvGen
  · intro hsame
    have hp := respelled_written p
    rw [hsame] at hp
    exact .trans _ _ _ hp (.symm _ _ (respelled_written q))

end Path

/-! ## What a name tells -/

namespace PathComponent

/-- The bytes of a component in a name, up to the next slash. -/
def lead : PathComponent → List UInt8
  | .root => []
  | c => c.bytes

theorem lead_injOn {c d : PathComponent} (hc : c.Proper) (hd : d.Proper)
    (hlead : c.lead = d.lead) : c = d := by
  cases c <;> cases d <;> simp_all [lead, bytes, Proper, Path.dot]

theorem takeWhile_append_archiveName {c : PathComponent} (hc : c.Proper) (names : List FileName) :
    (c.bytes ++ archiveName names).takeWhile (· != Path.slash) = c.lead := by
  have hstop : (archiveName names).takeWhile (· != Path.slash) = [] := by
    cases names <;> rfl
  have hname : ∀ name, Path.slash ∉ name →
      (name ++ archiveName names).takeWhile (· != Path.slash) = name := by
    intro name hslash
    rw [List.takeWhile_append_of_pos, hstop, List.append_nil]
    intro byte hbyte
    rw [bne_iff_ne]
    rintro rfl
    exact hslash hbyte
  cases c with
  | root => rfl
  | current => exact hname _ (by decide)
  | parent => exact hname _ (by decide)
  | entry name => exact hname _ hc.2.2.2

end PathComponent

/-- The components that a name is made of can be read off the name. -/
theorem archiveName_bytes_injOn {cs ds : List PathComponent} (hcs : ∀ c ∈ cs, c.Proper)
    (hds : ∀ d ∈ ds, d.Proper)
    (heq : archiveName (cs.map PathComponent.bytes) = archiveName (ds.map PathComponent.bytes)) :
    cs = ds := by
  induction cs generalizing ds with
  | nil =>
      cases ds with
      | nil => rfl
      | cons d ds => cases heq
  | cons c cs ih =>
      cases ds with
      | nil => cases heq
      | cons d ds =>
          rw [List.forall_mem_cons] at hcs hds
          rw [List.map_cons, List.map_cons, archiveName_cons, archiveName_cons] at heq
          have hrest := List.tail_eq_of_cons_eq heq
          have hlead := congrArg (List.takeWhile (· != Path.slash)) hrest
          rw [PathComponent.takeWhile_append_archiveName hcs.1,
            PathComponent.takeWhile_append_archiveName hds.1] at hlead
          obtain rfl := PathComponent.lead_injOn hcs.1 hds.1 hlead
          rw [ih hcs.2 hds.2 (List.append_cancel_left hrest)]

theorem Text.isValidUTF8_archiveName {names : List FileName} :
    (archiveName names).toByteArray.IsValidUTF8 ↔
      ∀ name ∈ names, name.toByteArray.IsValidUTF8 := by
  induction names with
  | nil =>
      refine iff_of_true ?_ (by simp)
      exact ByteArray.isValidUTF8_empty
  | cons name names ih =>
      rw [isValidUTF8_archiveName_cons, ih, List.forall_mem_cons]

/-! ## Names below a root -/

namespace Path

theorem eq_append_of_stripPrefix? {start components rest : List PathComponent}
    (hrest : stripPrefix? start components = some rest) : components = start ++ rest := by
  induction start generalizing components with
  | nil => exact Option.some.inj (by cases components <;> exact hrest)
  | cons c start ih =>
      cases components with
      | nil => cases hrest
      | cons d components =>
          rw [stripPrefix?] at hrest
          split at hrest
          next hsame => rw [hsame, ih hrest, List.cons_append]
          next => cases hrest

theorem stripPrefix?_eq_none_iff {start components : List PathComponent} :
    stripPrefix? start components = none ↔ ¬start <+: components := by
  constructor
  · rintro hnone ⟨rest, rfl⟩
    rw [stripPrefix?_append] at hnone
    cases hnone
  · intro hprefix
    rw [Option.eq_none_iff_forall_ne_some]
    intro rest hrest
    exact hprefix ⟨rest, (eq_append_of_stripPrefix? hrest).symm⟩

end Path

section Names

variable {root path : Path} {below : List PathComponent}

theorem nameBelow_eq_outsideRoot :
    nameBelow root path = .error .outsideRoot ↔ ¬root.components <+: path.components := by
  rw [← Path.stripPrefix?_eq_none_iff, nameBelow]
  cases Path.stripPrefix? root.components path.components with
  | none => exact iff_of_true rfl rfl
  | some below =>
      refine iff_of_false ?_ (Option.some_ne_none below)
      dsimp only
      cases below.mapM PathComponent.archiveText? <;> rintro ⟨⟩

theorem nameBelow_eq_ok_congr {root' path' : Path} (hroot : root.components = root'.components)
    (hpath : path.components = path'.components) (name : String) :
    nameBelow root path = .ok name ↔ nameBelow root' path' = .ok name := by
  rw [nameBelow, nameBelow, hroot, hpath]
  cases Path.stripPrefix? root'.components path'.components with
  | none => simp
  | some below =>
      dsimp only
      cases below.mapM PathComponent.archiveText? <;> simp

theorem nameBelow_eq_ok (hbelow : path.components = root.components ++ below) {name : String} :
    nameBelow root path = .ok name ↔
      name.toUTF8 = (archiveName (below.map PathComponent.bytes)).toByteArray := by
  rw [nameBelow_of_components hbelow, ← Text.ofBytes?_eq_some]
  cases Text.ofBytes? (archiveName (below.map PathComponent.bytes)) <;> simp

theorem nameBelow_eq_notUtf8 (hbelow : path.components = root.components ++ below) :
    nameBelow root path = .error (.notUtf8 path) ↔
      ¬∀ c ∈ below, c.bytes.toByteArray.IsValidUTF8 := by
  have hnames : (∀ c ∈ below, c.bytes.toByteArray.IsValidUTF8) ↔
      (archiveName (below.map PathComponent.bytes)).toByteArray.IsValidUTF8 := by
    rw [Text.isValidUTF8_archiveName, List.forall_mem_map]
  rw [nameBelow_of_components hbelow, hnames, ← Text.ofBytes?_eq_none]
  cases Text.ofBytes? (archiveName (below.map PathComponent.bytes)) <;> simp

theorem exists_nameBelow (hbelow : path.components = root.components ++ below)
    (htext : ∀ c ∈ below, c.bytes.toByteArray.IsValidUTF8) :
    ∃ name, nameBelow root path = .ok name := by
  have hshown := mt (nameBelow_eq_notUtf8 hbelow).mp (not_not.mpr htext)
  rw [nameBelow_of_components hbelow] at hshown ⊢
  cases hname : Text.ofBytes? (archiveName (below.map PathComponent.bytes)) with
  | none =>
      rw [hname] at hshown
      exact absurd rfl hshown
  | some name => exact ⟨name, rfl⟩

/-- A path with a name leads through the root. -/
theorem exists_below {name : String} (hname : nameBelow root path = .ok name) :
    ∃ below, path.components = root.components ++ below := by
  by_contra hnone
  have houtside : nameBelow root path = .error .outsideRoot := by
    rw [nameBelow_eq_outsideRoot]
    rintro ⟨below, hbelow⟩
    exact hnone ⟨below, hbelow.symm⟩
  rw [houtside] at hname
  cases hname

end Names

/-- A path has no name if the components of the root do not lead it.  Otherwise its name is a slash
and the bytes of the component for each that is left, as long as all of them are text.  It is the
same for all spellings of the root and the path, and below one root no two paths share a name that
are not spellings of one. -/
theorem nameBelow_follows_components (root path : Path) :
    (nameBelow root path = .error .outsideRoot ↔ ¬root.components <+: path.components) ∧
      (∀ below, path.components = root.components ++ below →
        ((∀ c ∈ below, c.bytes.toByteArray.IsValidUTF8) →
          ∃ name, nameBelow root path = .ok name ∧
            name.toUTF8 = (below.flatMap fun c => Path.slash :: c.bytes).toByteArray) ∧
        ((¬∀ c ∈ below, c.bytes.toByteArray.IsValidUTF8) →
          nameBelow root path = .error (.notUtf8 path))) ∧
      (∀ root' path', root.Respelled root' → path.Respelled path' →
        (nameBelow root path = .error .outsideRoot ↔
          nameBelow root' path' = .error .outsideRoot) ∧
        ∀ name, nameBelow root path = .ok name ↔ nameBelow root' path' = .ok name) ∧
      ∀ other name name', nameBelow root path = .ok name → nameBelow root other = .ok name' →
        (name = name' ↔ path.components = other.components) := by
  refine ⟨nameBelow_eq_outsideRoot, ?_, ?_, ?_⟩
  · intro below hbelow
    refine ⟨fun htext => ?_, (nameBelow_eq_notUtf8 hbelow).mpr⟩
    obtain ⟨name, hname⟩ := exists_nameBelow hbelow htext
    have hbytes := (nameBelow_eq_ok hbelow).mp hname
    rw [archiveName, List.flatMap_map] at hbytes
    exact ⟨name, hname, hbytes⟩
  · intro root' path' hroot hpath
    rw [Path.respelled_iff] at hroot hpath
    exact ⟨by rw [nameBelow_eq_outsideRoot, nameBelow_eq_outsideRoot, hroot, hpath],
      nameBelow_eq_ok_congr hroot hpath⟩
  · intro other name name' hname hname'
    constructor
    · rintro rfl
      obtain ⟨below, hbelow⟩ := exists_below hname
      obtain ⟨below', hbelow'⟩ := exists_below hname'
      rw [nameBelow_eq_ok hbelow] at hname
      rw [nameBelow_eq_ok hbelow', hname] at hname'
      have hproper : ∀ c ∈ below, c.Proper := fun c hc =>
        Path.proper_of_mem_components (hbelow ▸ List.mem_append_right _ hc)
      have hproper' : ∀ c ∈ below', c.Proper := fun c hc =>
        Path.proper_of_mem_components (hbelow' ▸ List.mem_append_right _ hc)
      rw [hbelow, hbelow', archiveName_bytes_injOn hproper hproper'
        (List.toByteArray_inj.mp hname')]
    · intro hsame
      exact Except.ok.inj (((nameBelow_eq_ok_congr rfl hsame name).mp hname).symm.trans hname')

/-- Leading components do not make a name if what is left is no text. -/
theorem nameBelow_fails_below_root :
    (Path.mk [0x2e, 0x2f, 0xff]).components = (Path.mk [0x2e]).components ++ [.entry [0xff]] ∧
      nameBelow ⟨[0x2e]⟩ ⟨[0x2e, 0x2f, 0xff]⟩ = .error (.notUtf8 ⟨[0x2e, 0x2f, 0xff]⟩) := by
  decide

theorem nameBelow_follows_components_dots :
    (Path.ofString "/a/").Respelled (Path.ofString "/a") ∧
      (Path.ofString "/a/./b/../c").Respelled (Path.ofString "/a/b/../c") ∧
      nameBelow (Path.ofString "/a/") (Path.ofString "/a/./b/../c") = .ok "/b/../c" ∧
      nameBelow (Path.ofString "/a") (Path.ofString "/a/b/../c") = .ok "/b/../c" ∧
      nameBelow (Path.ofString "/a/") (Path.ofString "/a/c") = .ok "/c" ∧
      (Path.ofString "/a/./b/../c").components ≠ (Path.ofString "/a/c").components := by
  have hroot : (Path.ofString "/a/").Respelled (Path.ofString "/a") :=
    Path.respelled_iff.mpr rfl
  have hpath : (Path.ofString "/a/./b/../c").Respelled (Path.ofString "/a/b/../c") :=
    Path.respelled_iff.mpr rfl
  have hother : nameBelow (Path.ofString "/a/") (Path.ofString "/a/c") = .ok "/c" := rfl
  have htext : ∀ c ∈ [PathComponent.entry [0x62], .parent, .entry [0x63]],
      c.bytes.toByteArray.IsValidUTF8 := by
    simp only [List.forall_mem_cons]
    exact ⟨Text.isValidUTF8_of_ofBytes? (rfl : Text.ofBytes? [0x62] = some "b"),
      Text.isValidUTF8_of_ofBytes? (rfl : Text.ofBytes? [0x2e, 0x2e] = some ".."),
      Text.isValidUTF8_of_ofBytes? (rfl : Text.ofBytes? [0x63] = some "c"), by simp⟩
  obtain ⟨_, hbelow, hspelled, hparted⟩ :=
    nameBelow_follows_components (Path.ofString "/a/") (Path.ofString "/a/./b/../c")
  obtain ⟨name, hname, hbytes⟩ := (hbelow _ rfl).1 htext
  obtain rfl : name = "/b/../c" := String.toByteArray_inj.mp hbytes
  refine ⟨hroot, hpath, hname, ((hspelled _ _ hroot hpath).2 _).mp hname, hother, fun hsame => ?_⟩
  exact absurd ((hparted _ _ _ hname hother).mpr hsame) (by decide)

end BootMemory
