import BootMemory.Proofs.Iteration

/-!
# Damage

Whether a record stands at a place depends on no byte behind its contents.  So the records whose
contents end in the part that two byte strings share are the same in both, and they come first in
each.  Data that is cut short has just these records left.
-/

namespace BootMemory

/-! ## Shared bytes -/

namespace Bytes

variable {a b : ByteArray} {n i j : Nat}

theorem byteAt_of_shared (hshared : a.extract 0 n = b.extract 0 n) (hi : i < n) :
    byteAt a i = byteAt b i := by
  have hbyte {data : ByteArray} : byteAt (data.extract 0 n) i = byteAt data i := by
    rw [byteAt_extract (by omega), Nat.zero_add]
  rw [← hbyte, hshared, hbyte]

theorem slice_of_shared (hshared : a.extract 0 n = b.extract 0 n) {count : Nat}
    (hi : i + count ≤ n) : slice a i count = slice b i count := by
  apply List.map_congr_left
  intro k hk
  rw [List.mem_range] at hk
  exact byteAt_of_shared hshared (by omega)

theorem extract_of_shared (hshared : a.extract 0 n = b.extract 0 n) (hj : j ≤ n) :
    a.extract i j = b.extract i j := by
  have hpart {data : ByteArray} : (data.extract 0 n).extract i j = data.extract i j := by
    rw [ByteArray.extract_extract, Nat.zero_add, Nat.zero_add, Nat.min_eq_left hj]
  rw [← hpart, hshared, hpart]

end Bytes

namespace Archive

/-! ## Records in the shared part -/

namespace Located

variable {a b data : ByteArray} {p : Located} {n : Nat}

/-- A record stands wherever the bytes up to the end of its contents are the same. -/
theorem Stands.of_shared (hp : p.Stands a) (hfits : p.stop ≤ b.size)
    (hshared : a.extract 0 p.stop = b.extract 0 p.stop) : p.Stands b := by
  -- every field lies in front of the end of the contents
  have hordered := hp.ordered
  have hfixed : p.offset + 21 ≤ p.stop := hordered.1.trans hordered.2.1
  have hnumber {i : Nat} (hi : i + 8 ≤ p.stop) : numberAt a i = numberAt b i :=
    congrArg ofLittleEndian (Bytes.slice_of_shared hshared hi)
  have hname : nameStop a p.offset = nameStop b p.offset := by
    rw [nameStop, nameStop, Bytes.byteAt_of_shared hshared (by omega)]
  have hnamed := hname ▸ hp.named
  exact {
    fixed := hfixed.trans hfits
    magic := (Bytes.slice_of_shared hshared (by omega)).symm.trans hp.magic
    start := hp.start.trans (by rw [hnumber (by omega)])
    stop := hp.stop.trans (by rw [hnumber (by omega)])
    named := hnamed
    nameFits := hnamed.trans (hordered.2.1.trans hfits)
    name := by
      rw [hp.name, hname]
      exact Bytes.extract_of_shared hshared (hnamed.trans hordered.2.1)
    fits := hfits
    contents := hp.contents.trans (Bytes.extract_of_shared hshared le_rfl) }

theorem stands_extract_iff :
    p.Stands (data.extract 0 n) ↔ p.Stands data ∧ p.stop ≤ n := by
  have hshared (hn : p.stop ≤ n) :
      (data.extract 0 n).extract 0 p.stop = data.extract 0 p.stop := by
    rw [ByteArray.extract_extract, Nat.zero_add, Nat.zero_add, Nat.min_eq_left hn]
  constructor
  · intro hp
    have hfits := hp.fits
    rw [ByteArray.size_extract] at hfits
    exact ⟨hp.of_shared (by omega) (hshared (by omega)), by omega⟩
  · rintro ⟨hp, hn⟩
    refine hp.of_shared ?_ (hshared hn).symm
    have hfits := hp.fits
    rw [ByteArray.size_extract]
    omega

end Located

section Lists

variable {data : ByteArray} {offset n : Nat} {list : List Located}

/-- The records left of data that is cut short go up to the first one that does not fit. -/
theorem Lists.extract (hlists : Lists data offset list) (n : Nat) :
    Lists (data.extract 0 n) offset (list.takeWhile fun p => p.stop ≤ n) := by
  induction hlists with
  | stop hnone => exact .stop fun p hp => hnone p (Located.stands_extract_iff.mp hp).1
  | @step p rest hp _ ih =>
      by_cases hn : p.stop ≤ n
      · rw [List.takeWhile_cons_of_pos (by simpa using hn)]
        exact .step (Located.stands_extract_iff.mpr ⟨hp, hn⟩) ih
      · rw [List.takeWhile_cons_of_neg (by simpa using hn)]
        -- a record that is left at this place would be `p` itself
        refine .stop fun q hq hoffset => hn ?_
        obtain ⟨hqData, hqFits⟩ := Located.stands_extract_iff.mp hq
        exact hp.unique hqData hoffset ▸ hqFits

/-- Contents end in increasing order, so the records with an early end are the first ones. -/
theorem Lists.takeWhile_eq_filter (hlists : Lists data offset list) :
    (list.takeWhile fun p => p.stop ≤ n) = list.filter fun p => p.stop ≤ n := by
  induction hlists with
  | stop _ => rfl
  | @step p rest hp hrest ih =>
      by_cases hn : p.stop ≤ n
      · rw [List.takeWhile_cons_of_pos (by simpa using hn),
          List.filter_cons_of_pos (by simpa using hn), ih]
      · rw [List.takeWhile_cons_of_neg (by simpa using hn),
          List.filter_cons_of_neg (by simpa using hn)]
        -- the records behind `p` end after it
        symm
        rw [List.filter_eq_nil_iff]
        intro q hq
        have hafter := hrest.offset_le q hq
        have hordered := hp.ordered
        have hqOrdered := (hrest.stands q hq).ordered
        simp only [decide_eq_true_eq]
        omega

end Lists

/-- The records whose contents end at `n` or before. -/
def recordsWithin (data : ByteArray) (n : Nat) : List Located :=
  (records data).filter fun p => p.stop ≤ n

theorem records_extract (data : ByteArray) (n : Nat) :
    records (data.extract 0 n) = recordsWithin data n := by
  have hlists := lists_recordsFrom data 0
  rw [records, (hlists.extract n).eq_recordsFrom, hlists.takeWhile_eq_filter]
  rfl

theorem recordsWithin_isPrefix (data : ByteArray) (n : Nat) :
    recordsWithin data n <+: records data := by
  rw [recordsWithin, records, ← (lists_recordsFrom data 0).takeWhile_eq_filter]
  exact List.takeWhile_prefix _

/-- What is looked up among the first records is found there. -/
theorem lookup_of_find? {data : ByteArray} {n : Nat} {name : String} {p : Located}
    (hfind : ((recordsWithin data n).find? fun q => q.file.name == name) = some p) :
    lookup data name = some p.file.contents := by
  have hall := (recordsWithin_isPrefix data n).find?_eq_some hfind
  rw [lookup, files_eq_map, List.find?_map, Function.comp_def, hall]
  rfl

/-- Byte strings with the same first `n` bytes have the same records up to there, with the same
contents under each of their names, and these are all the records of the first `n` bytes alone. -/
theorem damage_is_contained {a b : ByteArray} {n : Nat}
    (hshared : a.extract 0 n = b.extract 0 n) :
    recordsWithin a n = recordsWithin b n ∧
      (∀ data ∈ [a, b], recordsWithin data n <+: records data ∧
        records (data.extract 0 n) = recordsWithin data n ∧
        files data = (records data).map Located.file ∧ Lists data 0 (records data)) ∧
      ∀ p ∈ recordsWithin a n, ∃ q ∈ recordsWithin a n, q.file.name = p.file.name ∧
        ∀ data ∈ [a, b, a.extract 0 n],
          lookup data p.file.name = some q.file.contents := by
  have hsame : recordsWithin a n = recordsWithin b n := by
    rw [← records_extract, hshared, records_extract]
  have hcut : recordsWithin (a.extract 0 n) n = recordsWithin a n := by
    rw [← records_extract, ByteArray.extract_extract, Nat.zero_add, Nat.zero_add, Nat.min_self,
      records_extract]
  refine ⟨hsame, fun data _ => ⟨recordsWithin_isPrefix data n, records_extract data n,
    files_eq_map data, lists_recordsFrom data 0⟩, fun p hp => ?_⟩
  obtain ⟨q, hfind⟩ : ∃ q, ((recordsWithin a n).find? fun q => q.file.name == p.file.name) =
      some q := by
    rw [← Option.isSome_iff_exists, List.find?_isSome]
    exact ⟨p, hp, beq_self_eq_true _⟩
  refine ⟨q, List.mem_of_find?_eq_some hfind, ?_, ?_⟩
  · simpa using List.find?_some hfind
  · intro data hdata
    simp only [List.mem_cons, List.not_mem_nil, or_false] at hdata
    rcases hdata with rfl | rfl | rfl
    · exact lookup_of_find? hfind
    · exact lookup_of_find? (hsame ▸ hfind)
    · exact lookup_of_find? (hcut.symm ▸ hfind)

/-- The record of `hostile`, and a second one whose header starts like the one there. -/
def paired : ByteArray :=
  ⟨#[0x4c, 0x4f, 0x52, 0x44, 24, 0, 0, 0, 0, 0, 0, 0, 3, 0, 0, 0, 0, 0, 0, 0, 1, 0x61, 9, 9, 1, 2,
    3, 0, 0, 0, 0, 0, 0x4c, 0x4f, 0x52, 0x44, 22, 0, 0, 0, 0, 0, 0, 0, 1, 0, 0, 0, 0, 0, 0, 0, 1,
    0x62, 7]⟩

theorem damage_is_contained_hostile :
    hostile.extract 0 36 = paired.extract 0 36 ∧
      ∃ p : Located, records hostile = [p] ∧ [p] <+: records paired ∧
        records (hostile.extract 0 36) = [p] ∧
        ∀ data ∈ [hostile, paired, hostile.extract 0 36],
          lookup data "a" = some ⟨#[1, 2, 3]⟩ := by
  have hshared : hostile.extract 0 36 = paired.extract 0 36 := by decide
  obtain ⟨p, hrecords, hfile, hstop⟩ := records_hostile
  have hwithin : recordsWithin hostile 36 = [p] := by
    rw [recordsWithin, hrecords]
    simpa using hstop.trans (by decide)
  obtain ⟨hsame, hparts, hlookup⟩ := damage_is_contained hshared
  refine ⟨hshared, p, hrecords, ?_, ?_, ?_⟩
  · rw [← hwithin, hsame]
    exact (hparts paired (by simp)).1
  · rw [← hwithin]
    exact (hparts hostile (by simp)).2.1
  · obtain ⟨q, hq, -, hfound⟩ := hlookup p (by simp [hwithin])
    obtain rfl : q = p := by simpa [hwithin] using hq
    rw [hfile] at hfound
    exact hfound

end Archive

end BootMemory
