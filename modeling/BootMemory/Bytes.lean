/-!
# Byte stores

Reading and overwriting bytes of an array at an index, with the view that later results use: what
each write does to the byte at every index.  Reads outside the array give zero and writes outside
it do nothing, so a bound matters only where a statement says so.  What was written is read back
where it went, and what lies beside it is unchanged.
-/

namespace BootMemory.Bytes

def byteAt (bytes : ByteArray) (i : Nat) : UInt8 :=
  if h : i < bytes.size then bytes[i] else 0

def put (bytes : ByteArray) (i : Nat) (value : UInt8) : ByteArray :=
  if h : i < bytes.size then bytes.set i value h else bytes

/-- The array with `values` from index `i` on. -/
def overwrite (bytes : ByteArray) (i : Nat) : List UInt8 → ByteArray
  | [] => bytes
  | value :: rest => overwrite (put bytes i value) (i + 1) rest

def slice (bytes : ByteArray) (i count : Nat) : List UInt8 :=
  (List.range count).map fun k => byteAt bytes (i + k)

@[simp] theorem length_slice (bytes : ByteArray) (i count : Nat) :
    (slice bytes i count).length = count := by
  simp [slice]

@[simp] theorem size_put (bytes : ByteArray) (i : Nat) (value : UInt8) :
    (put bytes i value).size = bytes.size := by
  unfold put
  split
  · simp [← ByteArray.size_data]
  · rfl

@[simp] theorem size_overwrite (bytes : ByteArray) (i : Nat) (values : List UInt8) :
    (overwrite bytes i values).size = bytes.size := by
  induction values generalizing bytes i with
  | nil => rfl
  | cons value rest ih => simp [overwrite, ih]

theorem byteAt_replicate (count : Nat) (byte : UInt8) (i : Nat) :
    byteAt ⟨Array.replicate count byte⟩ i = if i < count then byte else 0 := by
  have hsize : (ByteArray.mk (Array.replicate count byte)).size = count := Array.size_replicate
  rw [byteAt]
  by_cases hin : i < count
  · rw [dif_pos (by rwa [hsize]), if_pos hin]
    exact Array.getElem_replicate _
  · rw [dif_neg (by rwa [hsize]), if_neg hin]

theorem byteAt_put (bytes : ByteArray) (i j : Nat) (value : UInt8) :
    byteAt (put bytes i value) j =
      if i = j ∧ j < bytes.size then value else byteAt bytes j := by
  by_cases hi : i < bytes.size
  · have hsize : (bytes.set i value hi).size = bytes.size := by simp [← ByteArray.size_data]
    by_cases hj : j < bytes.size
    · simp [byteAt, put, hi, hj, hsize, ByteArray.getElem_eq_getElem_data, Array.getElem_set]
    · simp [byteAt, put, hi, hj, hsize]
  · have hne : ¬(i = j ∧ j < bytes.size) := by omega
    simp [put, hi, hne]

/-- After a write, the bytes in its range are the written ones and the others are unchanged. -/
theorem byteAt_overwrite (bytes : ByteArray) (i j : Nat) (values : List UInt8)
    (hfits : i + values.length ≤ bytes.size) :
    byteAt (overwrite bytes i values) j =
      if i ≤ j then (values[j - i]?).getD (byteAt bytes j) else byteAt bytes j := by
  induction values generalizing bytes i with
  | nil => simp [overwrite]
  | cons value rest ih =>
      have hlen : i + (rest.length + 1) ≤ bytes.size := by simpa using hfits
      rw [overwrite, ih _ _ (by rw [size_put]; omega), byteAt_put]
      by_cases hlt : j < i
      · rw [if_neg (by omega), if_neg (by omega), if_neg (by omega)]
      · by_cases heq : i = j
        · subst heq
          rw [if_neg (by omega), if_pos ⟨rfl, by omega⟩, if_pos (Nat.le_refl i)]
          simp
        · have hsub : j - i = j - (i + 1) + 1 := by omega
          rw [if_pos (by omega), if_neg (by omega), if_pos (by omega), hsub,
            List.getElem?_cons_succ]

/-- Reading where a write went gives what was written. -/
theorem slice_overwrite (bytes : ByteArray) (i : Nat) (values : List UInt8)
    (hfits : i + values.length ≤ bytes.size) :
    slice (overwrite bytes i values) i values.length = values := by
  apply List.ext_getElem
  · exact length_slice _ _ _
  · intro k hleft hright
    have hk : i + k - i = k := by omega
    simp only [slice, List.getElem_map, List.getElem_range]
    rw [byteAt_overwrite bytes i (i + k) values hfits, if_pos (Nat.le_add_right i k), hk,
      List.getElem?_eq_getElem hright, Option.getD_some]

theorem byteAt_overwrite_of_outside (bytes : ByteArray) (i j : Nat) (values : List UInt8)
    (houtside : j < i ∨ i + values.length ≤ j) :
    byteAt (overwrite bytes i values) j = byteAt bytes j := by
  induction values generalizing bytes i with
  | nil => rfl
  | cons value rest ih =>
      rw [List.length_cons] at houtside
      rw [overwrite, ih _ _ (by omega), byteAt_put, if_neg (by omega)]

/-- A write leaves alone what lies beside it. -/
theorem slice_overwrite_of_disjoint (bytes : ByteArray) (i j count : Nat) (values : List UInt8)
    (hdisjoint : j + count ≤ i ∨ i + values.length ≤ j) :
    slice (overwrite bytes i values) j count = slice bytes j count := by
  apply List.map_congr_left
  intro k hk
  rw [List.mem_range] at hk
  exact byteAt_overwrite_of_outside bytes i (j + k) values (by omega)

end BootMemory.Bytes
