import BootMemory.Proofs.Actions
import BootMemory.Proofs.FreeFrames

/-!
# The machine seen through its observers

What a machine holds is seen as a layout that never changes, the byte at each physical address,
the set of free frames, and the record of dropped lookups.  The bytes that hold the bitmap are
left out of the view: they are seen through the free frames.  A write beside the bitmap changes
exactly the bytes in its range, and marking frames changes the free frames alone, so the two
parts of the state stay apart even where the bitmap lies in memory.
-/

namespace BootMemory

/-- The parts of a machine that no operation on its memory changes. -/
structure Layout where
  base : Nat
  size : Nat
  /-- Whether the bitmap lies in memory. -/
  resident : Bool
  origin : Nat
  storeSize : Nat
  firstFrame : Nat
  frameCount : Nat
  levels : PagingDepth

namespace Layout

def holdsBits (l : Layout) (a : Nat) : Bool :=
  l.resident && l.base + l.origin ≤ a && a < l.base + l.origin + (l.frameCount + 7) / 8

def tracked (l : Layout) : Set Nat :=
  Set.Ico l.firstFrame (l.firstFrame + l.frameCount)

/-- A frame that lies in memory as a whole and holds no part of the bitmap. -/
structure Plain (l : Layout) (f : Nat) : Prop where
  above : l.base ≤ f * 4096
  below : f * 4096 + 4096 ≤ l.base + l.size
  noBits : ∀ a, a / 4096 = f → l.holdsBits a = false

def top (l : Layout) : Nat :=
  l.levels.top

theorem Plain.lt {l : Layout} {f : Nat} (hplain : l.Plain f) (hmemory : l.base + l.size ≤ 2 ^ 52) :
    f < 2 ^ 40 := by
  have hbelow := hplain.below
  omega

theorem top_eq (l : Layout) : l.top = 4 ∨ l.top = 5 := by
  unfold top
  cases l.levels with
  | four => exact .inl rfl
  | five => exact .inr rfl

end Layout

/-- What is seen of a machine. -/
@[ext]
structure View where
  layout : Layout
  /-- The byte at a physical address; zero outside memory and where the bitmap lies. -/
  byte : Nat → UInt8
  /-- The frames that may be handed out. -/
  free : Set Nat
  invalidated : Array VirtAddr

namespace View

def word (v : View) (a : Nat) : Word :=
  UInt64.ofNat (ofLittleEndian ((List.range 8).map fun k => v.byte (a + k)))

def write (v : View) (a : Nat) (values : List UInt8) : View :=
  { v with byte := fun b => if a ≤ b then (values[b - a]?).getD (v.byte b) else v.byte b }

def writeWord (v : View) (a : Nat) (value : Word) : View :=
  v.write a (toLittleEndian 8 value.toNat)

def clear (v : View) (f count : Nat) : View :=
  v.write (f * 4096) (List.replicate (count * 4096) 0)

def take (v : View) (f count : Nat) : View :=
  { v with free := v.free \ Set.Ico f (f + count) }

/-- Gives frames back.  Those not kept track of are passed over. -/
def give (v : View) (frames : Set Nat) : View :=
  { v with free := v.free ∪ (frames ∩ v.layout.tracked) }

def invalidate (v : View) (virt : VirtAddr) : View :=
  { v with invalidated := v.invalidated.push virt }

section Write

variable {v : View} {a b : Nat} {values : List UInt8}

@[simp] theorem layout_write : (v.write a values).layout = v.layout := rfl

@[simp] theorem free_write : (v.write a values).free = v.free := rfl

@[simp] theorem write_nil (v : View) (a : Nat) : v.write a [] = v := by
  simp [write]

theorem byte_write_of_outside (houtside : b < a ∨ a + values.length ≤ b) :
    (v.write a values).byte b = v.byte b := by
  simp only [write]
  split
  next hle =>
    rw [List.getElem?_eq_none (by omega), Option.getD_none]
  next => rfl

theorem byte_write_of_inside {k : Nat} (hk : k < values.length) :
    (v.write a values).byte (a + k) = values[k] := by
  simp only [write, if_pos (Nat.le_add_right a k), Nat.add_sub_cancel_left,
    List.getElem?_eq_getElem hk, Option.getD_some]

theorem word_write_of_outside (houtside : b + 8 ≤ a ∨ a + values.length ≤ b) :
    (v.write a values).word b = v.word b := by
  unfold word
  congr 2
  apply List.map_congr_left
  intro k hk
  rw [List.mem_range] at hk
  exact byte_write_of_outside (by omega)

theorem word_writeWord (v : View) (a : Nat) (value : Word) :
    (v.writeWord a value).word a = value := by
  have hbytes : ((List.range 8).map fun k => (v.writeWord a value).byte (a + k)) =
      toLittleEndian 8 value.toNat := by
    apply List.ext_getElem
    · simp
    · intro k _ hk
      simp only [List.getElem_map, List.getElem_range]
      exact byte_write_of_inside hk
  have hlt : value.toNat < 1 <<< (8 * 8) := value.toNat_lt
  rw [word, hbytes, ofLittleEndian_toLittleEndian, Nat.mod_eq_of_lt hlt, UInt64.ofNat_toNat]

theorem word_writeWord_of_disjoint {value : Word} (hdisjoint : b + 8 ≤ a ∨ a + 8 ≤ b) :
    (v.writeWord a value).word b = v.word b :=
  word_write_of_outside (by rwa [length_toLittleEndian])

theorem byte_clear (v : View) (f count a : Nat) :
    (v.clear f count).byte a = if f ≤ a / 4096 ∧ a / 4096 < f + count then 0 else v.byte a := by
  by_cases hin : f ≤ a / 4096 ∧ a / 4096 < f + count
  · have hlength : a - f * 4096 < (List.replicate (count * 4096) (0 : UInt8)).length := by
      rw [List.length_replicate]
      omega
    have hinside := byte_write_of_inside (v := v) (a := f * 4096) hlength
    rw [show f * 4096 + (a - f * 4096) = a by omega, List.getElem_replicate] at hinside
    rw [if_pos hin]
    exact hinside
  · rw [if_neg hin]
    apply byte_write_of_outside
    rw [List.length_replicate]
    omega

theorem word_clear_of_inside {f count : Nat} (hlow : f * 4096 ≤ a)
    (hhigh : a + 8 ≤ (f + count) * 4096) : (v.clear f count).word a = 0 := by
  have hbytes : ((List.range 8).map fun k => (v.clear f count).byte (a + k)) =
      List.replicate 8 0 := by
    rw [List.eq_replicate_iff]
    constructor
    · simp
    · intro byte hbyte
      obtain ⟨k, hk, rfl⟩ := List.mem_map.mp hbyte
      rw [List.mem_range] at hk
      rw [byte_clear, if_pos (by omega)]
  rw [word, hbytes]
  rfl

end Write

/-- Memory ends below the bits that an entry cannot hold, the bitmap has a bit for each frame, and
the free frames are whole frames of memory beside the bitmap. -/
structure Sound (v : View) : Prop where
  bits : v.layout.origin + (v.layout.frameCount + 7) / 8 ≤ v.layout.storeSize
  frames : v.layout.firstFrame + v.layout.frameCount ≤ 2 ^ 52
  memory : v.layout.base + v.layout.size ≤ 2 ^ 52
  plain : ∀ f ∈ v.free, v.layout.Plain f

namespace Sound

variable {v w : View}

theorem of_free_subset (hsound : v.Sound) (hlayout : w.layout = v.layout)
    (hfree : w.free ⊆ v.free) : w.Sound := by
  constructor
  · rw [hlayout]
    exact hsound.bits
  · rw [hlayout]
    exact hsound.frames
  · rw [hlayout]
    exact hsound.memory
  · intro f hf
    rw [hlayout]
    exact hsound.plain f (hfree hf)

theorem write (hsound : v.Sound) (a : Nat) (values : List UInt8) : (v.write a values).Sound :=
  hsound.of_free_subset rfl subset_rfl

theorem take (hsound : v.Sound) (f count : Nat) : (v.take f count).Sound :=
  hsound.of_free_subset rfl Set.sdiff_subset

theorem give (hsound : v.Sound) {frames : Set Nat}
    (hplain : ∀ f ∈ frames, f ∈ v.layout.tracked → v.layout.Plain f) : (v.give frames).Sound := by
  refine ⟨hsound.bits, hsound.frames, hsound.memory, ?_⟩
  intro f hf
  rcases hf with hfree | ⟨hgiven, htracked⟩
  · exact hsound.plain f hfree
  · exact hplain f hgiven htracked

end Sound

end View

end BootMemory
