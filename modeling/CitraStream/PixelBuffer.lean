import Mathlib.Logic.Function.Basic
import Mathlib.Algebra.BigOperators.Group.Finset
import Mathlib.Tactic.Ring

/-!
# Byte buffers, rasters and the 8×8 block grid

The frame pump of `bootmanager.cpp` works on raw `unsigned char` buffers through pointer
arithmetic. A `Buffer` is an allocation of `size` bytes. A read or a write outside it is undefined
behaviour in C and `none` here, so a computation of this model that returns `some` made no
out-of-bounds access.

A frame is an interleaved RGB raster, three bytes a pixel and no padding. `pixelIndex` is the byte
offset of one channel, and `Buffer.picture` reads a buffer as a function of coordinates. The block
grid of `imageDiff` cuts a raster into 8×8 blocks numbered row-major.
-/

namespace CitraStream

/-- An allocation of `size` bytes. Bytes past `size` are never read or written by the model. -/
@[ext] structure Buffer where
  size : Nat
  data : Nat → UInt8

namespace Buffer

def read (b : Buffer) (i : Nat) : Option UInt8 :=
  if i < b.size then some (b.data i) else none

def write (b : Buffer) (i : Nat) (v : UInt8) : Option Buffer :=
  if i < b.size then some { b with data := Function.update b.data i v } else none

/-- The `n` bytes from offset `p`, as `memcpy` or an encoder reading the buffer sees them. -/
def slice (b : Buffer) (p n : Nat) : Option Buffer :=
  if p + n ≤ b.size then some ⟨n, fun i => b.data (p + i)⟩ else none

/-- `dst[0] = src[0]; dst[1] = src[1]; dst[2] = src[2];`, the pixel copy of every loop here. -/
def copyPixel (dst src : Buffer) (d s : Nat) : Option Buffer := do
  let dst ← dst.write d (← src.read s)
  let dst ← dst.write (d + 1) (← src.read (s + 1))
  dst.write (d + 2) (← src.read (s + 2))

/-- `len` bytes of `src` from `s` laid over `dst` from `d`: what a copy loop leaves behind. -/
def copyRange (dst src : Buffer) (d s len : Nat) : Buffer :=
  { dst with data := fun i => if d ≤ i ∧ i < d + len then src.data (s + (i - d)) else dst.data i }

variable {b dst src : Buffer} {i d s len : Nat}

@[simp] theorem read_of_lt (h : i < b.size) : b.read i = some (b.data i) := if_pos h

theorem write_of_lt (v : UInt8) (h : i < b.size) :
    b.write i v = some { b with data := Function.update b.data i v } := if_pos h

theorem slice_of_le (h : s + len ≤ b.size) : b.slice s len = some ⟨len, fun i => b.data (s + i)⟩ :=
  if_pos h

@[simp] theorem copyRange_size : (dst.copyRange src d s len).size = dst.size := rfl

theorem copyRange_data_of_lt (h : i < d) : (dst.copyRange src d s len).data i = dst.data i := by
  simp [copyRange]; omega

theorem copyRange_data_of_ge (h : d + len ≤ i) :
    (dst.copyRange src d s len).data i = dst.data i := by
  simp [copyRange]; omega

theorem copyRange_data_within {e : Nat} (h : e < len) :
    (dst.copyRange src d s len).data (d + e) = src.data (s + e) := by
  simp [copyRange, h]

@[simp] theorem copyRange_zero : dst.copyRange src d s 0 = dst := by
  ext i
  · rfl
  · simp only [copyRange]
    rw [if_neg (by omega)]

/-- Two copies of adjacent ranges are one copy of the joined range. -/
theorem copyRange_append {m : Nat} :
    (dst.copyRange src d s len).copyRange src (d + len) (s + len) m =
      dst.copyRange src d s (len + m) := by
  ext i
  · rfl
  · simp only [copyRange]
    by_cases h1 : d + len ≤ i ∧ i < d + len + m
    · rw [if_pos h1, if_pos (by omega), show s + len + (i - (d + len)) = s + (i - d) by omega]
    · rw [if_neg h1]
      by_cases h2 : d ≤ i ∧ i < d + len
      · rw [if_pos h2, if_pos (by omega)]
      · rw [if_neg h2, if_neg (by omega)]

theorem copyPixel_eq (hd : d + 3 ≤ dst.size) (hs : s + 3 ≤ src.size) :
    dst.copyPixel src d s = some (dst.copyRange src d s 3) := by
  simp only [copyPixel, read_of_lt (show s < src.size by omega),
    read_of_lt (show s + 1 < src.size by omega), read_of_lt (show s + 2 < src.size by omega),
    write_of_lt _ (show d < dst.size by omega), Option.bind_eq_bind, Option.some_bind]
  rw [write_of_lt _ (by simpa using (show d + 1 < dst.size by omega)), Option.some_bind,
    write_of_lt _ (by simpa using (show d + 2 < dst.size by omega))]
  congr 1
  ext i
  · rfl
  · simp only [copyRange, Function.update_apply]
    by_cases h : d ≤ i ∧ i < d + 3
    · rw [if_pos h]
      rcases (show i = d ∨ i = d + 1 ∨ i = d + 2 by omega) with rfl | rfl | rfl <;> simp
    · rw [if_neg h, if_neg (by omega), if_neg (by omega), if_neg (by omega)]

end Buffer

/-- `abs(a - b)` on two bytes promoted to `int`. -/
def byteDiff (a b : UInt8) : Nat := ((a.toNat : Int) - b.toNat).natAbs

@[simp] theorem byteDiff_self (a : UInt8) : byteDiff a a = 0 := by simp [byteDiff]

theorem byteDiff_comm (a b : UInt8) : byteDiff a b = byteDiff b a := by
  simp only [byteDiff]; omega

/-- Offset of channel `ch` of pixel `(x, y)` in a raster `w` pixels wide. -/
def pixelIndex (w y x ch : Nat) : Nat := (y * w + x) * 3 + ch

/-- A raster read through coordinates: row `y`, column `x`, channel `ch`. -/
abbrev Picture := Nat → Nat → Nat → UInt8

/-- The raster `w` pixels wide that a buffer holds. -/
def Buffer.picture (b : Buffer) (w : Nat) : Picture := fun y x ch => b.data (pixelIndex w y x ch)

/-- Two pictures agree on the `w × h` grid. -/
def Agree (w h : Nat) (P Q : Picture) : Prop :=
  ∀ y < h, ∀ x < w, ∀ ch < 3, P y x ch = Q y x ch

/-- Number of 8×8 blocks of a `w × h` raster. -/
def blockCount (w h : Nat) : Nat := w / 8 * (h / 8)

/-- The block holding pixel `(x, y)`, numbered row-major. -/
def blockAt (w y x : Nat) : Nat := y / 8 * (w / 8) + x / 8

/-- Top row of block `k`. -/
def blockRow (w k : Nat) : Nat := 8 * (k / (w / 8))

/-- Left column of block `k`. -/
def blockCol (w k : Nat) : Nat := 8 * (k % (w / 8))

/-- Offset of the first byte of block `k`. -/
def blockPtr (w k : Nat) : Nat := pixelIndex w (blockRow w k) (blockCol w k) 0

/-- The sum of per-channel absolute differences of two pictures over block `k`. -/
def blockSum (P Q : Picture) (w k : Nat) : Nat :=
  ∑ r ∈ Finset.range 8, ∑ c ∈ Finset.range 8, ∑ ch ∈ Finset.range 3,
    byteDiff (P (blockRow w k + r) (blockCol w k + c) ch) (Q (blockRow w k + r) (blockCol w k + c) ch)

theorem blockSum_comm (P Q : Picture) (w k : Nat) : blockSum P Q w k = blockSum Q P w k := by
  simp only [blockSum, byteDiff_comm]

@[simp] theorem blockSum_self (P : Picture) (w k : Nat) : blockSum P P w k = 0 := by
  simp [blockSum]

theorem mul_add_le_of_lt {a b c : Nat} (h : a < b) : a * c + c ≤ b * c := by
  simpa [Nat.add_mul] using Nat.mul_le_mul_right c (show a + 1 ≤ b from h)

/-- A byte inside the 24-byte row segment of a block at columns `X … X + 7` of row `Y` lies in row
`Y` and in those columns. -/
theorem pixelIndex_window {w y x ch Y X : Nat} (hx : x < w) (hX : X + 8 ≤ w) (hch : ch < 3)
    (h1 : pixelIndex w Y X 0 ≤ pixelIndex w y x ch)
    (h2 : pixelIndex w y x ch < pixelIndex w Y X 0 + 24) :
    y = Y ∧ X ≤ x ∧ x < X + 8 := by
  simp only [pixelIndex] at h1 h2
  have hy : y = Y := by
    rcases Nat.lt_trichotomy y Y with hy | hy | hy
    · have := mul_add_le_of_lt (c := w) hy
      omega
    · exact hy
    · have := mul_add_le_of_lt (c := w) hy
      omega
  subst hy
  omega

section Grid

variable {w y x ch k r c : Nat}

private theorem cols_pos (hx : x < w) (hw : 8 ∣ w) : 0 < w / 8 := by omega

theorem blockAt_div (hx : x < w) (hw : 8 ∣ w) : blockAt w y x / (w / 8) = y / 8 := by
  rw [blockAt, Nat.add_comm, Nat.add_mul_div_right _ _ (cols_pos hx hw),
    Nat.div_eq_of_lt (by omega), Nat.zero_add]

theorem blockAt_mod (hx : x < w) (hw : 8 ∣ w) : blockAt w y x % (w / 8) = x / 8 := by
  rw [blockAt, Nat.add_comm, Nat.add_mul_mod_self_right, Nat.mod_eq_of_lt (by omega)]

@[simp] theorem blockAt_blockRow_blockCol (hr : r < 8) (hc : c < 8) :
    blockAt w (blockRow w k + r) (blockCol w k + c) = k := by
  simp only [blockAt, blockRow, blockCol]
  rw [show (8 * (k / (w / 8)) + r) / 8 = k / (w / 8) by omega,
    show (8 * (k % (w / 8)) + c) / 8 = k % (w / 8) by omega, Nat.div_add_mod']

/-- A pixel of block `k` lies `y % 8` rows and `3 * (x % 8) + ch` bytes into the block. -/
theorem pixelIndex_of_blockAt (hx : x < w) (hw : 8 ∣ w) (hk : blockAt w y x = k) :
    pixelIndex w y x ch =
      blockPtr w k + y % 8 * (w * 3) + (3 * (x % 8) + ch) := by
  subst hk
  rw [blockPtr, blockRow, blockAt_div hx hw, blockCol, blockAt_mod hx hw]
  calc pixelIndex w y x ch = pixelIndex w (8 * (y / 8) + y % 8) (8 * (x / 8) + x % 8) ch := by
        rw [Nat.div_add_mod, Nat.div_add_mod]
    _ = _ := by simp only [pixelIndex]; ring

/-- A pixel outside block `k` lies outside each of the block's eight row segments. -/
theorem pixelIndex_outside (hx : x < w) (hch : ch < 3) (hw : 8 ∣ w) (hk : blockAt w y x ≠ k)
    (hr : r < 8) :
    pixelIndex w y x ch < blockPtr w k + r * (w * 3) ∨
      blockPtr w k + r * (w * 3) + 24 ≤ pixelIndex w y x ch := by
  have hrow : blockPtr w k + r * (w * 3) =
      pixelIndex w (blockRow w k + r) (blockCol w k) 0 := by simp only [blockPtr, pixelIndex]; ring
  have hcol : blockCol w k + 8 ≤ w := by
    have := Nat.mod_lt k (cols_pos hx hw)
    simp only [blockCol]; omega
  rw [hrow]
  by_contra hin
  push_neg at hin
  obtain ⟨rfl, h1, h2⟩ := pixelIndex_window hx hcol hch hin.1 hin.2
  apply hk
  rw [show x = blockCol w k + (x - blockCol w k) by omega, blockAt_blockRow_blockCol hr (by omega)]

theorem blockRow_add_le (hh : 8 ∣ h) (hk : k < blockCount w h) : blockRow w k + 8 ≤ h := by
  have hc : 0 < w / 8 := Nat.pos_of_ne_zero fun h0 => by simp [blockCount, h0] at hk
  have := (Nat.div_lt_iff_lt_mul hc).mpr (show k < h / 8 * (w / 8) by
    rw [Nat.mul_comm]; exact hk)
  simp only [blockRow]; omega

theorem blockCol_add_le (hw : 8 ∣ w) (hk : k < blockCount w h) : blockCol w k + 8 ≤ w := by
  have hc : 0 < w / 8 := Nat.pos_of_ne_zero fun h0 => by simp [blockCount, h0] at hk
  have := Nat.mod_lt k hc
  simp only [blockCol]; omega

/-- Every byte of a block lies inside the raster. -/
theorem blockPtr_add_le (hw : 8 ∣ w) (hh : 8 ∣ h) (hk : k < blockCount w h) :
    blockPtr w k + 7 * (w * 3) + 24 ≤ w * h * 3 := by
  have hr := blockRow_add_le hh hk
  have hc := blockCol_add_le hw hk
  have := Nat.mul_le_mul_right w hr
  rw [Nat.add_mul] at this
  simp only [blockPtr, pixelIndex]
  rw [Nat.mul_comm w h]
  omega

theorem blockPtr_of_rowCol {i j : Nat} (hj : j < w / 8) :
    blockPtr w (i * (w / 8) + j) = pixelIndex w (8 * i) (8 * j) 0 := by
  have hc : 0 < w / 8 := by omega
  simp only [blockPtr, blockRow, blockCol]
  rw [Nat.add_comm, Nat.add_mul_div_right _ _ hc, Nat.div_eq_of_lt hj, Nat.zero_add,
    Nat.add_mul_mod_self_right, Nat.mod_eq_of_lt hj]

theorem blockAt_lt (hy : y < h) (hx : x < w) (hw : 8 ∣ w) (hh : 8 ∣ h) :
    blockAt w y x < blockCount w h := by
  have := mul_add_le_of_lt (c := w / 8) (show y / 8 < h / 8 by omega)
  simp only [blockAt, blockCount]
  rw [Nat.mul_comm (w / 8)]
  omega

end Grid

end CitraStream
