import CitraStream.PixelBuffer

/-!
# The 8×8 block primitives of the differencer

`squareDiff`, `copySquare` and `putSquare` walk one block of a raster `rowStride` bytes wide, row by
row and pixel by pixel, moving their pointers as the C loops do. Each is modelled with checked
accesses, and each spec lemma says that the loop returns `some` of what it computes once its block
lies inside the buffers.

`squareDiff` stops at the first pixel that takes its running sum past `MIN_SQDIFF`; since every
term is non-negative this agrees with comparing the full sum over the block (`squareDiff_eq`).
-/

namespace CitraStream

open Buffer

/-- `MIN_SQDIFF`: a block is dirty once its running difference exceeds it, an average of 3 per
channel. -/
def minSqDiff : Nat := 8 * 8 * 3

/-- `abs(ptr1[0] - ptr2[0]) + abs(ptr1[1] - ptr2[1]) + abs(ptr1[2] - ptr2[2])`. -/
def pixelDiff (m1 m2 : Buffer) (p1 p2 : Nat) : Option Nat := do
  let d0 := byteDiff (← m1.read p1) (← m2.read p2)
  let d1 := byteDiff (← m1.read (p1 + 1)) (← m2.read (p2 + 1))
  let d2 := byteDiff (← m1.read (p1 + 2)) (← m2.read (p2 + 2))
  pure (d0 + d1 + d2)

/-- Where the pixel loop of `squareDiff` stands after a row: it has returned early, or it goes on
with the running sum and both pointers. -/
inductive Scan where
  | exceeded
  | running (diff p1 p2 : Nat)
  deriving DecidableEq, Repr

/-- The `j` loop of `squareDiff` over `n` more pixels of a row. -/
def squareDiffRow (m1 m2 : Buffer) : Nat → Nat → Nat → Nat → Option Scan
  | 0, diff, p1, p2 => some (.running diff p1 p2)
  | n + 1, diff, p1, p2 => do
    let diff := diff + (← pixelDiff m1 m2 p1 p2)
    if diff > minSqDiff then pure .exceeded
    else squareDiffRow m1 m2 n diff (p1 + 3) (p2 + 3)

/-- The `i` loop of `squareDiff` over `n` more rows. -/
def squareDiffRows (m1 m2 : Buffer) (rowStride : Nat) : Nat → Nat → Nat → Nat → Option Bool
  | 0, _, _, _ => some false
  | n + 1, diff, p1, p2 => do
    match ← squareDiffRow m1 m2 8 diff p1 p2 with
    | .exceeded => pure true
    | .running diff p1 p2 =>
      squareDiffRows m1 m2 rowStride n diff (p1 + rowStride - 8 * 3) (p2 + rowStride - 8 * 3)

/-- `squareDiff(ptr1, ptr2, rowStride)`: whether the block at `ptr1` of `m1` and the block at
`ptr2` of `m2` differ by more than `MIN_SQDIFF`. -/
def squareDiff (m1 m2 : Buffer) (ptr1 ptr2 rowStride : Nat) : Option Bool :=
  squareDiffRows m1 m2 rowStride 8 0 ptr1 ptr2

/-- The `j` loop shared by `copySquare` and `putSquare`: `n` more pixels of a row. -/
def copyRow (src : Buffer) : Nat → Buffer → Nat → Nat → Option (Buffer × Nat × Nat)
  | 0, dst, d, s => some (dst, d, s)
  | n + 1, dst, d, s => do
    let dst ← dst.copyPixel src d s
    copyRow src n dst (d + 3) (s + 3)

/-- The `i` loop of a block copy whose destination pointer is moved on by `dstStride - 24` and
source pointer by `srcStride - 24` after each row. -/
def copyRows (src : Buffer) (dstStride srcStride : Nat) :
    Nat → Buffer → Nat → Nat → Option Buffer
  | 0, dst, _, _ => some dst
  | n + 1, dst, d, s => do
    let (dst, d, s) ← copyRow src 8 dst d s
    copyRows src dstStride srcStride n dst (d + dstStride - 8 * 3) (s + srcStride - 8 * 3)

/-- `copySquare(dst, src, rowStride)`: copy a block between two rasters of one stride. -/
def copySquare (dst src : Buffer) (d s rowStride : Nat) : Option Buffer :=
  copyRows src rowStride rowStride 8 dst d s

/-- `putSquare(dst, src, rowStride)`: pack a block of a raster into 192 contiguous bytes. Its
destination is never moved on after a row, which is a destination stride of 24. -/
def putSquare (dst src : Buffer) (d s rowStride : Nat) : Option Buffer :=
  copyRows src (8 * 3) rowStride 8 dst d s

/-! ### `squareDiff` -/

/-- The three channel differences of one pixel, without bounds checks. -/
def pixelSum (m1 m2 : Buffer) (p1 p2 : Nat) : Nat :=
  ∑ ch ∈ Finset.range 3, byteDiff (m1.data (p1 + ch)) (m2.data (p2 + ch))

/-- The full difference of the blocks at `p1` and `p2`. -/
def squareSum (m1 m2 : Buffer) (p1 p2 rowStride : Nat) : Nat :=
  ∑ r ∈ Finset.range 8, ∑ c ∈ Finset.range 8,
    pixelSum m1 m2 (p1 + r * rowStride + 3 * c) (p2 + r * rowStride + 3 * c)

variable {m1 m2 : Buffer} {p1 p2 rowStride : Nat}

theorem pixelDiff_eq (h1 : p1 + 3 ≤ m1.size) (h2 : p2 + 3 ≤ m2.size) :
    pixelDiff m1 m2 p1 p2 = some (pixelSum m1 m2 p1 p2) := by
  simp [pixelDiff, pixelSum, Finset.sum_range_succ, read_of_lt (show p1 < m1.size by omega),
    read_of_lt (show p2 < m2.size by omega), read_of_lt (show p1 + 1 < m1.size by omega),
    read_of_lt (show p2 + 1 < m2.size by omega), read_of_lt (show p1 + 2 < m1.size by omega),
    read_of_lt (show p2 + 2 < m2.size by omega)]

private theorem sum_succ_shift (f : Nat → Nat → Nat) (p q n : Nat) :
    ∑ c ∈ Finset.range (n + 1), f (p + 3 * c) (q + 3 * c) =
      ∑ c ∈ Finset.range n, f (p + 3 + 3 * c) (q + 3 + 3 * c) + f p q := by
  rw [Finset.sum_range_succ']
  congr 1
  exact Finset.sum_congr rfl fun c _ => by congr 1 <;> ring

/-- A row of the scan, early exit included, compares the running sum with the threshold only
once: partial sums never decrease. -/
theorem squareDiffRow_eq {n diff : Nat} (hd : diff ≤ minSqDiff) (h1 : p1 + 3 * n ≤ m1.size)
    (h2 : p2 + 3 * n ≤ m2.size) :
    squareDiffRow m1 m2 n diff p1 p2 =
      let total := diff + ∑ c ∈ Finset.range n, pixelSum m1 m2 (p1 + 3 * c) (p2 + 3 * c)
      some (if total > minSqDiff then .exceeded else .running total (p1 + 3 * n) (p2 + 3 * n)) := by
  induction n generalizing diff p1 p2 with
  | zero => simp [squareDiffRow, Nat.not_lt.mpr hd]
  | succ n ih =>
    simp only [squareDiffRow, pixelDiff_eq (show p1 + 3 ≤ m1.size by omega)
      (show p2 + 3 ≤ m2.size by omega), Option.bind_eq_bind, Option.some_bind,
      sum_succ_shift (pixelSum m1 m2)]
    by_cases h : diff + pixelSum m1 m2 p1 p2 > minSqDiff
    · rw [if_pos h, if_pos (by omega)]
      rfl
    · rw [if_neg h, ih (by omega) (by omega) (by omega)]
      simp only [Nat.add_assoc, Nat.add_comm (pixelSum m1 m2 p1 p2), Nat.mul_succ]
      rw [Nat.add_comm (3 * n) 3]

theorem squareDiffRows_eq {n diff : Nat} (hd : diff ≤ minSqDiff)
    (h1 : ∀ r < n, p1 + r * rowStride + 24 ≤ m1.size)
    (h2 : ∀ r < n, p2 + r * rowStride + 24 ≤ m2.size) :
    squareDiffRows m1 m2 rowStride n diff p1 p2 =
      some (decide (diff + ∑ r ∈ Finset.range n, ∑ c ∈ Finset.range 8,
        pixelSum m1 m2 (p1 + r * rowStride + 3 * c) (p2 + r * rowStride + 3 * c) > minSqDiff)) := by
  induction n generalizing diff p1 p2 with
  | zero => simp [squareDiffRows, hd]
  | succ n ih =>
    have r1 := h1 0 (by omega)
    have r2 := h2 0 (by omega)
    simp only [Nat.zero_mul, Nat.add_zero] at r1 r2
    have t1 : ∀ r < n, p1 + rowStride + r * rowStride + 24 ≤ m1.size := fun r hr => by
      have := h1 (r + 1) (by omega); rw [Nat.succ_mul] at this; omega
    have t2 : ∀ r < n, p2 + rowStride + r * rowStride + 24 ≤ m2.size := fun r hr => by
      have := h2 (r + 1) (by omega); rw [Nat.succ_mul] at this; omega
    simp only [squareDiffRows, squareDiffRow_eq hd (show p1 + 3 * 8 ≤ m1.size by omega)
      (show p2 + 3 * 8 ≤ m2.size by omega), Option.bind_eq_bind, Option.some_bind, Finset.sum_range_succ' _ n,
      Nat.zero_mul, Nat.add_zero]
    split_ifs with h
    · simp only [Option.pure_def, Option.some.injEq]
      exact (decide_eq_true (by omega)).symm
    · dsimp only
      rw [show p1 + 3 * 8 + rowStride - 8 * 3 = p1 + rowStride by omega,
        show p2 + 3 * 8 + rowStride - 8 * 3 = p2 + rowStride by omega, ih (by omega) t1 t2]
      simp only [Nat.succ_mul, Nat.add_assoc, Nat.add_comm rowStride]
      ac_rfl

/-- `squareDiff` reports exactly the blocks whose full difference exceeds `MIN_SQDIFF`: its early
exit changes how much it reads, never what it answers. -/
theorem squareDiff_eq (h1 : p1 + 7 * rowStride + 24 ≤ m1.size)
    (h2 : p2 + 7 * rowStride + 24 ≤ m2.size) :
    squareDiff m1 m2 p1 p2 rowStride = some (decide (squareSum m1 m2 p1 p2 rowStride > minSqDiff)) := by
  have hr : ∀ r < 8, r * rowStride ≤ 7 * rowStride := fun r h => Nat.mul_le_mul_right _ (by omega)
  rw [squareDiff, squareDiffRows_eq (Nat.zero_le _) (fun r h => by have := hr r h; omega)
    (fun r h => by have := hr r h; omega), Nat.zero_add, squareSum]

/-! ### `copySquare` and `putSquare` -/

variable {src dst : Buffer} {d s : Nat}

theorem copyRow_eq {n : Nat} (hd : d + 3 * n ≤ dst.size) (hs : s + 3 * n ≤ src.size) :
    copyRow src n dst d s = some (dst.copyRange src d s (3 * n), d + 3 * n, s + 3 * n) := by
  induction n generalizing dst d s with
  | zero => simp [copyRow]
  | succ n ih =>
    simp only [copyRow, copyPixel_eq (show d + 3 ≤ dst.size by omega)
      (show s + 3 ≤ src.size by omega), Option.bind_eq_bind, Option.some_bind]
    rw [ih (by simp; omega) (by omega), copyRange_append]
    simp only [Nat.mul_succ, Nat.add_assoc, Nat.add_comm 3]

/-- What a block copy leaves behind: each of the `n` rows of 24 bytes from `d + r * ds` holds the
24 bytes from `s + r * ss`, and every byte outside those rows is untouched. -/
structure BlockCopied (dst src dst' : Buffer) (ds ss n d s : Nat) : Prop where
  size_eq : dst'.size = dst.size
  row : ∀ r < n, ∀ e < 24, dst'.data (d + r * ds + e) = src.data (s + r * ss + e)
  other : ∀ i, (∀ r < n, i < d + r * ds ∨ d + r * ds + 24 ≤ i) → dst'.data i = dst.data i

theorem copyRows_spec {ds ss n : Nat} (hds : 24 ≤ ds)
    (hd : ∀ r < n, d + r * ds + 24 ≤ dst.size) (hs : ∀ r < n, s + r * ss + 24 ≤ src.size) :
    ∃ dst', copyRows src ds ss n dst d s = some dst' ∧ BlockCopied dst src dst' ds ss n d s := by
  induction n generalizing dst d s with
  | zero => exact ⟨dst, rfl, rfl, fun r hr => absurd hr (Nat.not_lt_zero r), fun _ _ => rfl⟩
  | succ n ih =>
    have r0 := hd 0 (by omega)
    have q0 := hs 0 (by omega)
    simp only [Nat.zero_mul, Nat.add_zero] at r0 q0
    obtain ⟨dst', h, hc⟩ := ih
      (show ∀ r < n, d + ds + r * ds + 24 ≤ (dst.copyRange src d s 24).size from fun r hr => by
        have := hd (r + 1) (by omega); rw [Nat.succ_mul] at this; simp; omega)
      (show ∀ r < n, s + ss + r * ss + 24 ≤ src.size from fun r hr => by
        have := hs (r + 1) (by omega); rw [Nat.succ_mul] at this; omega)
    refine ⟨dst', ?_, ⟨by simp [hc.size_eq], fun r hr e he => ?_, fun i hi => ?_⟩⟩
    · simp only [copyRows, copyRow_eq (show d + 3 * 8 ≤ dst.size by omega)
        (show s + 3 * 8 ≤ src.size by omega), Option.bind_eq_bind, Option.some_bind]
      rwa [show d + 3 * 8 + ds - 8 * 3 = d + ds by omega,
        show s + 3 * 8 + ss - 8 * 3 = s + ss by omega]
    · cases r with
      | zero =>
        rw [hc.other _ (fun r _ => .inl (by omega))]
        simpa using (copyRange_data_within he :
          (dst.copyRange src d s 24).data (d + e) = src.data (s + e))
      | succ r =>
        convert hc.row r (by omega) e he using 2 <;> ring
    · rw [hc.other i (fun r hr => by have := hi (r + 1) (by omega); rw [Nat.succ_mul] at this; omega)]
      rcases hi 0 (by omega) with h | h
      · exact copyRange_data_of_lt (by simpa using h)
      · exact copyRange_data_of_ge (by simpa using h)

private theorem rows_le {n stride : Nat} (h : p1 + 7 * stride + 24 ≤ n) :
    ∀ r < 8, p1 + r * stride + 24 ≤ n := fun r hr => by
  have := Nat.mul_le_mul_right stride (show r ≤ 7 by omega)
  omega

theorem copySquare_spec (hst : 24 ≤ rowStride) (hd : d + 7 * rowStride + 24 ≤ dst.size)
    (hs : s + 7 * rowStride + 24 ≤ src.size) :
    ∃ dst', copySquare dst src d s rowStride = some dst' ∧
      BlockCopied dst src dst' rowStride rowStride 8 d s :=
  copyRows_spec hst (rows_le hd) (rows_le hs)

theorem putSquare_spec (hd : d + 192 ≤ dst.size) (hs : s + 7 * rowStride + 24 ≤ src.size) :
    ∃ dst', putSquare dst src d s rowStride = some dst' ∧ BlockCopied dst src dst' 24 rowStride 8 d s :=
  copyRows_spec (le_refl _) (fun r hr => by omega) (rows_le hs)

end CitraStream
