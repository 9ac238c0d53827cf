import CitraStream.BlockPrimitives
import Mathlib.Tactic.IntervalCases

/-!
# `imageDiff`: the block differencer

`imageDiff` walks the 8×8 blocks of the current frame row-major. For each block it asks
`squareDiff` whether the block moved past `MIN_SQDIFF` from the stored `lastImage`; a dirty block
gets its bit set in `diffMap`, is copied into `lastImage` and appended to `diffBuf`, and a clean
block gets its bit cleared. The three buffers are the globals of `bootmanager.cpp`.

`Progress k` says what the loop has done once `k` blocks are behind it; `diffSquare_spec` is its
step and `imageDiff_spec` the whole pass.
-/

namespace CitraStream

open Buffer

/-- The buffers and registers of `imageDiff` as its block loop runs. -/
structure DiffState where
  lastImage : Buffer
  diffBuf : Buffer
  diffMap : Buffer
  numSqDiff : Nat
  mapPos : Nat
  mapMask : Nat
  lPtr : Nat
  cPtr : Nat

/-- `if (mapMask == 0x80) {mapMask = 0x01; mapPos++;} else mapMask <<= 1;` and both pointers on
to the next block. -/
def nextSquare (st : DiffState) : DiffState :=
  let st := if st.mapMask = 0x80 then { st with mapMask := 0x01, mapPos := st.mapPos + 1 }
    else { st with mapMask := st.mapMask <<< 1 }
  { st with lPtr := st.lPtr + 8 * 3, cPtr := st.cPtr + 8 * 3 }

/-- The body of the block loop of `imageDiff`. -/
def diffSquare (currentImage : Buffer) (rowStride : Nat) (st : DiffState) : Option DiffState := do
  let sDiff ← squareDiff st.lastImage currentImage st.lPtr st.cPtr rowStride
  let st ← if sDiff then do
      let b ← st.diffMap.read st.mapPos
      let diffMap ← st.diffMap.write st.mapPos (b ||| UInt8.ofNat st.mapMask)
      let lastImage ← copySquare st.lastImage currentImage st.lPtr st.cPtr rowStride
      let diffBuf ← putSquare st.diffBuf currentImage (8 * 8 * 3 * st.numSqDiff) st.cPtr rowStride
      pure { st with diffMap, lastImage, diffBuf, numSqDiff := st.numSqDiff + 1 }
    else do
      let b ← st.diffMap.read st.mapPos
      let diffMap ← st.diffMap.write st.mapPos (b &&& ~~~UInt8.ofNat st.mapMask)
      pure { st with diffMap }
  pure (nextSquare st)

/-- The `j` loop over `n` more blocks of a block row. -/
def diffColumns (currentImage : Buffer) (rowStride : Nat) : Nat → DiffState → Option DiffState
  | 0, st => some st
  | n + 1, st => do diffColumns currentImage rowStride n (← diffSquare currentImage rowStride st)

/-- The `i` loop over `n` more block rows of `cols` blocks each. -/
def diffRows (currentImage : Buffer) (rowStride cols : Nat) : Nat → DiffState → Option DiffState
  | 0, st => some st
  | n + 1, st => do
    let st ← diffColumns currentImage rowStride cols st
    diffRows currentImage rowStride cols n
      { st with lPtr := st.lPtr + (8 * rowStride - rowStride),
                cPtr := st.cPtr + (8 * rowStride - rowStride) }

/-- `imageDiff(currentImage, width, height)` over the globals `lastImage`, `diffBuf`, `diffMap`.
`for (i = 0; i < height; i += 8)` runs `(height + 7) / 8` times and the `j` loop over the width
`(width + 7) / 8` times. The result's `numSqDiff` is the returned count. -/
def imageDiff (lastImage currentImage diffBuf diffMap : Buffer) (width height : Nat) :
    Option DiffState :=
  diffRows currentImage (width * 3) ((width + 7) / 8) ((height + 7) / 8)
    ⟨lastImage, diffBuf, diffMap, 0, 0, 0x01, 0, 0⟩

/-! ### What the pass computes -/

/-- Block `k` moved past `MIN_SQDIFF` from `L` to `C`. -/
def dirty (L C : Buffer) (w k : Nat) : Bool :=
  decide (blockSum (L.picture w) (C.picture w) w k > minSqDiff)

/-- The number of dirty blocks before block `k`: where block `k` goes in `diffBuf`. -/
def dirtyCount (L C : Buffer) (w k : Nat) : Nat := (List.range k).countP (dirty L C w)

/-- Bit `k % 8` of byte `k / 8` of a block bitmap. -/
def mapBit (m : Buffer) (k : Nat) : Bool := (m.data (k / 8)).toBitVec.getLsbD (k % 8)

/-- How many bits of a bitmap are set before block `k`. -/
def mapRank (m : Buffer) (k : Nat) : Nat := (List.range k).countP (mapBit m)

/-- A `DIFF` payload laid over a picture, as a viewer decodes it: a block whose bit is set takes
the next 192 packed bytes, row by row, and every other block is kept. -/
def replayDiff (w : Nat) (diffMap diffBuf : Buffer) (P : Picture) : Picture := fun y x ch =>
  if mapBit diffMap (blockAt w y x) then
    diffBuf.data (192 * mapRank diffMap (blockAt w y x) + 24 * (y % 8) + 3 * (x % 8) + ch)
  else P y x ch

/-- The buffers `imageDiff` works on: a `w × h` raster of whole blocks, both images of its size,
and globals large enough for every block. -/
structure Fits (L C buf map : Buffer) (w h : Nat) : Prop where
  w_dvd : 8 ∣ w
  h_dvd : 8 ∣ h
  last_size : L.size = w * h * 3
  cur_size : C.size = w * h * 3
  buf_size : 192 * blockCount w h ≤ buf.size
  map_size : blockCount w h ≤ 8 * map.size

/-- What the block loop has done once the first `k` blocks are behind it, starting from
`lastImage = L`, `diffBuf = buf` and `diffMap = map` on the current frame `C`. -/
structure Progress (L C buf map : Buffer) (w h k : Nat) (st : DiffState) : Prop where
  count : st.numSqDiff = dirtyCount L C w k
  mapPos : st.mapPos = k / 8
  mapMask : st.mapMask = 2 ^ (k % 8)
  last_size : st.lastImage.size = L.size
  buf_size : st.diffBuf.size = buf.size
  map_size : st.diffMap.size = map.size
  last : ∀ y < h, ∀ x < w, ∀ ch < 3, st.lastImage.picture w y x ch =
    if blockAt w y x < k ∧ dirty L C w (blockAt w y x) then C.picture w y x ch
    else L.picture w y x ch
  packed : ∀ j < k, dirty L C w j → ∀ r < 8, ∀ c < 8, ∀ ch < 3,
    st.diffBuf.data (192 * dirtyCount L C w j + 24 * r + 3 * c + ch) =
      C.picture w (blockRow w j + r) (blockCol w j + c) ch
  buf_rest : ∀ i, 192 * st.numSqDiff ≤ i → st.diffBuf.data i = buf.data i
  bits : ∀ j, mapBit st.diffMap j = if j < k then dirty L C w j else mapBit map j
  map_rest : ∀ i, k ≤ 8 * i → st.diffMap.data i = map.data i

section Lemmas

variable {L C buf map : Buffer} {w h k : Nat}

theorem dirtyCount_succ :
    dirtyCount L C w (k + 1) = dirtyCount L C w k + if dirty L C w k then 1 else 0 := by
  simp [dirtyCount, List.range_succ, List.countP_append, List.countP_cons]

theorem dirtyCount_le_of_lt {j : Nat} (hj : j < k) (hd : dirty L C w j) :
    dirtyCount L C w j + 1 ≤ dirtyCount L C w k := by
  induction k with
  | zero => omega
  | succ k ih =>
    rw [dirtyCount_succ]
    rcases Nat.lt_succ_iff_lt_or_eq.mp hj with h | rfl
    · have := ih h; split <;> omega
    · simp [hd]

theorem dirtyCount_le : dirtyCount L C w k ≤ k := by
  simpa [dirtyCount] using List.countP_le_length (dirty L C w) (l := List.range k)

theorem squareSum_blockPtr (M : Buffer) :
    squareSum M C (blockPtr w k) (blockPtr w k) (w * 3) =
      blockSum (M.picture w) (C.picture w) w k := by
  simp only [squareSum, pixelSum, blockSum, Buffer.picture]
  refine Finset.sum_congr rfl fun r _ => Finset.sum_congr rfl fun c _ =>
    Finset.sum_congr rfl fun ch _ => ?_
  rw [show blockPtr w k + r * (w * 3) + 3 * c + ch =
    pixelIndex w (blockRow w k + r) (blockCol w k + c) ch by simp only [blockPtr, pixelIndex]; ring]

private theorem getLsbD_or_mask (b : UInt8) {m i : Nat} (hm : m < 8) :
    (b ||| UInt8.ofNat (2 ^ m)).toBitVec.getLsbD i = (b.toBitVec.getLsbD i || decide (i = m)) := by
  show (b.toBitVec ||| BitVec.ofNat 8 (2 ^ m)).getLsbD i = _
  simp only [BitVec.getLsbD_or, BitVec.getLsbD_ofNat, Nat.testBit_two_pow]
  by_cases h : i = m <;> simp [h, hm]
  omega

private theorem getLsbD_and_not_mask (b : UInt8) {m i : Nat} (hm : m < 8) (hi : i < 8) :
    (b &&& ~~~UInt8.ofNat (2 ^ m)).toBitVec.getLsbD i =
      (b.toBitVec.getLsbD i && !decide (i = m)) := by
  show (b.toBitVec &&& ~~~BitVec.ofNat 8 (2 ^ m)).getLsbD i = _
  simp only [BitVec.getLsbD_and, BitVec.getLsbD_not, BitVec.getLsbD_ofNat, Nat.testBit_two_pow]
  by_cases h : i = m <;> simp [h, hm, hi]
  omega

@[simp] theorem nextSquare_lastImage (st : DiffState) : (nextSquare st).lastImage = st.lastImage := by
  unfold nextSquare; split <;> rfl

@[simp] theorem nextSquare_diffBuf (st : DiffState) : (nextSquare st).diffBuf = st.diffBuf := by
  unfold nextSquare; split <;> rfl

@[simp] theorem nextSquare_diffMap (st : DiffState) : (nextSquare st).diffMap = st.diffMap := by
  unfold nextSquare; split <;> rfl

@[simp] theorem nextSquare_numSqDiff (st : DiffState) :
    (nextSquare st).numSqDiff = st.numSqDiff := by
  unfold nextSquare; split <;> rfl

@[simp] theorem nextSquare_lPtr (st : DiffState) : (nextSquare st).lPtr = st.lPtr + 24 := by
  unfold nextSquare; split <;> rfl

@[simp] theorem nextSquare_cPtr (st : DiffState) : (nextSquare st).cPtr = st.cPtr + 24 := by
  unfold nextSquare; split <;> rfl

/-- The mask walks the bits of one byte and then moves on to the next byte. -/
theorem nextSquare_map (st : DiffState) (hp : st.mapPos = k / 8) (hm : st.mapMask = 2 ^ (k % 8)) :
    (nextSquare st).mapPos = (k + 1) / 8 ∧ (nextSquare st).mapMask = 2 ^ ((k + 1) % 8) := by
  obtain ⟨m, hm8, hk⟩ : ∃ m, m < 8 ∧ k % 8 = m := ⟨_, Nat.mod_lt _ (by decide), rfl⟩
  have h1 : (k + 1) / 8 = if m = 7 then k / 8 + 1 else k / 8 := by split <;> omega
  have h2 : (k + 1) % 8 = if m = 7 then 0 else m + 1 := by split <;> omega
  unfold nextSquare
  rw [h1, h2, hp, hm, hk]
  interval_cases m <;> simp

theorem blockSum_congr_left {P P' Q : Picture}
    (h : ∀ r < 8, ∀ c < 8, ∀ ch < 3, P (blockRow w k + r) (blockCol w k + c) ch =
      P' (blockRow w k + r) (blockCol w k + c) ch) :
    blockSum P Q w k = blockSum P' Q w k := by
  simp only [blockSum]
  refine Finset.sum_congr rfl fun r hr => Finset.sum_congr rfl fun c hc =>
    Finset.sum_congr rfl fun ch hch => ?_
  rw [h r (Finset.mem_range.mp hr) c (Finset.mem_range.mp hc) ch (Finset.mem_range.mp hch)]

/-- Writing byte `k / 8` with bit `k % 8` made `v` and the other seven kept records block `k`. -/
theorem mapBit_update {m : Buffer} {nb : UInt8} {v : Bool}
    (hnb : ∀ i < 8, nb.toBitVec.getLsbD i =
      if i = k % 8 then v else (m.data (k / 8)).toBitVec.getLsbD i) (j : Nat) :
    mapBit { m with data := Function.update m.data (k / 8) nb } j =
      if j = k then v else mapBit m j := by
  simp only [mapBit, Function.update_apply]
  split_ifs with h1 h2 h2
  · subst h2; simp [hnb _ (Nat.mod_lt _ (by decide))]
  · rw [hnb _ (Nat.mod_lt _ (by decide)), if_neg (by omega), h1]
  · omega
  · rfl

end Lemmas

section Step

variable {L C buf map : Buffer} {w h k : Nat} {st : DiffState}

/-- The dirtiness `squareDiff` sees on the loop's `lastImage` is that of the initial one: block
`k` has not been written yet. -/
theorem squareDiff_progress (hf : Fits L C buf map w h) (hp : Progress L C buf map w h k st)
    (hk : k < blockCount w h) :
    squareDiff st.lastImage C (blockPtr w k) (blockPtr w k) (w * 3) = some (dirty L C w k) := by
  have hin := blockPtr_add_le hf.w_dvd hf.h_dvd hk
  have hb : blockSum (st.lastImage.picture w) (C.picture w) w k =
      blockSum (L.picture w) (C.picture w) w k := blockSum_congr_left fun r hr c hc ch hch => by
    rw [hp.last _ (by have := blockRow_add_le hf.h_dvd hk; omega) _
      (by have := blockCol_add_le hf.w_dvd hk; omega) _ hch, blockAt_blockRow_blockCol hr hc,
      if_neg (by omega)]
  rw [squareDiff_eq (by rw [hp.last_size, hf.last_size]; exact hin)
    (by rw [hf.cur_size]; exact hin), squareSum_blockPtr, hb, dirty]

/-- The bitmap part of one step, shared by dirty and clean blocks. -/
theorem Progress.bits_step (hp : Progress L C buf map w h k st) {nb : UInt8}
    (hnb : ∀ i < 8, nb.toBitVec.getLsbD i =
      if i = k % 8 then dirty L C w k else (st.diffMap.data (k / 8)).toBitVec.getLsbD i) (j : Nat) :
    mapBit { st.diffMap with data := Function.update st.diffMap.data (k / 8) nb } j =
      if j < k + 1 then dirty L C w j else mapBit map j := by
  rw [mapBit_update hnb, hp.bits]
  by_cases hj : j = k
  · subst hj; simp
  · by_cases hlt : j < k
    · rw [if_neg hj, if_pos hlt, if_pos (by omega)]
    · rw [if_neg hj, if_neg hlt, if_neg (by omega)]

/-- A clean block: its bit is cleared and nothing else changes. -/
theorem Progress.step_clean (hp : Progress L C buf map w h k st) (hd : dirty L C w k = false) :
    Progress L C buf map w h (k + 1) (nextSquare { st with diffMap := { st.diffMap with
      data := Function.update st.diffMap.data st.mapPos
        (st.diffMap.data st.mapPos &&& ~~~UInt8.ofNat st.mapMask) } }) :=
  { count := by simp [hp.count, dirtyCount_succ, hd]
    mapPos := (nextSquare_map _ (by exact hp.mapPos) (by exact hp.mapMask)).1
    mapMask := (nextSquare_map _ (by exact hp.mapPos) (by exact hp.mapMask)).2
    last_size := by simp [hp.last_size]
    buf_size := by simp [hp.buf_size]
    map_size := by simp [hp.map_size]
    last := fun y hy x hx ch hch => by
      simp only [nextSquare_lastImage]
      rw [hp.last y hy x hx ch hch]
      by_cases hb : blockAt w y x = k
      · simp [hb, hd]
      · simp only [show blockAt w y x < k + 1 ↔ blockAt w y x < k by omega]
    packed := fun j hj hdj => by
      have : j ≠ k := fun h => by simp [h, hd] at hdj
      simpa using hp.packed j (by omega) hdj
    buf_rest := fun i hi => by
      simpa using hp.buf_rest i (by simpa [hp.count, dirtyCount_succ, hd] using hi)
    bits := fun j => by
      simp only [nextSquare_diffMap, hp.mapPos, hp.mapMask]
      refine hp.bits_step (fun i hi => ?_) j
      rw [getLsbD_and_not_mask _ (Nat.mod_lt _ (by decide)) hi]
      split_ifs with h <;> simp [h, hd]
    map_rest := fun i hi => by
      simp only [nextSquare_diffMap, Function.update_apply, hp.mapPos]
      rw [if_neg (by omega)]
      exact hp.map_rest i (by omega) }

/-- A dirty block: its bit is set, it is copied into `lastImage` (`hcl`) and appended to `diffBuf`
(`hcb`). -/
theorem Progress.step_dirty (hf : Fits L C buf map w h) (hp : Progress L C buf map w h k st)
    (hd : dirty L C w k = true) {last' buf' : Buffer}
    (hcl : BlockCopied st.lastImage C last' (w * 3) (w * 3) 8 (blockPtr w k) (blockPtr w k))
    (hcb : BlockCopied st.diffBuf C buf' 24 (w * 3) 8 (8 * 8 * 3 * dirtyCount L C w k)
      (blockPtr w k)) :
    Progress L C buf map w h (k + 1) (nextSquare { st with
      diffMap := { st.diffMap with
        data := Function.update st.diffMap.data st.mapPos
          (st.diffMap.data st.mapPos ||| UInt8.ofNat st.mapMask) },
      lastImage := last', diffBuf := buf', numSqDiff := st.numSqDiff + 1 }) :=
  { count := by simp [hp.count, dirtyCount_succ, hd]
    mapPos := (nextSquare_map _ (by exact hp.mapPos) (by exact hp.mapMask)).1
    mapMask := (nextSquare_map _ (by exact hp.mapPos) (by exact hp.mapMask)).2
    last_size := by simp [hcl.size_eq, hp.last_size]
    buf_size := by simp [hcb.size_eq, hp.buf_size]
    map_size := by simp [hp.map_size]
    last := fun y hy x hx ch hch => by
      simp only [nextSquare_lastImage]
      by_cases hb : blockAt w y x = k
      · simp only [Buffer.picture]
        rw [pixelIndex_of_blockAt hx hf.w_dvd hb, hcl.row _ (Nat.mod_lt _ (by decide)) _
          (by omega), hb, if_pos ⟨by omega, hd⟩]
      · rw [Buffer.picture, hcl.other _ (fun r hr => pixelIndex_outside hx hch hf.w_dvd hb hr),
          ← Buffer.picture, hp.last y hy x hx ch hch]
        simp only [show blockAt w y x < k + 1 ↔ blockAt w y x < k by omega]
    packed := fun j hj hdj r hr c hc ch hch => by
      simp only [nextSquare_diffBuf]
      rcases Nat.lt_succ_iff_lt_or_eq.mp hj with hj | rfl
      · have := dirtyCount_le_of_lt hj hdj
        rw [hcb.other _ (fun r' _ => .inl (by omega)), hp.packed j hj hdj r hr c hc ch hch]
      · rw [show 192 * dirtyCount L C w j + 24 * r + 3 * c + ch =
          8 * 8 * 3 * dirtyCount L C w j + r * 24 + (3 * c + ch) by ring,
          hcb.row r hr _ (by omega), Buffer.picture]
        rw [show blockPtr w j + r * (w * 3) + (3 * c + ch) =
          pixelIndex w (blockRow w j + r) (blockCol w j + c) ch by
            simp only [blockPtr, pixelIndex]; ring]
    buf_rest := fun i hi => by
      simp only [nextSquare_diffBuf, nextSquare_numSqDiff] at hi ⊢
      rw [hcb.other i (fun r hr => .inr (by have := hp.count; omega))]
      exact hp.buf_rest i (by omega)
    bits := fun j => by
      simp only [nextSquare_diffMap, hp.mapPos, hp.mapMask]
      refine hp.bits_step (fun i hi => ?_) j
      rw [getLsbD_or_mask _ (Nat.mod_lt _ (by decide))]
      split_ifs with h <;> simp [h, hd]
    map_rest := fun i hi => by
      simp only [nextSquare_diffMap, Function.update_apply, hp.mapPos]
      rw [if_neg (by omega)]
      exact hp.map_rest i (by omega) }

/-- One block of the loop. Its bytes lie inside both images and its slots inside both globals, so
the body returns `some`, and `Progress` moves on by one block. -/
theorem diffSquare_spec (hf : Fits L C buf map w h) (hp : Progress L C buf map w h k st)
    (hk : k < blockCount w h) (hl : st.lPtr = blockPtr w k) (hc : st.cPtr = blockPtr w k) :
    ∃ st', diffSquare C (w * 3) st = some st' ∧ Progress L C buf map w h (k + 1) st' ∧
      st'.lPtr = st.lPtr + 24 ∧ st'.cPtr = st.cPtr + 24 := by
  have hmap : st.mapPos < st.diffMap.size := by
    have := hf.map_size; rw [hp.mapPos, hp.map_size]; omega
  have hsq : squareDiff st.lastImage C st.lPtr st.cPtr (w * 3) = some (dirty L C w k) := by
    rw [hl, hc]; exact squareDiff_progress hf hp hk
  cases hd : dirty L C w k
  · exact ⟨_, by simp [diffSquare, hsq, hd, read_of_lt hmap, write_of_lt _ hmap],
      hp.step_clean hd, by simp, by simp⟩
  · have hin := blockPtr_add_le hf.w_dvd hf.h_dvd hk
    have hw : 24 ≤ w * 3 := by have := blockCol_add_le hf.w_dvd hk; omega
    have hn : 8 * 8 * 3 * st.numSqDiff + 192 ≤ st.diffBuf.size := by
      have := hf.buf_size
      have := dirtyCount_le (L := L) (C := C) (w := w) (k := k)
      rw [hp.buf_size, hp.count]; omega
    have hcur : st.cPtr + 7 * (w * 3) + 24 ≤ C.size := by rw [hc, hf.cur_size]; exact hin
    obtain ⟨last', hlast, hcl⟩ := copySquare_spec hw
      (show st.lPtr + 7 * (w * 3) + 24 ≤ st.lastImage.size by
        rw [hl, hp.last_size, hf.last_size]; exact hin) hcur
    obtain ⟨buf', hbuf, hcb⟩ := putSquare_spec hn hcur
    rw [hl, hc] at hcl
    rw [hc, hp.count] at hcb
    exact ⟨_, by simp [diffSquare, hsq, hd, read_of_lt hmap, write_of_lt _ hmap, hlast, hbuf],
      hp.step_dirty hf hd hcl hcb, by simp, by simp⟩

/-- `Progress` does not look at the pointers. -/
theorem Progress.setPtrs (hp : Progress L C buf map w h k st) (l c : Nat) :
    Progress L C buf map w h k { st with lPtr := l, cPtr := c } :=
  ⟨hp.1, hp.2, hp.3, hp.4, hp.5, hp.6, hp.7, hp.8, hp.9, hp.10, hp.11⟩

/-- The `j` loop: `n` more blocks of block row `i`, from block column `j`. -/
theorem diffColumns_spec {i j n : Nat} (hf : Fits L C buf map w h)
    (hp : Progress L C buf map w h (i * (w / 8) + j) st) (hi : i < h / 8) (hj : j + n ≤ w / 8)
    (hl : st.lPtr = pixelIndex w (8 * i) (8 * j) 0) (hc : st.cPtr = st.lPtr) :
    ∃ st', diffColumns C (w * 3) n st = some st' ∧
      Progress L C buf map w h (i * (w / 8) + j + n) st' ∧
      st'.lPtr = st.lPtr + 24 * n ∧ st'.cPtr = st'.lPtr := by
  induction n generalizing j st with
  | zero => exact ⟨st, rfl, hp, rfl, hc⟩
  | succ n ih =>
    have hk : i * (w / 8) + j < blockCount w h := by
      have := mul_add_le_of_lt (c := w / 8) hi
      simp only [blockCount]; rw [Nat.mul_comm (w / 8)]; omega
    have hptr := blockPtr_of_rowCol (i := i) (show j < w / 8 by omega)
    obtain ⟨st₁, h₁, hp₁, hl₁, hc₁⟩ :=
      diffSquare_spec hf hp hk (hl.trans hptr.symm) (hc.trans (hl.trans hptr.symm))
    rw [Nat.add_assoc] at hp₁
    obtain ⟨st', h', hp', hl', hc'⟩ := ih (j := j + 1) hp₁ (by omega) (by rw [hl₁, hl]; simp only [pixelIndex]; ring) (by rw [hc₁, hl₁, hc])
    rw [show i * (w / 8) + (j + 1) + n = i * (w / 8) + j + (n + 1) by omega] at hp'
    exact ⟨st', by simp [diffColumns, h₁, h'], hp', by rw [hl', hl₁]; ring, hc'⟩

/-- The `i` loop: `n` more block rows, from block row `i`. -/
theorem diffRows_spec {i n : Nat} (hf : Fits L C buf map w h)
    (hp : Progress L C buf map w h (i * (w / 8)) st) (hi : i + n ≤ h / 8)
    (hl : st.lPtr = pixelIndex w (8 * i) 0 0) (hc : st.cPtr = st.lPtr) :
    ∃ st', diffRows C (w * 3) (w / 8) n st = some st' ∧
      Progress L C buf map w h ((i + n) * (w / 8)) st' := by
  induction n generalizing i st with
  | zero => exact ⟨st, rfl, hp⟩
  | succ n ih =>
    obtain ⟨st₁, h₁, hp₁, hl₁, hc₁⟩ := diffColumns_spec (j := 0) (n := w / 8) hf hp (by omega)
      (by omega) hl hc
    have hw := hf.w_dvd
    rw [show i * (w / 8) + 0 + w / 8 = (i + 1) * (w / 8) by ring] at hp₁
    obtain ⟨st', h', hp'⟩ := ih (i := i + 1) (hp₁.setPtrs (st₁.lPtr + (8 * (w * 3) - w * 3))
      (st₁.cPtr + (8 * (w * 3) - w * 3))) (by omega)
      (by simp only [hl₁, hl, pixelIndex]; rw [show 24 * (w / 8) = 3 * w by omega]; ring_nf; omega)
      (by simp [hc₁])
    rw [show i + 1 + n = i + (n + 1) by omega] at hp'
    exact ⟨st', by simp [diffRows, h₁, h'], hp'⟩

theorem Progress.init :
    Progress L C buf map w h 0 ⟨L, buf, map, 0, 0, 0x01, 0, 0⟩ := by
  refine ⟨rfl, rfl, rfl, rfl, rfl, rfl, fun y _ x _ ch _ => ?_, fun j hj => absurd hj (by omega),
    fun _ _ => rfl, fun j => ?_, fun _ _ => rfl⟩
  · simp
  · simp

theorem imageDiff_progress (hf : Fits L C buf map w h) :
    ∃ st, imageDiff L C buf map w h = some st ∧ Progress L C buf map w h (blockCount w h) st := by
  have hw := hf.w_dvd
  have hh := hf.h_dvd
  rw [imageDiff, show (w + 7) / 8 = w / 8 by omega, show (h + 7) / 8 = h / 8 by omega]
  obtain ⟨st, hs, hp⟩ := diffRows_spec (i := 0) (n := h / 8) hf
    (by simpa using (Progress.init : Progress L C buf map w h 0 _))
    (by omega) (by simp [pixelIndex]) rfl
  exact ⟨st, hs, by simpa [blockCount, Nat.mul_comm] using hp⟩

theorem imageDiff_spec (hf : Fits L C buf map w h) (hd : imageDiff L C buf map w h = some st) :
    Progress L C buf map w h (blockCount w h) st := by
  obtain ⟨st', hs, hp⟩ := imageDiff_progress hf
  rw [hd, Option.some.injEq] at hs
  exact hs ▸ hp

end Step

/-- What one pass of `imageDiff` leaves behind: the dirty-block count, the bitmap, the packed
blocks and the new reference image, each exactly, and untouched bytes past what it writes. -/
structure DiffReport (L C buf map : Buffer) (w h : Nat) (st : DiffState) : Prop where
  count : st.numSqDiff = dirtyCount L C w (blockCount w h)
  bits : ∀ k < blockCount w h, mapBit st.diffMap k = dirty L C w k
  map_rest : ∀ i, blockCount w h ≤ 8 * i → st.diffMap.data i = map.data i
  packed : ∀ k < blockCount w h, dirty L C w k → ∀ r < 8, ∀ c < 8, ∀ ch < 3,
    st.diffBuf.data (192 * dirtyCount L C w k + 24 * r + 3 * c + ch) =
      C.picture w (blockRow w k + r) (blockCol w k + c) ch
  buf_rest : ∀ i, 192 * st.numSqDiff ≤ i → st.diffBuf.data i = buf.data i
  last : ∀ y < h, ∀ x < w, ∀ ch < 3, st.lastImage.picture w y x ch =
    if dirty L C w (blockAt w y x) then C.picture w y x ch else L.picture w y x ch
  replay : Agree w h (replayDiff w st.diffMap st.diffBuf (L.picture w)) (st.lastImage.picture w)

section Report

variable {L C buf map : Buffer} {w h : Nat} {st : DiffState}

theorem blockRow_blockAt {y x : Nat} (hx : x < w) (hw : 8 ∣ w) :
    blockRow w (blockAt w y x) = 8 * (y / 8) := by
  rw [blockRow, blockAt_div hx hw]

theorem blockCol_blockAt {y x : Nat} (hx : x < w) (hw : 8 ∣ w) :
    blockCol w (blockAt w y x) = 8 * (x / 8) := by
  rw [blockCol, blockAt_mod hx hw]

theorem Progress.report (hf : Fits L C buf map w h)
    (hp : Progress L C buf map w h (blockCount w h) st) : DiffReport L C buf map w h st := by
  have last : ∀ y < h, ∀ x < w, ∀ ch < 3, st.lastImage.picture w y x ch =
      if dirty L C w (blockAt w y x) then C.picture w y x ch else L.picture w y x ch :=
    fun y hy x hx ch hch => by
      rw [hp.last y hy x hx ch hch]
      simp only [blockAt_lt hy hx hf.w_dvd hf.h_dvd, true_and]
  refine ⟨hp.count, fun k hk => by rw [hp.bits, if_pos hk], hp.map_rest, hp.packed, hp.buf_rest,
    last, fun y hy x hx ch hch => ?_⟩
  have hk := blockAt_lt hy hx hf.w_dvd hf.h_dvd
  have hrank : mapRank st.diffMap (blockAt w y x) = dirtyCount L C w (blockAt w y x) :=
    List.countP_congr fun j hj => by
      rw [hp.bits, if_pos (by have := List.mem_range.mp hj; omega)]
  simp only [replayDiff, hp.bits, if_pos hk, hrank, last y hy x hx ch hch]
  split_ifs with hd
  · rw [hp.packed _ hk hd _ (Nat.mod_lt _ (by decide)) _ (Nat.mod_lt _ (by decide)) _ hch,
      blockRow_blockAt hx hf.w_dvd, blockCol_blockAt hx hf.w_dvd, Nat.div_add_mod,
      Nat.div_add_mod]
  · rfl

/-- `imageDiff` on any raster of whole 8×8 blocks that fits the globals `diffBuf` (240·320·3
bytes) and `diffMap` (150 bytes): it makes no out-of-bounds access, its count is the number of
blocks whose full difference exceeds `MIN_SQDIFF`, and the bitmap, the packed blocks and the new
`lastImage` are exactly those of `DiffReport`. -/
theorem imageDiff_exact (hw : 8 ∣ w) (hh : 8 ∣ h) (hblocks : blockCount w h ≤ 1200)
    (hL : L.size = w * h * 3) (hC : C.size = w * h * 3) (hbuf : buf.size = 240 * 320 * 3)
    (hmap : map.size = 240 / 8 * (320 / 8) / 8) :
    ∃ st, imageDiff L C buf map w h = some st ∧ st.numSqDiff ≤ 1200 ∧
      DiffReport L C buf map w h st := by
  have hf : Fits L C buf map w h := ⟨hw, hh, hL, hC, by omega, by omega⟩
  obtain ⟨st, hs, hp⟩ := imageDiff_progress hf
  exact ⟨st, hs, by rw [hp.count]; exact dirtyCount_le.trans hblocks, hp.report hf⟩

/-- A white frame over a black reference, at the pump's size: all 1200 blocks are dirty. -/
theorem imageDiff_exact_white_over_black :
    ∃ st, imageDiff ⟨240 * 320 * 3, fun _ => 0⟩ ⟨240 * 320 * 3, fun _ => 255⟩
        ⟨240 * 320 * 3, fun _ => 0⟩ ⟨150, fun _ => 0⟩ 240 320 = some st ∧ st.numSqDiff = 1200 ∧
      DiffReport ⟨240 * 320 * 3, fun _ => 0⟩ ⟨240 * 320 * 3, fun _ => 255⟩
        ⟨240 * 320 * 3, fun _ => 0⟩ ⟨150, fun _ => 0⟩ 240 320 st := by
  obtain ⟨st, hs, -, hr⟩ := @imageDiff_exact ⟨240 * 320 * 3, fun _ => 0⟩
    ⟨240 * 320 * 3, fun _ => 255⟩ ⟨240 * 320 * 3, fun _ => 0⟩ ⟨150, fun _ => 0⟩ 240 320
    (by decide) (by decide) (by decide) rfl rfl rfl rfl
  refine ⟨st, hs, ?_, hr⟩
  rw [hr.count, dirtyCount, List.countP_eq_length.2 fun k _ => ?_, List.length_range]
  · rfl
  · simp [dirty, blockSum, Buffer.picture, byteDiff, minSqDiff]

end Report

end CitraStream
