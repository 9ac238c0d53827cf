import CitraStream.Pump

/-!
# The byte stream

Each call with a frame writes one message with a few `socketSend` calls: the mode code as the two
bytes of a `uint16_t`, and for a message with a payload `dataSize = outSize` in a `uint16_t`, the
150 bytes of `diffMap` for `FM_DIFF`, and `dataSize` bytes of the encoder's output. `Message.sends`
lists them; the encoder `jpegCompress` is any function of the image and its dimensions. Each
`socketSend` checks the socket's state first, and the connection may drop while a send waits for
its bytes to be written, so a call's message can be cut between or inside its sends
(`socketSends`, `Pump.connection`).

A `Packet` is a message as the stream carries it, and `Packet.bytes` its layout by the table of
modes; `readStream` reads a stream back by that table. It accepts exactly the concatenations of
well-formed packets (`readStream_iff`). Over one connection, what the peer has received reads back
as the messages the socket took, in order, each payload cut to its first `outSize mod 65536`
bytes, and at most the cut start of the one in flight when the connection dropped
(`connection_reads_back`).
-/

namespace CitraStream

/-- The bytes of a buffer, in order. -/
def Buffer.toList (b : Buffer) : List UInt8 := (List.range b.size).map b.data

@[simp] theorem Buffer.length_toList (b : Buffer) : b.toList.length = b.size := by
  simp [Buffer.toList]

/-- The two bytes of a `uint16_t` holding `v`, low byte first, as
`socketSend(sock, (const char *)&v, 2)` writes them. -/
def u16 (v : Nat) : List UInt8 := [UInt8.ofNat v, UInt8.ofNat (v / 256)]

@[simp] theorem length_u16 (v : Nat) : (u16 v).length = 2 := rfl

/-- `uint16_t dataSize = outSize;` -/
def dataSize (out : List UInt8) : Nat := out.length % 65536

/-- `socketSend(sock, jpgBuf, dataSize)`: the first `dataSize` bytes of the encoder's output. -/
def payload (out : List UInt8) : List UInt8 := out.take (dataSize out)

theorem length_payload (out : List UInt8) : (payload out).length = dataSize out := by
  simp only [payload, List.length_take, dataSize]
  exact min_eq_left (Nat.mod_le _ _)

theorem length_payload_lt (out : List UInt8) : (payload out).length < 65536 := by
  rw [length_payload]; exact Nat.mod_lt _ (by decide)

/-- A message as the stream carries it: its code, the bitmap of a `DIFF`, and its payload. -/
structure Packet where
  code : Nat
  map : List UInt8
  payload : List UInt8
  deriving DecidableEq, Repr

/-- Modelled from the spec: a message's layout, by the table of modes. `NONE` is its code alone;
every other mode has a two-byte payload length, the bitmap for `DIFF`, and the payload. -/
def Packet.bytes (p : Packet) : List UInt8 :=
  if p.code = 0 then u16 0 else u16 p.code ++ u16 p.payload.length ++ p.map ++ p.payload

/-- Modelled from the spec: what the table of modes allows. -/
structure Packet.WellFormed (p : Packet) : Prop where
  code_le : p.code ≤ 4
  map_length : p.map.length = if p.code = 2 then 150 else 0
  payload_lt : p.payload.length < 65536
  none_empty : p.code = 0 → p.payload = []

instance (p : Packet) : Decidable p.WellFormed :=
  decidable_of_iff (p.code ≤ 4 ∧ p.map.length = (if p.code = 2 then 150 else 0) ∧
      p.payload.length < 65536 ∧ (p.code = 0 → p.payload = []))
    ⟨fun ⟨a, b, c, d⟩ => ⟨a, b, c, d⟩, fun ⟨a, b, c, d⟩ => ⟨a, b, c, d⟩⟩

theorem two_le_length_bytes (p : Packet) : 2 ≤ p.bytes.length := by
  unfold Packet.bytes; split <;> simp

/-! ### Reading the stream back -/

/-- Modelled from the spec: a two-byte little-endian integer. -/
def readU16 : List UInt8 → Option (Nat × List UInt8)
  | lo :: hi :: rest => some (lo.toNat + 256 * hi.toNat, rest)
  | _ => none

/-- Modelled from the spec: the next `n` bytes. -/
def readBytes (n : Nat) (bs : List UInt8) : Option (List UInt8 × List UInt8) :=
  if n ≤ bs.length then some (bs.take n, bs.drop n) else none

/-- Modelled from the spec: one message. A code past 4, or a stream that ends inside a message,
is refused. -/
def readPacket (bs : List UInt8) : Option (Packet × List UInt8) := do
  let (code, bs) ← readU16 bs
  if code = 0 then pure (⟨0, [], []⟩, bs)
  else if code ≤ 4 then do
    let (n, bs) ← readU16 bs
    let (map, bs) ← readBytes (if code = 2 then 150 else 0) bs
    let (payload, bs) ← readBytes n bs
    pure (⟨code, map, payload⟩, bs)
  else none

/-- Modelled from the spec: the messages of a stream, up to `fuel` of them, read to its end. -/
def readPackets : Nat → List UInt8 → Option (List Packet)
  | _, [] => some []
  | 0, _ :: _ => none
  | fuel + 1, b :: bs => do
    let (p, rest) ← readPacket (b :: bs)
    let ps ← readPackets fuel rest
    pure (p :: ps)

/-- Modelled from the spec: every message of a stream. A message takes at least two bytes, so
the stream's length bounds their number. -/
def readStream (bs : List UInt8) : Option (List Packet) := readPackets bs.length bs

/-- Modelled from the spec: what a peer reads from the bytes it has received, message by message
and up to `fuel` messages: the messages, and the bytes after them, which do not hold a whole one. -/
def readAvailable : Nat → List UInt8 → List Packet × List UInt8
  | 0, bs => ([], bs)
  | fuel + 1, bs =>
    match readPacket bs with
    | some (p, rest) => let r := readAvailable fuel rest; (p :: r.1, r.2)
    | none => ([], bs)

/-- Modelled from the spec: every whole message of the bytes received so far. -/
def readReceived (bs : List UInt8) : List Packet × List UInt8 := readAvailable bs.length bs

section Reader

variable {bs rest : List UInt8} {p : Packet}

theorem toNat_ofNat_u8 (n : Nat) : (UInt8.ofNat n).toNat = n % 256 := by
  simp only [UInt8.toNat, UInt8.ofNat, BitVec.toNat_ofNat]

theorem readU16_u16 {v : Nat} (hv : v < 65536) (rest : List UInt8) :
    readU16 (u16 v ++ rest) = some (v, rest) := by
  simp only [u16, List.cons_append, List.nil_append, readU16, toNat_ofNat_u8, Option.some.injEq,
    Prod.mk.injEq, and_true]
  omega

theorem readU16_sound {v : Nat} (h : readU16 bs = some (v, rest)) :
    v < 65536 ∧ u16 v ++ rest = bs := by
  match bs, h with
  | lo :: hi :: rest', h =>
    simp only [readU16, Option.some.injEq, Prod.mk.injEq] at h
    obtain ⟨rfl, rfl⟩ := h
    have hlo : lo.toNat < 256 := lo.toNat_lt_size
    have hhi : hi.toNat < 256 := hi.toNat_lt_size
    refine ⟨by omega, ?_⟩
    simp only [u16, List.cons_append, List.nil_append, List.cons.injEq, and_true]
    exact ⟨UInt8.toNat.inj (by rw [toNat_ofNat_u8]; omega),
      UInt8.toNat.inj (by rw [toNat_ofNat_u8]; omega)⟩

theorem readBytes_append {xs : List UInt8} (rest : List UInt8) :
    readBytes xs.length (xs ++ rest) = some (xs, rest) := by
  simp [readBytes]

theorem readBytes_sound {n : Nat} {xs : List UInt8} (h : readBytes n bs = some (xs, rest)) :
    xs.length = n ∧ xs ++ rest = bs := by
  unfold readBytes at h
  split at h
  · cases h; exact ⟨by simpa, List.take_append_drop n bs⟩
  · cases h

/-- A well-formed packet reads back whole, and the reader stops right after it. -/
theorem readPacket_bytes (hp : p.WellFormed) (rest : List UInt8) :
    readPacket (p.bytes ++ rest) = some (p, rest) := by
  obtain ⟨code, map, pl⟩ := p
  obtain ⟨hc, hm, hpl, hn⟩ := hp
  simp only at hc hm hpl hn
  unfold Packet.bytes
  by_cases h0 : code = 0
  · subst h0
    rw [if_neg (by decide)] at hm
    rw [List.eq_nil_of_length_eq_zero hm, hn rfl]
    simp [readPacket, readU16_u16 (show 0 < 65536 by decide)]
  · have hmap : readBytes (if code = 2 then 150 else 0) (map ++ (pl ++ rest)) =
        some (map, pl ++ rest) := by
      rw [← hm, readBytes_append]
    simp only [if_neg h0, List.append_assoc, readPacket, readU16_u16 (show code < 65536 by omega),
      readU16_u16 hpl, hmap, readBytes_append, if_pos hc, Option.bind_eq_bind, Option.some_bind,
      Option.pure_def]

/-- What the reader takes for one message is a well-formed packet's layout. -/
theorem readPacket_sound (h : readPacket bs = some (p, rest)) :
    p.WellFormed ∧ p.bytes ++ rest = bs := by
  simp only [readPacket, Option.bind_eq_bind, Option.bind_eq_some, Option.pure_def] at h
  obtain ⟨⟨code, bs₁⟩, h₁, h⟩ := h
  dsimp only at h
  obtain ⟨hlt, rfl⟩ := readU16_sound h₁
  by_cases h0 : code = 0
  · rw [if_pos h0] at h
    cases h
    exact ⟨⟨by decide, rfl, by decide, fun _ => rfl⟩, by simp [Packet.bytes, h0]⟩
  · by_cases hc : code ≤ 4
    · rw [if_neg h0, if_pos hc] at h
      simp only [Option.bind_eq_some, Option.some.injEq] at h
      obtain ⟨⟨n, bs₂⟩, h₂, ⟨map, bs₃⟩, h₃, ⟨pl, bs₄⟩, h₄, h⟩ := h
      obtain ⟨rfl, rfl⟩ := Prod.mk.inj h
      dsimp only at h₃ h₄ ⊢
      obtain ⟨hn, rfl⟩ := readU16_sound h₂
      obtain ⟨hm, rfl⟩ := readBytes_sound h₃
      obtain ⟨hpl, rfl⟩ := readBytes_sound h₄
      refine ⟨⟨hc, hm, hpl ▸ hn, fun h => absurd h h0⟩, ?_⟩
      simp only [Packet.bytes, if_neg h0, hpl, List.append_assoc]
    · rw [if_neg h0, if_neg hc] at h
      cases h

theorem readPackets_bytes {ps : List Packet} (hps : ∀ p ∈ ps, p.WellFormed) {fuel : Nat}
    (hf : ps.length ≤ fuel) : readPackets fuel (ps.flatMap Packet.bytes) = some ps := by
  induction ps generalizing fuel with
  | nil => cases fuel <;> rfl
  | cons p ps ih =>
    obtain ⟨fuel, rfl⟩ : ∃ k, fuel = k + 1 := ⟨fuel - 1, by simp at hf; omega⟩
    have hp := hps p (List.mem_cons_self p ps)
    obtain ⟨b, bs, hb⟩ : ∃ b bs, p.bytes ++ ps.flatMap Packet.bytes = b :: bs := by
      cases h : p.bytes with
      | nil => have := two_le_length_bytes p; simp [h] at this
      | cons b bs => exact ⟨b, bs ++ ps.flatMap Packet.bytes, by simp⟩
    rw [List.flatMap_cons, hb, readPackets, ← hb]
    simp only [readPacket_bytes hp, Option.bind_eq_bind, Option.some_bind,
      ih (fun q hq => hps q (List.mem_cons_of_mem p hq)) (by simpa using hf), Option.pure_def]

theorem readPackets_sound {fuel : Nat} {ps : List Packet} (h : readPackets fuel bs = some ps) :
    (∀ p ∈ ps, p.WellFormed) ∧ ps.flatMap Packet.bytes = bs := by
  induction fuel, bs using readPackets.induct generalizing ps with
  | case1 =>
    simp only [readPackets, Option.some.injEq] at h
    subst h
    exact ⟨nofun, rfl⟩
  | case2 => cases h
  | case3 fuel b bs ih =>
    simp only [readPackets, Option.bind_eq_bind, Option.bind_eq_some, Option.pure_def,
      Option.some.injEq] at h
    obtain ⟨⟨q, rest⟩, h₁, qs, h₂, rfl⟩ := h
    obtain ⟨hq, hbs⟩ := readPacket_sound h₁
    obtain ⟨hqs, hrest⟩ := ih rest h₂
    exact ⟨List.forall_mem_cons.2 ⟨hq, hqs⟩, by rw [List.flatMap_cons, hrest, hbs]⟩

theorem length_le_length_flatMap_bytes (ps : List Packet) :
    ps.length ≤ (ps.flatMap Packet.bytes).length := by
  induction ps with
  | nil => rfl
  | cons p ps ih =>
    have := two_le_length_bytes p
    simp only [List.flatMap_cons, List.length_append, List.length_cons]
    omega

theorem readStream_flatMap {ps : List Packet} (hps : ∀ p ∈ ps, p.WellFormed) :
    readStream (ps.flatMap Packet.bytes) = some ps :=
  readPackets_bytes hps (length_le_length_flatMap_bytes ps)

/-- The reader accepts exactly the concatenations of well-formed packets, and gives back the
packets they were made of. -/
theorem readStream_iff (bs : List UInt8) (ps : List Packet) :
    readStream bs = some ps ↔ (∀ p ∈ ps, p.WellFormed) ∧ ps.flatMap Packet.bytes = bs :=
  ⟨readPackets_sound, fun ⟨hps, h⟩ => h ▸ readStream_flatMap hps⟩

/-- The layout is prefix-free: the bytes of a well-formed packet do not start another's. -/
theorem Packet.eq_of_bytes_append {q : Packet} (hp : p.WellFormed) (hq : q.WellFormed)
    {t : List UInt8} (h : q.bytes ++ t = p.bytes) : q = p ∧ t = [] := by
  have h₁ := readPacket_bytes hq t
  rw [h, ← List.append_nil p.bytes, readPacket_bytes hp] at h₁
  simp only [Option.some.injEq, Prod.mk.injEq] at h₁
  exact ⟨h₁.1.symm, h₁.2.symm⟩

/-- A cut packet reads as nothing. -/
theorem readPacket_of_append {u : List UInt8} (hp : p.WellFormed) (h : bs ++ u = p.bytes)
    (hu : u ≠ []) : readPacket bs = none := by
  cases hr : readPacket bs with
  | none => rfl
  | some r =>
    obtain ⟨hq, rfl⟩ := readPacket_sound hr
    rw [List.append_assoc] at h
    exact absurd (List.append_eq_nil.1 (Packet.eq_of_bytes_append hp hq h).2).2 hu

/-- Received bytes that start a stream of well-formed packets read as the first of those packets
and then the cut start of the next one, shorter than it. -/
theorem readAvailable_of_prefix_flatMap {Q : List Packet} (hQ : ∀ q ∈ Q, q.WellFormed)
    (hbs : bs <+: Q.flatMap Packet.bytes) {fuel : Nat} (hf : bs.length ≤ fuel) :
    ∃ ps qs rest, Q = ps ++ qs ∧ readAvailable fuel bs = (ps, rest) ∧
      bs = ps.flatMap Packet.bytes ++ rest ∧ rest <+: qs.flatMap Packet.bytes ∧
      ∀ q ∈ qs.head?, rest.length < q.bytes.length := by
  induction Q generalizing bs fuel with
  | nil =>
    obtain rfl := List.prefix_nil.1 hbs
    exact ⟨[], [], [], rfl, by cases fuel <;> rfl, rfl, List.nil_prefix, nofun⟩
  | cons q Q ih =>
    rw [List.flatMap_cons] at hbs
    have hq := hQ q (List.mem_cons_self q Q)
    by_cases hlen : q.bytes.length ≤ bs.length
    · -- the packet has arrived whole
      obtain ⟨bs', rfl⟩ := List.prefix_of_prefix_length_le (List.prefix_append _ _) hbs hlen
      have h2 := two_le_length_bytes q
      obtain ⟨fuel, rfl⟩ : ∃ k, fuel = k + 1 := ⟨fuel - 1, by simp at hf; omega⟩
      obtain ⟨ps, qs, rest, rfl, hr, rfl, hrest, hlt⟩ :=
        @ih bs' (fun q' h => hQ q' (List.mem_cons_of_mem q h))
          ((List.prefix_append_right_inj _).1 hbs) fuel (by simp at hf; omega)
      refine ⟨q :: ps, qs, rest, rfl, ?_, by simp, hrest, hlt⟩
      simp only [readAvailable, readPacket_bytes hq, hr]
    · -- the packet is cut
      obtain ⟨u, hu⟩ := List.prefix_of_prefix_length_le hbs (List.prefix_append _ _) (by omega)
      have hnone := readPacket_of_append hq hu (by rintro rfl; simp [← hu] at hlen)
      refine ⟨[], q :: Q, bs, rfl, ?_, rfl, ⟨u ++ Q.flatMap Packet.bytes, ?_⟩, fun q' hq' => ?_⟩
      · cases fuel <;> simp only [readAvailable, hnone]
      · rw [List.flatMap_cons, ← hu, List.append_assoc]
      · cases hq'
        omega

theorem readReceived_flatMap {Q : List Packet} (hQ : ∀ q ∈ Q, q.WellFormed) :
    readReceived (Q.flatMap Packet.bytes) = (Q, []) := by
  obtain ⟨ps, qs, rest, rfl, hr, hbs, -, hlt⟩ :=
    readAvailable_of_prefix_flatMap hQ (List.prefix_refl _) le_rfl
  rw [List.flatMap_append] at hbs
  obtain rfl := List.append_cancel_left hbs
  cases qs with
  | nil => simpa [readReceived] using hr
  | cons q qs => simpa using hlt q rfl

end Reader

/-! ### What the pump writes -/

section Encoder

variable (jpegCompress : Buffer → Nat → Nat → List UInt8)

/-- `socketSend` over the buffers of one call, the socket in `ConnectedState` for the first `k`
of them: each of those is written whole, and each later one returns 0 and writes nothing, since
only the `connectToHost` of a later call brings the socket back. -/
def socketSends : Nat → List (List UInt8) → List UInt8
  | _, [] => []
  | 0, _ :: bufs => socketSends 0 bufs
  | k + 1, buf :: bufs => buf ++ socketSends k bufs

@[simp] theorem socketSends_zero (bufs : List (List UInt8)) : socketSends 0 bufs = [] := by
  induction bufs with
  | nil => rfl
  | cons _ _ ih => exact ih

theorem socketSends_prefix_flatten (k : Nat) (bufs : List (List UInt8)) :
    socketSends k bufs <+: bufs.flatten := by
  induction bufs generalizing k with
  | nil => cases k <;> exact List.nil_prefix
  | cons buf bufs ih =>
    cases k with
    | zero => simp only [socketSends_zero, List.nil_prefix]
    | succ k => exact (List.prefix_append_right_inj buf).2 (ih k)

/-- The buffers a call with a frame hands `socketSend` for `msg`: the mode code (`frameMode`, or
`dataType = 3 + checker` for a checkerboard half); for a message with a payload, `dataSize`, the
`sizeof(diffMap)` bytes of the bitmap for `FM_DIFF`, and `dataSize` bytes of what `jpegCompress`
makes of the whole frame, of the packed blocks as an image 8 wide and `8 * numSq` high, or of the
half-width interlaced frame. -/
def Message.sends : Message → List (List UInt8)
  | .none => [u16 0]
  | .full image =>
    let out := jpegCompress image 240 320
    [u16 1, u16 (dataSize out), payload out]
  | .diff map packed =>
    let out := jpegCompress packed 8 (packed.size / 24)
    [u16 2, u16 (dataSize out), map.toList, payload out]
  | .checker dataType image =>
    let out := jpegCompress image 120 320
    [u16 dataType, u16 (dataSize out), payload out]

/-- The bytes of a message, its sends one after another. -/
def Message.bytes (msg : Message) : List UInt8 := (msg.sends jpegCompress).flatten

/-- The packet a message is on the stream. -/
def Message.packet : Message → Packet
  | .none => ⟨0, [], []⟩
  | .full image => ⟨1, [], payload (jpegCompress image 240 320)⟩
  | .diff map packed => ⟨2, map.toList, payload (jpegCompress packed 8 (packed.size / 24))⟩
  | .checker dataType image => ⟨dataType, [], payload (jpegCompress image 120 320)⟩

/-- What the socket takes from a call whose sends all find it connected: the bytes of its message
when it had a frame and the maintenance left the socket connected, and nothing otherwise; a poll
only reads. -/
def Outcome.bytes (o : Outcome) : List UInt8 :=
  match o.sent, o.delivered with
  | some (_, msg), true => msg.bytes jpegCompress
  | _, _ => []

/-- What the socket takes from a call when the connection drops after its first `k` sends. -/
def Outcome.written (o : Outcome) (k : Nat) : List UInt8 :=
  match o.sent, o.delivered with
  | some (_, msg), true => socketSends k (msg.sends jpegCompress)
  | _, _ => []

theorem Outcome.written_prefix_bytes (o : Outcome) (k : Nat) :
    o.written jpegCompress k <+: o.bytes jpegCompress := by
  unfold Outcome.written Outcome.bytes
  split
  · exact socketSends_prefix_flatten k _
  · exact List.nil_prefix

/-- The packet the socket takes from a call, if any. -/
def Outcome.packet (o : Outcome) : Option Packet :=
  match o.sent, o.delivered with
  | some (_, msg), true => some (msg.packet jpegCompress)
  | _, _ => none

/-- The bytes the socket takes over a sequence of calls. -/
def Pump.stream (p : Pump) (cs : List Call) : List UInt8 :=
  (p.trace cs).flatMap fun x => x.2.bytes jpegCompress

/-- The bytes one connection carries over the calls `cs`: it stays up through the sends of every
call but the last, and through the first `k` sends of the last one. -/
def Pump.connection (p : Pump) : List Call → Nat → List UInt8
  | [], _ => []
  | [c], k => (p.step c).2.written jpegCompress k
  | c :: cs@(_ :: _), k => (p.step c).2.bytes jpegCompress ++ (p.step c).1.connection cs k

variable {s s' : PumpState} {f : Buffer} {m : FrameMode} {msg : Message}

/-- A message with a payload: a code from 1 to 4 and a bitmap as long as the code asks make a
well-formed packet, laid out as code, `dataSize`, bitmap, payload. -/
theorem payload_packet {code : Nat} {map out : List UInt8} (h₁ : 0 < code) (h₄ : code ≤ 4)
    (hm : map.length = if code = 2 then 150 else 0) :
    (⟨code, map, payload out⟩ : Packet).WellFormed ∧
      (⟨code, map, payload out⟩ : Packet).bytes = u16 code ++ u16 (dataSize out) ++ map ++ payload out :=
  ⟨⟨h₄, hm, length_payload_lt out, fun h => absurd (show code = 0 from h) (by omega)⟩,
    by simp only [Packet.bytes, if_neg (show code ≠ 0 by omega), length_payload]⟩

/-- Every message a sound state sends is a well-formed packet, written in the layout of the table:
its code is at most 4, its bitmap has `sizeof(diffMap)` bytes, and its length field is the length
of the payload that follows. -/
theorem Sends.packet (hs : Sound s) (hf : f.size = 240 * 320 * 3) (h : Sends s f m msg s') :
    (msg.packet jpegCompress).WellFormed ∧
      (msg.packet jpegCompress).bytes = msg.bytes jpegCompress := by
  have hs' := h.sound hs hf
  have hc := hs.checker_le
  cases h with
  | first | refresh =>
    simpa [Message.bytes, Message.sends] using @payload_packet 1 [] (jpegCompress _ 240 320)
      (by decide) (by decide) rfl
  | compl | checker =>
    simpa [Message.bytes, Message.sends] using @payload_packet (3 + s.checker) [] (jpegCompress _ 120 320)
      (by omega) (by omega) (by rw [if_neg (by omega)]; rfl)
  | unchanged => exact ⟨⟨Nat.zero_le _, rfl, Nat.zero_lt_succ _, fun _ => rfl⟩, by rfl⟩
  | diff =>
    simpa [Message.bytes, Message.sends] using
      payload_packet (by decide) (by decide) (by simpa using hs'.map_size)

namespace Pump

/-- A call hands the socket one well-formed packet's bytes, or nothing. -/
theorem step_packet (p : Pump) (c : Call) :
    (∀ q ∈ (p.step c).2.packet jpegCompress, q.WellFormed) ∧
      ((p.step c).2.packet jpegCompress).toList.flatMap Packet.bytes =
        (p.step c).2.bytes jpegCompress := by
  cases hc : c.frame with
  | none =>
    rw [(p.step_poll hc).2]
    exact ⟨nofun, rfl⟩
  | some f =>
    obtain ⟨fm, msg, s', hsends, -, ho⟩ := p.step_frame hc
    rw [ho]
    cases c.link.up (maintainConnection p.1.waitConnection c.link.connected).2
    · exact ⟨nofun, rfl⟩
    · obtain ⟨hw, hb⟩ := hsends.packet jpegCompress p.2 f.2
      exact ⟨fun q hq => by cases hq; exact hw, by simp [Outcome.packet, Outcome.bytes, hb]⟩

theorem stream_packets (p : Pump) (cs : List Call) :
    (∀ q ∈ (p.trace cs).filterMap (fun x => x.2.packet jpegCompress), q.WellFormed) ∧
      ((p.trace cs).filterMap fun x => x.2.packet jpegCompress).flatMap Packet.bytes =
        p.stream jpegCompress cs := by
  induction cs generalizing p with
  | nil => exact ⟨nofun, rfl⟩
  | cons c cs ih =>
    obtain ⟨hw, hb⟩ := p.step_packet jpegCompress c
    obtain ⟨ihw, ihb⟩ := ih (p.step c).1
    simp only [stream, trace_cons, List.flatMap_cons] at ihb ⊢
    cases ho : (p.step c).2.packet jpegCompress with
    | none =>
      rw [ho] at hb
      simp only [List.filterMap_cons, ho]
      exact ⟨ihw, by rw [← hb, ihb]; rfl⟩
    | some q =>
      rw [ho] at hb hw
      simp only [List.filterMap_cons, ho, List.mem_cons, forall_eq_or_imp, List.flatMap_cons]
      exact ⟨⟨hw q rfl, ihw⟩, by rw [← hb, ihb]; simp⟩

@[simp] theorem stream_nil (p : Pump) : p.stream jpegCompress [] = [] := rfl

theorem stream_cons (p : Pump) (c : Call) (cs : List Call) :
    p.stream jpegCompress (c :: cs) =
      (p.step c).2.bytes jpegCompress ++ (p.step c).1.stream jpegCompress cs := by
  simp only [stream, trace_cons, List.flatMap_cons]

/-- A connection carries the start of what the socket would take over its calls. -/
theorem connection_prefix_stream (k : Nat) :
    (p : Pump) → (cs : List Call) → p.connection jpegCompress cs k <+: p.stream jpegCompress cs
  | _, [] => by simp only [connection, stream_nil, List.nil_prefix]
  | p, [c] => by
    simpa only [connection, stream_cons, stream_nil, List.append_nil]
      using (p.step c).2.written_prefix_bytes jpegCompress k
  | p, c :: c' :: cs => by
    rw [connection, stream_cons]
    exact (List.prefix_append_right_inj _).2 (connection_prefix_stream k _ (c' :: cs))

end Pump

/-- Whatever the encoder returns, from any state and over the calls `cs` of one connection: what
the peer has received, any start of what the sends wrote before the connection dropped (inside or
between the sends of the last call, or not at all), reads as the packets of the first messages the
socket took, in order, followed by the cut start of the next one, shorter than it. No message
before the drop is lost, added, reordered or merged, and only the one in flight is cut; a
connection that does not drop reads back as all its messages. A payload is the encoder's output
cut to its first `outSize mod 65536` bytes, so a compressed image of 65536 bytes or more arrives
truncated though the stream stays in frame. -/
theorem connection_reads_back (p : Pump) (cs : List Call) (k n : Nat) :
    readReceived (p.stream jpegCompress cs) =
        ((p.trace cs).filterMap (fun x => x.2.packet jpegCompress), []) ∧
      ∃ ps qs rest, (p.trace cs).filterMap (fun x => x.2.packet jpegCompress) = ps ++ qs ∧
        readReceived ((p.connection jpegCompress cs k).take n) = (ps, rest) ∧
        (p.connection jpegCompress cs k).take n = ps.flatMap Packet.bytes ++ rest ∧
        rest <+: qs.flatMap Packet.bytes ∧ ∀ q ∈ qs.head?, rest.length < q.bytes.length := by
  obtain ⟨hw, hb⟩ := p.stream_packets jpegCompress cs
  refine ⟨hb ▸ readReceived_flatMap hw, ?_⟩
  have hpre := (List.take_prefix n _).trans (p.connection_prefix_stream jpegCompress k cs)
  rw [← hb] at hpre
  exact readAvailable_of_prefix_flatMap hw hpre le_rfl

end Encoder

end CitraStream
