import CppCode.Segments.Model

/-!
# CppCode.Segments.Roudi

**The list of segments over the socket** (`handleClient` of `003.roudi.cpp` and
`getSegmentsFromRoudi` of `003.common.hpp`). Roudi answers a request with the number of
segments and the segments themselves, as they lie in its memory. The socket is a stream: a
`read` blocks until something has arrived and returns what has arrived by then, up to the
number of bytes asked for. The client makes one `read` for the number and one for each segment.
-/

namespace CppCode.Segments

open Bytes

/-! ### Segments in memory -/

/-- `sizeof(SegmentInfo)`. -/
def segmentInfoSize : Nat := 88

/-- The bytes of a `SegmentInfo`, with its padding. -/
def SegmentInfo.encode (info : SegmentInfo) : List UInt8 :=
  toBytes 8 info.id.toNat ++ (info.shmName.toList ++ (toBytes 8 info.size.toNat ++
    ([info.isControl] ++ info.pad.toList)))

/-- The `SegmentInfo` whose memory holds these bytes. -/
def SegmentInfo.decode (bytes : List UInt8) : SegmentInfo where
  id := UInt64.ofNat (ofBytes (bytes.take 8))
  shmName := Vector.ofFn fun i => bytes.getD (8 + i) 0
  size := UInt64.ofNat (ofBytes ((bytes.drop 72).take 8))
  isControl := bytes.getD 80 0
  pad := Vector.ofFn fun i => bytes.getD (81 + i) 0

theorem length_encode (info : SegmentInfo) : info.encode.length = segmentInfoSize := by
  simp [SegmentInfo.encode, segmentInfoSize]

/-- A byte of an array that lies behind `before` in memory. -/
theorem getD_append_toList {n : Nat} (before after : List UInt8) (array : Vector UInt8 n)
    {k i : Nat} (hk : k = before.length) (hi : i < n) :
    (before ++ (array.toList ++ after)).getD (k + i) 0 = array[i] := by
  subst hk
  have hlt : i < array.toList.length := by rwa [Vector.length_toList]
  rw [List.getD_eq_getElem?_getD, List.getElem?_append_right (by omega), Nat.add_sub_cancel_left,
    List.getElem?_append_left hlt, List.getElem?_eq_getElem hlt, Option.getD_some,
    Vector.getElem_toList]

/-- A segment read back from its bytes. -/
theorem decode_encode (info : SegmentInfo) : SegmentInfo.decode info.encode = info := by
  obtain ⟨id, shmName, size, isControl, pad⟩ := info
  have hword : ∀ v : UInt64, UInt64.ofNat (ofBytes (toBytes 8 v.toNat)) = v := by
    intro v
    rw [ofBytes_toBytes_of_lt v.toNat_lt, UInt64.ofNat_toNat]
  have hid : (toBytes 8 id.toNat).length = 8 := length_toBytes 8 _
  have hsize : (toBytes 8 size.toNat).length = 8 := length_toBytes 8 _
  simp only [SegmentInfo.decode, SegmentInfo.encode, SegmentInfo.mk.injEq]
  refine ⟨?_, ?_, ?_, ?_, ?_⟩
  · rw [List.take_left' hid, hword]
  · apply Vector.ext
    intro i hi
    rw [Vector.getElem_ofFn, getD_append_toList _ _ _ hid.symm hi]
  · rw [← List.append_assoc, List.drop_left' (by simp), List.take_left' hsize, hword]
  · simp [hid, hsize]
  · have happend : ∀ a b c d : List UInt8, a ++ (b ++ (c ++ ([isControl] ++ d))) =
        (a ++ b ++ c ++ [isControl]) ++ (d ++ []) := by simp
    apply Vector.ext
    intro i hi
    rw [Vector.getElem_ofFn, happend, getD_append_toList _ _ _ (by simp) hi]

/-! ### The two ends of the socket -/

/-- The request code of the client. -/
def reqGetSegments : UInt8 := 0x01

/-- What `handleClient` writes to a client that has sent `req`. The number of segments is
narrowed to a `uint32_t`. -/
def handleClient (segments : List SegmentInfo) (req : UInt8) : List UInt8 :=
  if req = reqGetSegments then
    toBytes 4 (UInt32.ofNat segments.length).toNat ++ segments.flatMap SegmentInfo.encode
  else []

/-- A `read` of at most `size` bytes when `arrived` bytes can be had at once, and what is left of
the stream. It waits for at least one byte, and returns none at the end of the stream only. -/
def read (stream : List UInt8) (size arrived : Nat) : List UInt8 × List UInt8 :=
  stream.splitAt (min size (max 1 arrived))

/-- The loop over the segments; `arrived j` is for the `j`-th of its calls of `read`. A short
`read` ends the program with the text given to `perror`. -/
def readSegments (arrived : Nat → Nat) : Nat → Nat → List UInt8 → Except String (List SegmentInfo)
  | _, 0, _ => .ok []
  | j, count + 1, stream =>
      let result := read stream segmentInfoSize (arrived j)
      if result.1.length ≠ segmentInfoSize then .error "read SegmentInfo"
      else (readSegments arrived (j + 1) count result.2).map (SegmentInfo.decode result.1 :: ·)

/-- `getSegmentsFromRoudi` on the answer of Roudi; `arrived j` is for its `j`-th call of
`read`. -/
def getSegmentsFromRoudi (arrived : Nat → Nat) (stream : List UInt8) :
    Except String (List SegmentInfo) :=
  let result := read stream 4 (arrived 0)
  if result.1.length ≠ 4 then .error "read count"
  else readSegments arrived 1 (UInt32.ofNat (ofBytes result.1)).toNat result.2

/-! ### Reads of whole records -/

/-- A `read` returns a whole record exactly when all of it has arrived. -/
theorem length_read_append {record rest : List UInt8} {size arrived : Nat}
    (hrecord : record.length = size) (hsize : 1 < size) :
    (read (record ++ rest) size arrived).1.length = size ↔ size ≤ arrived := by
  rw [read, List.splitAt_eq, List.length_take, List.length_append]
  omega

theorem read_append {record rest : List UInt8} {size arrived : Nat}
    (hrecord : record.length = size) (harrived : size ≤ arrived) :
    read (record ++ rest) size arrived = (record, rest) := by
  have hmin : min size (max 1 arrived) = record.length := by omega
  rw [read, List.splitAt_eq, hmin, List.take_left, List.drop_left]

theorem length_of_readSegments {arrived : Nat → Nat} {j count : Nat} {stream : List UInt8}
    {segments : List SegmentInfo} (h : readSegments arrived j count stream = .ok segments) :
    segments.length = count := by
  induction count generalizing j stream segments with
  | zero =>
      cases h
      rfl
  | succ count ih =>
      rw [readSegments] at h
      split at h
      · cases h
      · cases hrest : readSegments arrived (j + 1) count
            (read stream segmentInfoSize (arrived j)).2 with
        | error text =>
            rw [hrest] at h
            cases h
        | ok later =>
            rw [hrest] at h
            cases h
            rw [List.length_cons, ih hrest]

theorem map_cons_eq_ok {ε α : Type} {result : Except ε (List α)} {a : α} {l : List α} :
    result.map (a :: ·) = .ok (a :: l) ↔ result = .ok l := by
  cases result with
  | error text => simp [Except.map]
  | ok later => simp [Except.map]

/-- The loop returns the segments exactly when each of its reads finds a whole segment. -/
theorem readSegments_encode_iff (arrived : Nat → Nat) (j : Nat) (segments : List SegmentInfo) :
    readSegments arrived j segments.length (segments.flatMap SegmentInfo.encode) = .ok segments ↔
      ∀ k, k < segments.length → segmentInfoSize ≤ arrived (j + k) := by
  induction segments generalizing j with
  | nil => simp [readSegments]
  | cons info segments ih =>
      rw [List.length_cons, List.flatMap_cons, readSegments]
      by_cases hfirst : segmentInfoSize ≤ arrived j
      · rw [read_append (length_encode info) hfirst, if_neg (not_not.mpr (length_encode info)),
          decode_encode, map_cons_eq_ok, ih]
        constructor
        · intro hrest k hk
          cases k with
          | zero => exact hfirst
          | succ k =>
              have := hrest k (by omega)
              rwa [Nat.add_assoc, Nat.add_comm 1] at this
        · intro hall k hk
          rw [Nat.add_assoc, Nat.add_comm 1]
          exact hall (k + 1) (by omega)
      · rw [if_pos]
        · constructor
          · intro h
            cases h
          · intro hall
            exact absurd (hall 0 (by omega)) hfirst
        · rwa [Ne, length_read_append (length_encode info) (by decide)]

/-- **The client gets Roudi's list exactly when its number fits `uint32_t` and every `read`
finds the whole number or the whole segment.** -/
theorem getSegmentsFromRoudi_iff (arrived : Nat → Nat) (segments : List SegmentInfo) :
    getSegmentsFromRoudi arrived (handleClient segments reqGetSegments) = .ok segments ↔
      segments.length < 2 ^ 32 ∧ 4 ≤ arrived 0 ∧
        ∀ k, k < segments.length → segmentInfoSize ≤ arrived (1 + k) := by
  have hlength : (toBytes 4 (UInt32.ofNat segments.length).toNat).length = 4 := length_toBytes 4 _
  rw [getSegmentsFromRoudi, handleClient, if_pos rfl]
  by_cases hfirst : 4 ≤ arrived 0
  · rw [read_append hlength hfirst, if_neg (not_not.mpr hlength),
      ofBytes_toBytes_of_lt (UInt32.toNat_lt _), UInt32.ofNat_toNat]
    by_cases hcount : segments.length < 2 ^ 32
    · rw [UInt32.toNat_ofNat_of_lt' hcount, readSegments_encode_iff]
      exact ⟨fun h => ⟨hcount, hfirst, h⟩, fun h => h.2.2⟩
    · constructor
      · intro h
        have hnarrow := length_of_readSegments h
        have := (UInt32.ofNat segments.length).toNat_lt
        omega
      · rintro ⟨h, -⟩
        exact absurd h hcount
  · rw [if_pos]
    · constructor
      · intro h
        cases h
      · rintro ⟨-, h, -⟩
        exact absurd h hfirst
    · rwa [Ne, length_read_append hlength (by decide)]

/-- The number arrives, but only the first 40 bytes of the first segment are there when the
client asks for it. -/
def shortArrivals : Nat → Nat
  | 1 => 40
  | _ => 4096

theorem getSegmentsFromRoudi_shortArrivals :
    (∀ j, 0 < shortArrivals j) ∧
      getSegmentsFromRoudi shortArrivals (handleClient roudiSegments reqGetSegments) =
        .error "read SegmentInfo" ∧
      getSegmentsFromRoudi shortArrivals (handleClient roudiSegments reqGetSegments) ≠
        .ok roudiSegments := by
  have hshort : getSegmentsFromRoudi shortArrivals (handleClient roudiSegments reqGetSegments) =
      .error "read SegmentInfo" := rfl
  refine ⟨fun j => ?_, hshort, ?_⟩
  · unfold shortArrivals
    split <;> omega
  · rw [hshort]
    intro h
    cases h

end CppCode.Segments
