import RpcFraming.Proofs.Acceptance
import RpcFraming.Proofs.Transmission

/-!
# Frame boundaries

Frames follow each other in a stream without separators, and the stream is cut again at the places
that the heads say. The first twelve bytes of a frame that was written are enough to say how long it
is, whether the rest of it is there or not, and whatever follows it. So cutting gives back the frames
that were written, and the beginning of one more frame is left as it is.

The cutting is followed frame by frame: `cutFrames_append` is what one frame does, and the induction
over the frames needs no more than that.
-/

namespace RpcFraming

/-- A frame that was written, with a body that a receiver accepts. -/
structure WrittenFrame (codec : Codec Id) (limit : UInt32) where
  /-- The packet that was written. -/
  packet : Packet
  /-- The packet as the writer leaves it. -/
  sized : Packet
  /-- The head as the writer leaves it. -/
  head : Head
  /-- The frame. -/
  bytes : Bytes
  run_encode : Id.run (packet.encode codec) = ⟨sized, .ok bytes⟩
  head_eq : sized.head = some head
  total_le : head.totalSize.toInt ≤ limit.toNat

namespace WrittenFrame

variable {codec : Codec Id} {limit : UInt32} (x : WrittenFrame codec limit)

theorem exists_body : ∃ body, x.bytes = x.head.toBytes ++ body ∧
    x.head.totalSize.toInt = body.length := by
  obtain ⟨head, metadata, serialized, -, -, -, hbody, hsized, hbytes⟩ :=
    Packet.exists_of_run_encode_eq_ok x.run_encode
  have hhead : some x.head = some (head.sized serialized x.packet.data x.packet.attachment) := by
    rw [← x.head_eq, hsized]
  rw [Option.some.inj hhead]
  refine ⟨serialized ++ (x.packet.data ++ x.packet.attachment), ?_, ?_⟩
  · rw [hbytes, Head.layout, List.append_assoc, List.append_assoc]
  · rw [toInt_totalSize_sized hbody]
    simp only [List.length_append]
    omega

/-- The head of a frame says how long the frame is, whatever follows the head. -/
theorem frameSize?_head_append (rest : Bytes) :
    frameSize? limit (.bytes (x.head.toBytes ++ rest)) = .ok (some x.bytes.length) := by
  obtain ⟨body, hbytes, htotal⟩ := x.exists_body
  have hfront : Frame.totalSize (x.head.toBytes ++ rest) = body.length := by
    rw [Frame.totalSize, Head.front_toBytes_append, htotal]
  have hlength : 12 ≤ (x.head.toBytes ++ rest).length := by
    rw [List.length_append, Head.length_toBytes]
    exact Nat.le_add_right _ _
  have hsize : Frame.size (x.head.toBytes ++ rest) = x.bytes.length := by
    rw [Frame.size, hfront, hbytes, List.length_append, Head.length_toBytes, Head.size]
    rfl
  rw [← hsize]
  refine Frame.frameSize?_eq_some hlength ?_ ?_
  · rw [hfront]
    exact Int.natCast_nonneg _
  · rw [hfront, ← htotal]
    exact x.total_le

theorem cutFrames_append (rest : Bytes) :
    cutFrames limit (x.bytes ++ rest)
      = (cutFrames limit rest).map fun r => (x.bytes :: r.1, r.2) := by
  obtain ⟨body, hbytes, -⟩ := x.exists_body
  have hsize : frameSize? limit (.bytes (x.bytes ++ rest)) = .ok (some x.bytes.length) := by
    have h := x.frameSize?_head_append (body ++ rest)
    rwa [← List.append_assoc, ← hbytes] at h
  have hle : x.bytes.length ≤ (x.bytes ++ rest).length := by
    rw [List.length_append]
    exact Nat.le_add_right _ _
  rw [cutFrames_of_le hsize hle, List.drop_left, List.take_left]

theorem frameSize?_of_prefix {tail : Bytes} (htail : tail <+: x.bytes) :
    (tail.length < 12 → frameSize? limit (.bytes tail) = .ok none) ∧
    (12 ≤ tail.length → frameSize? limit (.bytes tail) = .ok (some x.bytes.length)) := by
  constructor
  · intro h
    exact if_pos h
  · intro h
    obtain ⟨body, hbytes, -⟩ := x.exists_body
    have hhead : x.head.toBytes <+: tail := by
      refine List.prefix_of_prefix_length_le ⟨body, hbytes.symm⟩ htail ?_
      rw [Head.length_toBytes]
      exact h
    obtain ⟨rest, rfl⟩ := hhead
    exact x.frameSize?_head_append rest

theorem cutFrames_of_prefix {tail : Bytes} (htail : tail <+: x.bytes) (hne : tail ≠ x.bytes) :
    cutFrames limit tail = .ok ([], tail) := by
  have hlt : tail.length < x.bytes.length :=
    Nat.lt_of_le_of_ne htail.length_le fun h => hne (htail.eq_of_length h)
  obtain ⟨hshort, hlong⟩ := x.frameSize?_of_prefix htail
  rcases Nat.lt_or_ge tail.length 12 with h | h
  · exact cutFrames_of_none (hshort h)
  · exact cutFrames_of_lt (hlong h) hlt

/-- Frames are cut off one after the other, until the beginning of one more is left. -/
theorem cutFrames_flatten_append (written : List (WrittenFrame codec limit)) {tail : Bytes}
    (htail : cutFrames limit tail = .ok ([], tail)) :
    cutFrames limit ((written.map bytes).flatten ++ tail) = .ok (written.map bytes, tail) := by
  induction written with
  | nil => exact htail
  | cons y written ih =>
    rw [List.map_cons, List.flatten_cons, List.append_assoc, y.cutFrames_append, ih]
    rfl

/-- What is read back of a frame is the packet that was written, with the true sizes in it. -/
theorem decoded_bytes (lawful : codec.Lawful) (now : Int64) :
    ∃ head metadata serialized, x.packet.head = some head ∧ x.packet.metadata = some metadata ∧
      Id.run (codec.serialize (metadata.sized x.packet.attachment).toMessage) = some serialized ∧
      Frame.decoded codec now x.bytes = .ok { x.packet with
        head := some (head.sized serialized x.packet.data x.packet.attachment)
        metadata := some (metadata.sized x.packet.attachment)
        timestamp := now } := by
  obtain ⟨head, metadata, serialized, hhead, hmetadata, hs, -, hsized, -⟩ :=
    Packet.exists_of_run_encode_eq_ok x.run_encode
  have hdecode := Packet.run_decode_of_run_encode lawful x.run_encode now
  rw [hsized] at hdecode
  exact ⟨head, metadata, serialized, hhead, hmetadata, hs, hdecode⟩

/-- **Boundaries are recovered at every cut point.** A stream holds frames that were written and the
beginning of one more, possibly nothing of it. Cutting the stream raises no fault, gives the frames
in order and leaves the beginning; of that, the head alone is asked how long the whole frame would
be. Every frame that was cut off is read back as the packet that was written, with the sizes of the
frame in it. -/
theorem cutFrames_written (lawful : codec.Lawful) (written : List (WrittenFrame codec limit))
    (next : WrittenFrame codec limit) {tail : Bytes} (htail : tail <+: next.bytes)
    (hne : tail ≠ next.bytes) :
    cutFrames limit ((written.map bytes).flatten ++ tail) = .ok (written.map bytes, tail) ∧
    (tail.length < 12 → frameSize? limit (.bytes tail) = .ok none) ∧
    (12 ≤ tail.length →
      ∃ n, frameSize? limit (.bytes tail) = .ok (some n) ∧ tail.length < n) ∧
    ∀ x ∈ written, ∀ now, ∃ head metadata serialized,
      x.packet.head = some head ∧ x.packet.metadata = some metadata ∧
      Id.run (codec.serialize (metadata.sized x.packet.attachment).toMessage) = some serialized ∧
      Frame.decoded codec now x.bytes = .ok { x.packet with
        head := some (head.sized serialized x.packet.data x.packet.attachment)
        metadata := some (metadata.sized x.packet.attachment)
        timestamp := now } := by
  obtain ⟨hshort, hlong⟩ := next.frameSize?_of_prefix htail
  have hlt : tail.length < next.bytes.length :=
    Nat.lt_of_le_of_ne htail.length_le fun h => hne (htail.eq_of_length h)
  refine ⟨?_, hshort, fun h => ⟨_, hlong h, hlt⟩, fun x _ now => x.decoded_bytes lawful now⟩
  exact cutFrames_flatten_append written (next.cutFrames_of_prefix htail hne)

/-- `Packet.sample` as a frame, with a body that is just accepted. -/
def sample : WrittenFrame Packet.sampleCodec 28 where
  packet := Packet.sample
  sized := Packet.sampleSized
  head := { totalSize := 28, metadataSize := 24 }
  bytes := Packet.sampleFrame
  run_encode := Packet.run_encode_sample
  head_eq := rfl
  total_le := by decide

/-- `cutFrames_written` on a frame, the same frame again, and its first 15 bytes. -/
theorem cutFrames_sample :
    Packet.sampleCodec.Lawful ∧ sample.bytes.take 15 <+: sample.bytes ∧
      sample.bytes.take 15 ≠ sample.bytes ∧
      cutFrames 28 (sample.bytes ++ (sample.bytes ++ sample.bytes.take 15))
        = .ok ([sample.bytes, sample.bytes], sample.bytes.take 15) ∧
      ∃ n, frameSize? 28 (.bytes (sample.bytes.take 15)) = .ok (some n) ∧ 15 < n := by
  have hne : sample.bytes.take 15 ≠ sample.bytes := by decide
  obtain ⟨hcut, -, hlong, -⟩ := cutFrames_written Packet.lawful_sampleCodec [sample, sample] sample
    (List.take_prefix 15 _) hne
  exact ⟨Packet.lawful_sampleCodec, List.take_prefix 15 _, hne, hcut, hlong (by decide)⟩

end WrittenFrame

end RpcFraming
