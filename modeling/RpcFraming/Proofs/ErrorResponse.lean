import RpcFraming.Proofs.Frame
import RpcFraming.Proofs.Assembler.Provenance

/-!
# Error responses

A call that failed is answered with the head and the metadata of its request, where a response has
taken the place of the request. Whatever else the metadata said is said again, the place in a chunk
stream included. So the answer to a chunk is a chunk itself, and the assembler of the peer takes it for
one: it does not come out. All that it can do is to end a stream that has the same id at the peer, and
then what came of that stream comes out without it.

The packet that is answered is only looked at: `Packet.errorResponse` makes another one.

## What is proved

* `Packet.run_decode_errorResponse`: what is read from the frame of an error response.
* `Assembler.Valid.outcome_feed_bare`: a chunk that carries nothing is not refused, and what it brings
  out was there before.
* `Packet.errorResponse_received`: what becomes of an error response at the peer.
-/

namespace RpcFraming

/-! ### On the wire -/

namespace Packet

/-- The metadata of an error response, as the peer reads it. -/
def errorMetadata (p : Packet) (code : Int32) (text : Text) : Metadata :=
  { p.metadata.getD {} with
    request := none
    response := some { errorCode := code, errorText := text }
    attachmentSize := 0 }

theorem chunkInfo?_of_errorMetadata {p q : Packet} {code : Int32} {text : Text}
    (h : q.metadata = some (p.errorMetadata code text)) : q.chunkInfo? = p.chunkInfo? := by
  rw [chunkInfo?, h]
  cases hmetadata : p.metadata with
  | none => simp [errorMetadata, chunkInfo?, hmetadata]
  | some metadata => simp [errorMetadata, chunkInfo?, hmetadata]

/-- **What is read from the frame of an error response**: the magic code of the packet that is
answered, its metadata with a response in place of the request, and nothing more. -/
theorem run_decode_errorResponse {codec : Codec Id} (lawful : codec.Lawful) {p p' : Packet}
    {head : Head} (hhead : p.head = some head) {code : Int32} {text : Text} {sent : Int64}
    {frame : Bytes} (h : Id.run ((p.errorResponse code text sent).encode codec) = ⟨p', .ok frame⟩)
    (now : Int64) (rest : Bytes) :
    ∃ head', head'.magic = head.magic ∧
      Id.run (decode codec now (.bytes (frame ++ rest))).run
        = .ok {
            head := some head'
            metadata := some (p.errorMetadata code text)
            timestamp := now } := by
  obtain ⟨head₀, metadata, serialized, hhead₀, hmetadata, hs, hbody, -, rfl⟩ :=
    exists_of_run_encode_eq_ok h
  obtain rfl : head₀ = head := Option.some.inj (hhead₀.symm.trans hhead)
  -- the attachment is empty, so the size that the request had is replaced by 0
  have hsized : metadata.sized [] = p.errorMetadata code text := by
    rw [← Option.some.inj hmetadata]
    rfl
  refine ⟨head₀.sized serialized [] [], rfl, ?_⟩
  rw [← hsized]
  exact run_decode_layout hbody head₀ lawful now rfl hs rest

end Packet

/-! ### At the assembler -/

theorem StreamState.absorb_of_bare {assembled chunk : Packet} (hdata : chunk.data = [])
    (hattachment : chunk.attachment = []) : absorb assembled chunk = assembled := by
  have hkept : (if assembled.attachment = [] then [] else assembled.attachment)
      = assembled.attachment := by
    split
    · next h => exact h.symm
    · rfl
  rw [absorb, hdata, hattachment, List.append_nil, hkept]

namespace Assembler

/-- A packet passes by an assembler: it comes out as it is, and the assembler is as before. -/
def PassesBy (a : Assembler) (q : Packet) : Prop :=
  (a.feed q).outcome = .ok (some q) ∧ (a.feed q).assembler = a

theorem collected_of_lookup {config : Config} {events : List Event} {s : Int64} {assembled : Packet}
    (h : (after { config } events).pending.lookup s = some assembled) :
    ∃ i, Collected config events s i assembled := by
  have hpending : s ∈ (after { config } events).pendingIds := by
    by_contra hp
    rw [lookup_eq_none_iff.2 hp] at h
    cases h
  have hdiscarded := ((valid_new config).after events).disjoint s hpending
  exact exists_collected config events s assembled (stream_eq_collecting_iff.2 ⟨hdiscarded, h⟩)

section Bare

variable {a : Assembler} {info : ChunkInfo} {q : Packet} (h : a.Valid)
  (hinfo : q.chunkInfo? = some info) (hdata : q.data = []) (hattachment : q.attachment = [])

include h hinfo hdata hattachment

/-- **A chunk that carries nothing** is not refused. If it is terminal, it brings out what came of its
stream so far, and otherwise nothing. -/
theorem Valid.outcome_feed_bare :
    (a.feed q).outcome = .ok
      (if info.isFinal then (a.pending.lookup info.streamId).map Packet.clearChunkInfo else none) := by
  rw [outcome_feed hinfo]
  cases hs : a.stream info.streamId with
  | idle =>
    have hlookup := lookup_eq_none_iff.2 (stream_eq_idle_iff.1 hs).2
    by_cases hid : info.chunkId = 0
    · simp [StreamState.feedChunk, hid, hdata, hlookup]
    · simp [StreamState.feedChunk, hid, hlookup]
  | collecting assembled =>
    have hlookup := (stream_eq_collecting_iff.1 hs).2
    have hlimit : ¬ a.dataLimit < assembled.data.length + q.data.length := by
      rw [hdata, List.length_nil, Nat.add_zero, Nat.not_lt]
      exact h.data_le _ (mem_pending_of_lookup hlookup)
    rw [StreamState.feedChunk, if_neg hlimit, StreamState.absorb_of_bare hdata hattachment, hlookup]
    split <;> rfl
  | dropping =>
    have hlookup := lookup_eq_none_iff.2 fun hp => h.disjoint _ hp (stream_eq_dropping_iff.1 hs)
    simp [StreamState.feedChunk, hlookup]

/-- A chunk does not come out itself: what comes out is no chunk any more. -/
theorem Valid.outcome_feed_bare_ne : (a.feed q).outcome ≠ .ok (some q) := by
  rw [h.outcome_feed_bare hinfo hdata hattachment]
  intro heq
  split at heq
  · obtain ⟨assembled, -, rfl⟩ := Option.map_eq_some_iff.1 (Except.ok.inj heq)
    rw [Packet.chunkInfo?_clearChunkInfo] at hinfo
    cases hinfo
  · cases heq

end Bare

end Assembler

/-! ### From the sender to the receiver -/

namespace Packet

open Assembler

/-- **An error response at the peer.** If an error response can be encoded, its frame is read, whatever
follows it, as the metadata of the packet that is answered, with the response in place of the request,
under the same magic code and with nothing behind it. At an assembler that was used in any way, it comes
out and leaves no trace exactly if the packet that is answered is no chunk. If it is one, nothing is
refused and the response does not come out: a terminal chunk brings out what was collected of a stream
with its id, if there is one, and any other chunk brings out nothing. -/
theorem errorResponse_received {codec : Codec Id} (lawful : codec.Lawful) {p p' : Packet} {head : Head}
    (hhead : p.head = some head) {code : Int32} {text : Text} {sent : Int64} {frame : Bytes}
    (h : Id.run ((p.errorResponse code text sent).encode codec) = ⟨p', .ok frame⟩)
    (now : Int64) (rest : Bytes) :
    ∃ q head', Id.run (decode codec now (.bytes (frame ++ rest))).run = .ok q ∧
      q.head = some head' ∧ head'.magic = head.magic ∧ q.data = [] ∧ q.attachment = [] ∧
      q.metadata = some
        { p.metadata.getD {} with
          request := none
          response := some { errorCode := code, errorText := text }
          attachmentSize := 0 } ∧
      ∀ config events,
        ((after { config } events).PassesBy q ↔ p.isChunk = false) ∧
        ∀ info, p.chunkInfo? = some info →
          ((after { config } events).feed q).outcome ≠ .ok (some q) ∧
          ((after { config } events).feed q).outcome = .ok
            (if info.isFinal then
              ((after { config } events).pending.lookup info.streamId).map clearChunkInfo
            else none) ∧
          ∀ assembled, (after { config } events).pending.lookup info.streamId = some assembled →
            ∃ i, Collected config events info.streamId i assembled := by
  obtain ⟨head', hmagic, hdecode⟩ := run_decode_errorResponse lawful hhead h now rest
  refine ⟨_, head', hdecode, rfl, hmagic, rfl, rfl, rfl, fun config events => ?_⟩
  generalize hq : ({
    head := some head'
    metadata := some (p.errorMetadata code text)
    timestamp := now } : Packet) = q
  have hvalid := (valid_new config).after events
  have hchunkInfo : q.chunkInfo? = p.chunkInfo? := chunkInfo?_of_errorMetadata (by rw [← hq])
  have hdata : q.data = [] := by rw [← hq]
  have hattachment : q.attachment = [] := by rw [← hq]
  refine ⟨⟨fun hpasses => ?_, fun hchunk => ?_⟩, fun info hinfo => ?_⟩
  · by_contra hchunk
    obtain ⟨info, hinfo⟩ := isChunk_iff.1 (by simpa using hchunk)
    exact hvalid.outcome_feed_bare_ne (hchunkInfo.trans hinfo) hdata hattachment hpasses.1
  · rw [isChunk, ← hchunkInfo] at hchunk
    rw [PassesBy, feed_of_not_isChunk hchunk]
    exact ⟨rfl, rfl⟩
  · have hinfo' := hchunkInfo.trans hinfo
    exact ⟨hvalid.outcome_feed_bare_ne hinfo' hdata hattachment,
      hvalid.outcome_feed_bare hinfo' hdata hattachment, fun _ => collected_of_lookup⟩

/-- The last chunk of a request, with sizes left over from elsewhere. -/
def failedChunk : Packet where
  head := some { magic := ⟨0x48, 0x55, 0x4C, 0x55⟩, totalSize := 99, metadataSize := -1 }
  metadata := some
    { request := some { serviceName := "E", methodName := "m" }
      correlationId := 7
      attachmentSize := 5
      chunkInfo := some ⟨4, ChunkInfo.finalId⟩ }
  data := [1, 2, 3]
  attachment := [0xAA]

/-- The serialized metadata of the error response to `failedChunk`. -/
def refusalBytes : Bytes :=
  [0x12, 6, 8, 5, 0x12, 2, 0x6E, 0x6F, 0x18, 0, 0x20, 7, 0x28, 0, 0x32, 13, 8, 4, 0x10,
    0xFF, 0xFF, 0xFF, 0xFF, 0xFF, 0xFF, 0xFF, 0xFF, 0xFF, 1]

/-- A codec that knows the metadata of the error response to `failedChunk`. -/
def refusalCodec : Codec Id := .ofTable [((failedChunk.errorMetadata 5 "no").toMessage, refusalBytes)]

/-- The first chunk of a stream that has the id of the stream of `failedChunk`. -/
def firstChunk : Packet where
  metadata := some { correlationId := 9, chunkInfo := some ⟨4, 0⟩ }
  data := [8]

/-- The frame of the error response to `failedChunk`. -/
def refusalFrame : Bytes :=
  [0x48, 0x55, 0x4C, 0x55, 0, 0, 0, 29, 0, 0, 0, 29] ++ refusalBytes

theorem run_encode_refusal : Id.run ((failedChunk.errorResponse 5 "no" 1).encode refusalCodec)
    = ⟨{ head := some { magic := ⟨0x48, 0x55, 0x4C, 0x55⟩, totalSize := 29, metadataSize := 29 }
         metadata := some (failedChunk.errorMetadata 5 "no")
         timestamp := 1 }, .ok refusalFrame⟩ :=
  rfl

/-- `errorResponse_received` on `failedChunk`: at a new assembler the response is lost, and after
`firstChunk` it brings that chunk out. -/
theorem errorResponse_received_failedChunk :
    refusalCodec.Lawful ∧
      (Id.run ((failedChunk.errorResponse 5 "no" 1).encode refusalCodec)).outcome
        = .ok refusalFrame ∧
      ∃ q, Id.run (decode refusalCodec 2 (.bytes (refusalFrame ++ [7]))).run = .ok q ∧
        (feed {} q).outcome = .ok none ∧
        (feed (after {} [.feed firstChunk]) q).outcome
          = .ok (some { metadata := some { correlationId := 9 }, data := [8] }) := by
  have lawful : refusalCodec.Lawful := Codec.lawful_ofTable (by decide)
  obtain ⟨q, head, hdecode, -, -, -, -, -, hfeed⟩ :=
    errorResponse_received lawful (p := failedChunk) rfl run_encode_refusal 2 [7]
  refine ⟨lawful, rfl, q, hdecode, ?_, ?_⟩
  · exact ((hfeed {} []).2 ⟨4, ChunkInfo.finalId⟩ rfl).2.1
  · exact ((hfeed {} [.feed firstChunk]).2 ⟨4, ChunkInfo.finalId⟩ rfl).2.1

end Packet

end RpcFraming
