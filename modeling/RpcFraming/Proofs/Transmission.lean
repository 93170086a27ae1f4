import RpcFraming.Proofs.Frame
import RpcFraming.Proofs.Stream
import RpcFraming.Transmission
import Mathlib.Data.List.Forall2

/-!
# What a transmission carries

`Packet.transmit` sends a packet whole or as a chunk stream. This module follows the frames to the
receiver's end, where each is decoded on its own. A packet that was sent whole comes out of its one
frame. The frames of a packet that was split take its stream from idle, through collecting, back to
idle, and the packet comes out at the last one (`Completes`). In both cases what comes out is the
packet that was sent, with the true sizes in it (`Restores`).

The codec is assumed to parse what it serialized.
-/

namespace RpcFraming

namespace Packet

/-- The packet `q` is what the other end gets of the packet `p`. -/
structure Restores (codec : Codec Id) (p q : Packet) : Prop where
  /-- The magic code is the same. -/
  magic : q.head.map Head.magic = p.head.map Head.magic
  /-- The metadata is the same but for the size of the attachment. -/
  metadata : q.metadata = p.metadata.map (Metadata.sized · p.attachment)
  /-- The size of the attachment is the true one. -/
  attachmentSize : (Int32.ofNat p.attachment.length).toInt = p.attachment.length
  /-- It is no chunk. -/
  chunkInfo : q.chunkInfo? = none
  /-- The data is the same. -/
  data : q.data = p.data
  /-- The attachment is the same. -/
  attachment : q.attachment = p.attachment
  /-- It would be sent as the same frame. -/
  frame : (Id.run (q.encode codec)).outcome = (Id.run (p.encode codec)).outcome

/-- Whatever has the parts of a packet under the true sizes restores it. -/
theorem restores_of_eq {codec : Codec Id} {p q : Packet} {h₁ h₂ : Head} {metadata : Metadata}
    (hhead : p.head = some h₁) (hmetadata : p.metadata = some metadata)
    (hchunk : p.chunkInfo? = none) (hsize : p.attachment.length ≤ sizeLimit)
    (hhead' : q.head = some h₂) (hmagic : h₂.magic = h₁.magic)
    (hmetadata' : q.metadata = some (metadata.sized p.attachment)) (hdata : q.data = p.data)
    (hattachment : q.attachment = p.attachment) : Restores codec p q where
  magic := by rw [hhead, hhead', Option.map_some, Option.map_some, hmagic]
  metadata := by rw [hmetadata, hmetadata', Option.map_some]
  attachmentSize := toInt_ofNat_of_le_sizeLimit hsize
  chunkInfo := by
    have hnone : metadata.chunkInfo = none := by simpa [chunkInfo?, hmetadata] using hchunk
    rw [chunkInfo?, hmetadata', Option.bind_some]
    exact hnone
  data := hdata
  attachment := hattachment
  frame := encode_outcome_congr codec hhead' hmetadata' hhead hmetadata hmagic
    (by rw [hattachment, Metadata.sized_sized]) hdata hattachment

/-- A frame that was written is decoded, whenever this is done. -/
theorem run_decode_of_run_encode {codec : Codec Id} (lawful : codec.Lawful) {p p' : Packet}
    {frame : Bytes} (h : Id.run (p.encode codec) = ⟨p', .ok frame⟩) (now : Int64) :
    Id.run (decode codec now (.bytes frame)).run = .ok { p' with timestamp := now } := by
  obtain ⟨head, metadata, serialized, -, -, hs, hbody, rfl, rfl⟩ := exists_of_run_encode_eq_ok h
  have hdecode := run_decode_layout hbody head lawful now rfl hs []
  rwa [List.append_nil] at hdecode

end Packet

/-! ### Encoding one packet after the other -/

theorem run_encodeAll_cons (codec : Codec Id) (p : Packet) (packets : List Packet) :
    Id.run (encodeAll codec (p :: packets)).run
      = do
        let frame ← (Id.run (p.encode codec)).outcome
        let frames ← Id.run (encodeAll codec packets).run
        return frame :: frames := by
  simp only [encodeAll, run_bind_of_id]
  rfl

/-- If some packets are all encoded, then each frame is that of its packet. -/
theorem forall₂_of_run_encodeAll {codec : Codec Id} {packets : List Packet} {frames : List Bytes}
    (h : Id.run (encodeAll codec packets).run = .ok frames) :
    List.Forall₂ (fun p frame => ∃ p', Id.run (p.encode codec) = ⟨p', .ok frame⟩) packets frames := by
  induction packets generalizing frames with
  | nil =>
    cases h
    exact .nil
  | cons p packets ih =>
    rw [run_encodeAll_cons] at h
    cases hp : Id.run (p.encode codec) with
    | mk p' outcome =>
      rw [hp] at h
      cases outcome with
      | error fault => cases h
      | ok frame =>
        cases hrest : Id.run (encodeAll codec packets).run with
        | error fault =>
          rw [hrest] at h
          cases h
        | ok rest =>
          rw [hrest] at h
          cases h
          exact .cons ⟨p', hp⟩ (ih hrest)

/-! ### Chunks at the other end -/

/-- A chunk is received as the chunk that it is. -/
theorem exists_received {codec : Codec Id} (lawful : codec.Lawful) {c c' : Packet} {frame : Bytes}
    {head : Head} {metadata : Metadata} (hhead : c.head = some head)
    (hmetadata : c.metadata = some metadata)
    (h : Id.run (c.encode codec) = ⟨c', .ok frame⟩) (now : Int64) :
    ∃ r h', Id.run (Packet.decode codec now (.bytes frame)).run = .ok r ∧ r.head = some h' ∧
      h'.magic = head.magic ∧ r.metadata = some (metadata.sized c.attachment) ∧ r.data = c.data ∧
      r.attachment = c.attachment := by
  have hdecode := Packet.run_decode_of_run_encode lawful h now
  obtain ⟨head₀, metadata₀, serialized, hhead₀, hmetadata₀, -, -, rfl, -⟩ :=
    Packet.exists_of_run_encode_eq_ok h
  cases hhead₀.symm.trans hhead
  cases hmetadata₀.symm.trans hmetadata
  exact ⟨_, _, hdecode, rfl, rfl, rfl, rfl, rfl⟩

/-- The frames that a stream still waits for in a given state: at the last one the stream becomes
idle and a packet as wanted comes out, and before that it goes on collecting and nothing comes out.
It does not matter when the frames are decoded. -/
inductive Completes (codec : Codec Id) (limit : Nat) (s : Int64) (wanted : Packet → Prop) :
    StreamState → List Bytes → Prop where
  /-- The last frame brings the packet. -/
  | last {σ : StreamState} {frame : Bytes}
      (h : ∀ now, ∃ r q, Id.run (Packet.decode codec now (.bytes frame)).run = .ok r ∧
        r.streamId? = some s ∧ σ.feed limit r = (.idle, ⟨.ok (some q), none⟩) ∧ wanted q) :
      Completes codec limit s wanted σ [frame]
  /-- Any other frame is added to what came so far. -/
  | more {σ : StreamState} {frame : Bytes} {frames : List Bytes} (next : Int64 → Packet)
      (h : ∀ now, ∃ r, Id.run (Packet.decode codec now (.bytes frame)).run = .ok r ∧
        r.streamId? = some s ∧ σ.feed limit r = (.collecting (next now), ⟨.ok none, none⟩))
      (hrest : ∀ now, Completes codec limit s wanted (.collecting (next now)) frames) :
      Completes codec limit s wanted σ (frame :: frames)

theorem Completes.ne_nil {codec : Codec Id} {limit : Nat} {s : Int64} {wanted : Packet → Prop}
    {σ : StreamState} {frames : List Bytes} (h : Completes codec limit s wanted σ frames) :
    frames ≠ [] := by
  cases h <;> simp

theorem Completes.mono {codec : Codec Id} {limit : Nat} {s : Int64} {wanted wanted' : Packet → Prop}
    {σ : StreamState} {frames : List Bytes} (hw : ∀ q, wanted q → wanted' q)
    (h : Completes codec limit s wanted σ frames) : Completes codec limit s wanted' σ frames := by
  induction h with
  | last h =>
    refine .last fun now => ?_
    obtain ⟨r, q, hdecode, hs, hfeed, hq⟩ := h now
    exact ⟨r, q, hdecode, hs, hfeed, hw q hq⟩
  | more next h _ ih => exact .more next h ih

theorem absorb_of_attachment_eq_nil {q r : Packet} (h : r.attachment = []) :
    StreamState.absorb q r = { q with data := q.data ++ r.data } := by
  by_cases hq : q.attachment = [] <;> simp [StreamState.absorb, h, hq]

theorem ofNat_ne_finalId {i : Nat} (h : i ≤ UInt32.size) : Int64.ofNat i ≠ ChunkInfo.finalId := by
  intro he
  simp only [UInt32.size] at h
  have hi : (Int64.ofNat i).toInt = i := Int64.toInt_ofNat_of_lt (by omega)
  rw [he] at hi
  have hfinal : ChunkInfo.finalId.toInt = -1 := by decide
  omega

theorem metadata_chunk {p : Packet} {metadata : Metadata} (hmetadata : p.metadata = some metadata)
    (s : Int64) (n i : Nat) (piece : Bytes) :
    (p.chunk s n i piece).metadata = some { metadata with
      chunkInfo := some ⟨s, if i + 1 = n then ChunkInfo.finalId else .ofNat i⟩ } := by
  simp [Packet.chunk, Packet.withChunkInfo, hmetadata]

section Chunks

variable {codec : Codec Id} (lawful : codec.Lawful) {p : Packet} {head : Head} {metadata : Metadata}
  (hhead : p.head = some head) (hmetadata : p.metadata = some metadata)

include lawful hhead hmetadata

/-- What is received of the `i`-th of `n` chunks. -/
theorem exists_received_chunk {s : Int64} {n i : Nat} {piece frame : Bytes} {c' : Packet}
    (h : Id.run ((p.chunk s n i piece).encode codec) = ⟨c', .ok frame⟩) (now : Int64) :
    ∃ r h', Id.run (Packet.decode codec now (.bytes frame)).run = .ok r ∧
      r.chunkInfo? = some ⟨s, if i + 1 = n then ChunkInfo.finalId else .ofNat i⟩ ∧
      r.head = some h' ∧ h'.magic = head.magic ∧
      r.clearChunkInfo.metadata
        = some ({ metadata with chunkInfo := none }.sized (if i = 0 then p.attachment else [])) ∧
      r.data = piece ∧ r.attachment = if i = 0 then p.attachment else [] := by
  obtain ⟨r, h', hdecode, hrhead, hmagic, hrmetadata, hdata, hattachment⟩ :=
    exists_received lawful (show (p.chunk s n i piece).head = some head from hhead)
      (metadata_chunk hmetadata s n i piece) h now
  refine ⟨r, h', hdecode, ?_, hrhead, hmagic, ?_, hdata, hattachment⟩
  · rw [Packet.chunkInfo?, hrmetadata]
    rfl
  · rw [Packet.clearChunkInfo, hrmetadata]
    rfl

/-- The chunks from the `i`-th on, where the first has been received. -/
theorem completes_collecting {s : Int64} {limit n i : Nat} {pieces : List Bytes}
    {frames : List Bytes} {q : Packet} (hpieces : pieces ≠ []) (hi : 0 < i)
    (hn : i + pieces.length = n) (hn' : n ≤ UInt32.size)
    (hframes : List.Forall₂ (fun c frame => ∃ c', Id.run (c.encode codec) = ⟨c', .ok frame⟩)
      (pieces.mapIdx fun k => p.chunk s n (i + k)) frames)
    (hdata : q.data.length + pieces.flatten.length ≤ limit) :
    Completes codec limit s
      (· = { q with data := q.data ++ pieces.flatten }.clearChunkInfo) (.collecting q) frames := by
  induction pieces generalizing i q frames with
  | nil => exact absurd rfl hpieces
  | cons piece pieces ih =>
    rw [List.mapIdx_cons] at hframes
    cases hframes with
    | @cons _ frame _ frames hframe hframes =>
      obtain ⟨c', hc⟩ := hframe
      rw [List.flatten_cons, List.length_append] at hdata
      have hlimit : ∀ r : Packet, r.data = piece → ¬ limit < q.data.length + r.data.length := by
        rintro r rfl
        omega
      cases pieces with
      | nil =>
        -- the last chunk
        cases hframes
        refine .last fun now => ?_
        obtain ⟨r, h', hdecode, hinfo, -, -, -, hr, hattachment⟩ :=
          exists_received_chunk lawful hhead hmetadata hc now
        rw [if_pos (by simpa using hn)] at hinfo
        rw [if_neg (by omega)] at hattachment
        refine ⟨r, (StreamState.absorb q r).clearChunkInfo, hdecode,
          by rw [Packet.streamId?, hinfo]; rfl, ?_, ?_⟩
        · rw [StreamState.feed_of_chunk hinfo, StreamState.feedChunk, if_neg (hlimit r hr)]
          exact if_pos (by simp [ChunkInfo.isFinal])
        · rw [absorb_of_attachment_eq_nil hattachment, hr]
          simp
      | cons piece' pieces' =>
        refine .more (fun _ => { q with data := q.data ++ piece }) (fun now => ?_) fun _ => ?_
        · obtain ⟨r, h', hdecode, hinfo, -, -, -, hr, hattachment⟩ :=
            exists_received_chunk lawful hhead hmetadata hc now
          simp only [List.length_cons] at hn
          rw [if_neg (by omega)] at hinfo hattachment
          refine ⟨r, hdecode, by rw [Packet.streamId?, hinfo]; rfl, ?_⟩
          rw [StreamState.feed_of_chunk hinfo, StreamState.feedChunk, if_neg (hlimit r hr), if_neg,
            absorb_of_attachment_eq_nil hattachment, hr]
          simpa [ChunkInfo.isFinal] using ofNat_ne_finalId (by omega)
        · have hchunks : (fun k => p.chunk s n (i + (k + 1))) = fun k => p.chunk s n (i + 1 + k) := by
            funext k
            rw [Nat.add_right_comm, Nat.add_assoc]
          rw [hchunks] at hframes
          have hrest := ih (q := { q with data := q.data ++ piece }) (List.cons_ne_nil _ _)
            (Nat.succ_pos i) (by rw [List.length_cons] at hn; omega) hframes
            (by rw [List.length_append]; omega)
          rwa [List.append_assoc] at hrest

/-- All the chunks, from the first on. -/
theorem completes_idle {s : Int64} {limit : Nat} {pieces : List Bytes} {frames : List Bytes}
    (hchunk : p.chunkInfo? = none) (htwo : 1 < pieces.length) (hcount : pieces.length ≤ UInt32.size)
    (hpieces : pieces.flatten = p.data) (hdata : p.data.length ≤ limit)
    (hframes : Id.run (encodeAll codec (p.chunks s pieces)).run = .ok frames) :
    Completes codec limit s (p.Restores codec) .idle frames := by
  have hnone : metadata.chunkInfo = none := by simpa [Packet.chunkInfo?, hmetadata] using hchunk
  have hall := forall₂_of_run_encodeAll hframes
  cases pieces with
  | nil => exact absurd htwo (by simp)
  | cons piece pieces =>
    rw [Packet.chunks, List.mapIdx_cons] at hall
    cases hall with
    | @cons _ frame _ frames hframe hall =>
      obtain ⟨c', hc⟩ := hframe
      rw [List.length_cons] at htwo
      obtain ⟨_, _, _, -, -, -, hbody, -, -⟩ := Packet.exists_of_run_encode_eq_ok hc
      have hsize : p.attachment.length ≤ sizeLimit := length_attachment_le hbody
      rw [← hpieces, List.flatten_cons, List.length_append] at hdata
      choose next h' hdecode hinfo hnext hmagic hcleared hpiece hattachment using
        exists_received_chunk lawful hhead hmetadata hc
      refine .more next (fun now => ⟨next now, hdecode now, ?_, ?_⟩) fun now => ?_
      · rw [Packet.streamId?, hinfo now]
        rfl
      · rw [StreamState.feed_of_chunk (hinfo now), StreamState.feedChunk,
          if_neg (by rw [if_neg (by rw [List.length_cons]; omega)]; simp),
          if_neg (by rw [hpiece now]; omega)]
      · have hchunks : (fun k => p.chunk s (pieces.length + 1) (k + 1))
            = fun k => p.chunk s (pieces.length + 1) (1 + k) := by
          funext k
          rw [Nat.add_comm k]
        rw [List.length_cons, hchunks] at hall
        have hfits : (next now).data.length + pieces.flatten.length ≤ limit := by rwa [hpiece now]
        have hrest := completes_collecting lawful hhead hmetadata
          (List.ne_nil_of_length_pos (by omega)) Nat.one_pos (Nat.add_comm _ _) hcount hall hfits
        refine hrest.mono ?_
        rintro _ rfl
        refine Packet.restores_of_eq hhead hmetadata hchunk hsize (hnext now) (hmagic now) ?_ ?_ ?_
        · refine (hcleared now).trans ?_
          rw [if_pos rfl, ← hnone]
        · show (next now).data ++ pieces.flatten = p.data
          rw [hpiece now, ← hpieces, List.flatten_cons]
        · exact hattachment now

end Chunks

/-! ### Whole packets and split ones -/

/-- No piece but a single one is empty. -/
theorem Bytes.length_pieces_le (n : Nat) (b : Bytes) :
    (b.pieces n).length ≤ b.length + 1 := by
  fun_induction pieces n b with
  | case1 b h => simp
  | case2 b h ih =>
    rw [List.length_drop] at ih
    rw [List.length_cons]
    omega

/-- **Every transmission** is either one frame, in which the packet travels whole, or at least two,
which take the packet's stream from idle back to idle and bring the packet out. -/
theorem whole_or_completes {codec : Codec Id} (lawful : codec.Lawful) {config : Config} {ids : StreamIds}
    {p : Packet} {head : Head} {metadata : Metadata} {frames : List Bytes}
    (hhead : p.head = some head) (hmetadata : p.metadata = some metadata)
    (hchunk : p.chunkInfo? = none)
    (h : Id.run (p.transmit codec config ids).1.run = .ok frames) :
    (∃ frame, frames = [frame] ∧ ∀ now, ∃ q,
      Id.run (Packet.decode codec now (.bytes frame)).run = .ok q ∧ p.Restores codec q) ∨
    (1 < frames.length ∧ ∀ limit : Nat, limit < UInt32.size → p.data.length ≤ limit →
      Completes codec limit ids.next.1 (p.Restores codec) .idle frames) := by
  replace h : Id.run (encodeAll codec (p.split config.chunkSize ids).1).run = .ok frames := h
  rw [Packet.split] at h
  split at h
  · left
    cases forall₂_of_run_encodeAll h with
    | @cons _ frame _ _ hframe hnil =>
      cases hnil
      obtain ⟨p', hp⟩ := hframe
      refine ⟨frame, rfl, fun now => ⟨_, Packet.run_decode_of_run_encode lawful hp now, ?_⟩⟩
      obtain ⟨head₀, metadata₀, serialized, hhead₀, hmetadata₀, -, hbody, rfl, -⟩ :=
        Packet.exists_of_run_encode_eq_ok hp
      cases hmetadata₀.symm.trans hmetadata
      exact Packet.restores_of_eq hhead₀ hmetadata hchunk (length_attachment_le hbody) rfl rfl rfl
        rfl rfl
  · next hsplit =>
    right
    replace h : Id.run (encodeAll codec (p.chunks ids.next.1
      (p.data.pieces config.chunkSize.toNatClampNeg))).run = .ok frames := h
    obtain ⟨hsize, hlong⟩ := not_or.1 hsplit
    have hn : config.chunkSize.toNatClampNeg ≠ 0 := by
      rw [Int64.lt_iff_toInt_lt] at hsize
      have hone : (1 : Int64).toInt = 1 := by decide
      rw [Int64.toNatClampNeg]
      omega
    have hlength := (forall₂_of_run_encodeAll h).length_eq
    rw [Packet.length_chunks] at hlength
    have htwo : 1 < (p.data.pieces config.chunkSize.toNatClampNeg).length := by
      rw [Bytes.pieces_of_lt_length hn (by omega), List.length_cons]
      have hrest := List.length_pos_of_ne_nil (Bytes.pieces_ne_nil config.chunkSize.toNatClampNeg
        (p.data.drop config.chunkSize.toNatClampNeg))
      omega
    refine ⟨hlength ▸ htwo, fun limit hlimit hdata => ?_⟩
    have hcount := Bytes.length_pieces_le config.chunkSize.toNatClampNeg p.data
    exact completes_idle lawful hhead hmetadata hchunk htwo (by omega) (Bytes.flatten_pieces _ _)
      hdata h

end RpcFraming
