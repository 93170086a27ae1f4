import RpcFraming.Proofs.Assembler.Streams
import Mathlib.Data.Finset.Card
import Mathlib.Data.Finset.Dedup

/-!
# Streams do not interfere

An assembler shares its bounds among all streams. As long as no more streams occur than there is room
for, the sharing is not seen: to the chunks of each stream it answers exactly what the stream's own
life would be (`StreamState.run`), whatever else is fed in between.

The argument is that of a simulation. Where a stream stands (`Assembler.stream`) is the abstraction;
its own chunks take the step of `StreamState.feedChunk`, and the chunks of others leave it alone while
there is room (`Assembler.HasRoom`). There is room because the streams that are not idle, together
with the one that is fed, are all different and all among those that occur.
-/

namespace RpcFraming

/-- How many streams an assembler has room for. -/
def Config.streamLimit (config : Config) : Nat :=
  if config.maxPendingStreams = 0 then 1024 else config.maxPendingStreams.toNat

namespace Assembler

variable {a : Assembler} {p : Packet} {s : Int64}

/-- What is answered to some packets, one after the other. -/
def replies : Assembler → List Packet → List Reply
  | _, [] => []
  | a, p :: packets => (a.feed p).reply :: replies (a.feed p).assembler packets

/-- The answers that were given to the chunks of one stream. -/
def repliesTo (s : Int64) (packets : List Packet) (answers : List Reply) : List Reply :=
  ((packets.zip answers).filter fun e => e.1.streamId? = some s).map Prod.snd

theorem repliesTo_cons_of_eq {packets : List Packet} {answer : Reply} {answers : List Reply}
    (hp : p.streamId? = some s) :
    repliesTo s (p :: packets) (answer :: answers) = answer :: repliesTo s packets answers := by
  simp [repliesTo, hp]

theorem repliesTo_cons_of_ne {packets : List Packet} {answer : Reply} {answers : List Reply}
    (hp : p.streamId? ≠ some s) :
    repliesTo s (p :: packets) (answer :: answers) = repliesTo s packets answers := by
  simp [repliesTo, hp]

theorem streamId?_eq_some_iff :
    p.streamId? = some s ↔ ∃ info, p.chunkInfo? = some info ∧ info.streamId = s := by
  simp [Packet.streamId?]

/-! ### There is room -/

theorem memory_eq_streamLimit : a.memory = a.config.streamLimit := rfl

/-- Different streams among the given ones, one of them left out, are fewer than those. -/
theorem length_lt_card {ids : Finset Int64} {l : List Int64} (hnodup : l.Nodup)
    (hsub : ∀ t ∈ l, t ∈ ids) (hs : s ∈ ids) (hl : s ∉ l) : l.length < ids.card := by
  have hlt : l.toFinset ⊂ ids := by
    refine (Finset.ssubset_iff_of_subset fun t ht => hsub t (List.mem_toFinset.1 ht)).2 ⟨s, hs, ?_⟩
    rwa [List.mem_toFinset]
  rw [← List.toFinset_card_of_nodup hnodup]
  exact Finset.card_lt_card hlt

theorem isFull_eq_false_of_lt
    (h : a.config.maxPendingStreams ≠ 0 → a.pending.length < a.config.maxPendingStreams.toNat) :
    a.isFull = false := by
  simpa [isFull] using h

/-- An idle stream can be started, as long as all streams that are not idle are counted. -/
theorem Valid.isFull_eq_false {ids : Finset Int64} (h : a.Valid)
    (hcard : a.config.maxPendingStreams ≠ 0 → ids.card ≤ a.config.maxPendingStreams.toNat)
    (hknown : ∀ t, a.stream t ≠ .idle → t ∈ ids) (hs : s ∈ ids) (hidle : a.stream s = .idle) :
    a.isFull = false := by
  obtain ⟨-, hp⟩ := stream_eq_idle_iff.1 hidle
  have hsub : ∀ t ∈ a.pendingIds, t ∈ ids := fun t ht =>
    hknown t fun hidle => (stream_eq_idle_iff.1 hidle).2 ht
  have hlt := length_lt_card h.nodup_pending hsub hs hp
  rw [length_pendingIds] at hlt
  exact isFull_eq_false_of_lt fun hmax => hlt.trans_le (hcard hmax)

/-- There is room for a stream that is counted, as long as all streams that are not idle are
counted. -/
theorem Valid.hasRoom {ids : Finset Int64} (h : a.Valid) (hcard : ids.card ≤ a.config.streamLimit)
    (hknown : ∀ t, a.stream t ≠ .idle → t ∈ ids) (hs : s ∈ ids) : a.HasRoom s where
  start := by
    refine h.isFull_eq_false (fun hmax => ?_) hknown hs
    rwa [Config.streamLimit, if_neg hmax] at hcard
  discard hdropping := by
    have hd : s ∉ a.discarded := fun hd => hdropping (stream_eq_dropping_iff.2 hd)
    have hsub : ∀ t ∈ a.discarded, t ∈ ids := fun t ht =>
      hknown t fun hidle => (stream_eq_idle_iff.1 hidle).1 ht
    rw [memory_eq_streamLimit]
    exact Nat.lt_of_lt_of_le (length_lt_card h.nodup_discarded hsub hs hd) hcard

/-! ### The simulation -/

/-- The answers to the chunks of a stream are those of the stream alone, from any state in which all
streams that are not idle are counted. -/
theorem Valid.repliesTo_eq_run {ids : Finset Int64} {packets : List Packet} (h : a.Valid)
    (hcard : ids.card ≤ a.config.streamLimit) (hknown : ∀ t, a.stream t ≠ .idle → t ∈ ids)
    (hpackets : ∀ p ∈ packets, ∀ t, p.streamId? = some t → t ∈ ids) (s : Int64) :
    repliesTo s packets (a.replies packets)
      = (a.stream s).run a.dataLimit (packets.filter fun p => p.streamId? = some s) := by
  induction packets generalizing a with
  | nil => rfl
  | cons p packets ih =>
    have hrest : ∀ p ∈ packets, ∀ t, p.streamId? = some t → t ∈ ids := fun p hp =>
      hpackets p (List.mem_cons_of_mem _ hp)
    have hcard' : ids.card ≤ (a.feed p).assembler.config.streamLimit := by rwa [config_feed]
    rw [replies]
    cases hinfo : p.chunkInfo? with
    | none =>
      have hp : p.streamId? ≠ some s := by simp [Packet.streamId?, hinfo]
      have hfeed : (a.feed p).assembler = a := by simp only [Assembler.feed, hinfo]
      rw [repliesTo_cons_of_ne hp, List.filter_cons_of_neg (by simpa using hp), hfeed]
      exact ih h hcard hknown hrest
    | some info =>
      have hp : p.streamId? = some info.streamId := streamId?_eq_some_iff.2 ⟨info, hinfo, rfl⟩
      have hmem : info.streamId ∈ ids := hpackets p List.mem_cons_self _ hp
      have hroom := h.hasRoom hcard hknown hmem
      have hknown' : ∀ t, (a.feed p).assembler.stream t ≠ .idle → t ∈ ids := by
        intro t ht
        by_cases he : t = info.streamId
        · exact he ▸ hmem
        · rw [stream_feed_of_ne hinfo hroom he] at ht
          exact hknown t ht
      have hrun := ih (h.feed p) hcard' hknown' hrest
      rw [dataLimit_feed] at hrun
      by_cases he : info.streamId = s
      · subst he
        rw [repliesTo_cons_of_eq hp, List.filter_cons_of_pos (by simpa using hp), hrun,
          stream_feed_self h hinfo, reply_feed_of_hasRoom hinfo hroom, StreamState.run,
          StreamState.feed_of_chunk hinfo]
      · have hp' : p.streamId? ≠ some s := by simpa [hp] using he
        rw [repliesTo_cons_of_ne hp', List.filter_cons_of_neg (by simpa using hp'), hrun,
          stream_feed_of_ne hinfo hroom (Ne.symm he)]

/-- **Streams do not interfere.** If no more streams occur in what is fed to a new assembler than
there is room for, then the chunks of every stream are answered as if they had been fed alone: the
same packets come out, the same chunks are refused, and the operator is told the same. -/
theorem repliesTo_new_eq_run (config : Config) {packets : List Packet}
    (hroom : (packets.filterMap Packet.streamId?).toFinset.card ≤ config.streamLimit) (s : Int64) :
    repliesTo s packets (replies { config } packets)
      = StreamState.run config.maxBodySize.toNat .idle
          (packets.filter fun p => p.streamId? = some s) := by
  have hpackets : ∀ p ∈ packets, ∀ t, p.streamId? = some t →
      t ∈ (packets.filterMap Packet.streamId?).toFinset := by
    intro p hp t ht
    rw [List.mem_toFinset, List.mem_filterMap]
    exact ⟨p, hp, ht⟩
  have hrun := (valid_new config).repliesTo_eq_run hroom (fun t ht => absurd (stream_new config) ht)
    hpackets s
  rwa [stream_new] at hrun

/-- A chunk with nothing in it but data. -/
def sampleChunk (s chunkId : Int64) (data : Bytes) : Packet where
  metadata := some { chunkInfo := some ⟨s, chunkId⟩ }
  data

/-- The chunks of two streams, mixed. The second stream becomes too large and goes on. -/
def samplePackets : List Packet :=
  [sampleChunk 1 0 [1, 2], sampleChunk 2 0 [3], sampleChunk 2 1 [4, 5, 6, 7],
    sampleChunk 1 (-1) [8], sampleChunk 2 2 [9], sampleChunk 2 (-1) []]

/-- `repliesTo_new_eq_run` on `samplePackets`, with no room to spare. -/
theorem repliesTo_samplePackets :
    (samplePackets.filterMap Packet.streamId?).toFinset.card
        ≤ Config.streamLimit { maxPendingStreams := 2, maxBodySize := 4 } ∧
      repliesTo 1 samplePackets
          (replies { config := { maxPendingStreams := 2, maxBodySize := 4 } } samplePackets)
        = [⟨.ok none, none⟩, ⟨.ok (some { metadata := some {}, data := [1, 2, 8] }), none⟩] ∧
      repliesTo 2 samplePackets
          (replies { config := { maxPendingStreams := 2, maxBodySize := 4 } } samplePackets)
        = [⟨.ok none, none⟩, ⟨.error .streamAboveLimit, none⟩, ⟨.ok none, none⟩,
            ⟨.ok none, none⟩] :=
  ⟨by decide, (repliesTo_new_eq_run _ (by decide) 1).trans rfl,
    (repliesTo_new_eq_run _ (by decide) 2).trans rfl⟩

end Assembler

end RpcFraming
